import LabelGrammar.CommandLine.Program
import LabelGrammar.Proofs.CommandLine.Looking
import LabelGrammar.Proofs.Store.Directory

/-! # Sessions in files

Whatever commands are run on a directory that sessions can be written to, they can be written to it
afterwards. So the program on files keeps to what is known of commands on stores.
-/

namespace LabelGrammar

open Saved

theorem Editor.same_of_reliable {store : DirectoryStore} (hs : store.Reliable) {calls : List Call}
    (hc : ∀ c ∈ calls, c.FieldsValid) (hw : ((opened store).run calls).workspace.Shallow) :
    let e := (opened store).run calls
    (Saved.load e.store).Same e.saved ∧ (opened e.store).saved.Same e.saved ∧
      (opened e.close).saved.Same e.saved :=
  same_of_durable DirectoryStore.Reliable.durable hs hc hw

namespace Command

variable {σ : Type} [Store σ] (c : Context)

theorem perform_cases (command : Command) (e : Editor σ) :
    (command.perform c e).2 = e ∨ ∃ call, (command.perform c e).2 = e.after call := by
  cases command with
  | «show» | highlight => exact .inl rfl
  | «export» mode =>
    simp only [perform]
    split
    · exact .inl rfl
    · exact .inl rfl
  | load path =>
    simp only [perform, loadFile]
    split
    · exact .inl rfl
    · next text _ =>
      refine .inr ⟨.loadGrammar text, ?_⟩
      split
      · next h => rw [Editor.after, h]
      · next h => rw [Editor.after, h]
  | importTable path place =>
    simp only [perform, importFile]
    split
    · exact .inl rfl
    · next pairs _ =>
      refine .inr ⟨.importPairs pairs place c.settings.childFlavor c.offers, ?_⟩
      split
      · next h => rw [Editor.after, h]
      · next h => rw [Editor.after, h]
  | labels path =>
    simp only [perform, loadLabels]
    split
    · exact .inl rfl
    · next text _ => exact .inr ⟨.setCorpus (.ofLines text), rfl⟩
  | evaluate format =>
    simp only [perform, evaluateHere]
    refine .inr ⟨.evaluate .local c.settings.retryPolicy (), ?_⟩
    split
    · next h => rw [Editor.after, h]
    · next h => rw [Editor.after, h]
  | reset => exact .inr ⟨.reset, rfl⟩

/-- What saving keeps of a store holds after any command. -/
theorem holds_run {P : σ → Prop} (hP : ∀ {s}, P s → ∀ saved, P (save saved s)) (command : Command)
    {store : σ} (hs : P store) : P (command.run c store).2 := by
  have he : P (command.perform c (.opened store)).2.store := by
    rcases command.perform_cases c (.opened store) with h | ⟨call, h⟩
    · rw [h]
      exact hs
    · rw [h]
      exact Editor.store_run hP hs [call]
  unfold run
  split
  · next h =>
    rw [h] at he
    exact hP he _
  · next h => rwa [h] at he

end Command

theorem Saved.Same.trans {a b c : Saved} (h : a.Same b) (h' : b.Same c) : a.Same c where
  topLevel := h.topLevel.trans h'.topLevel
  find? id := (h.find? id).trans (h'.find? id)
  forest := h.forest.trans h'.forest
  corpus := h.corpus.trans h'.corpus

namespace CommandLine

def Exit.ofPrinted : Command.Printed → Exit
  | .ok output => .success output
  | .error error => .failure error.message

variable {settings : Settings} {command : Command} {disk : Disk}

def runIn (settings : Settings) (offers : List NodeId) (command : Command) (disk : Disk) :
    Command.Printed × DirectoryStore :=
  command.run ⟨settings, disk.readText, offers⟩ ⟨disk, settings.directory⟩

theorem runWith_eq (settings : Settings) (offers : List NodeId) (command : Command) (disk : Disk) :
    runWith settings offers command disk =
      (.ofPrinted (runIn settings offers command disk).1,
        (runIn settings offers command disk).2.disk) := by
  simp only [runWith, runIn]
  split
  · next h => rw [h]; rfl
  · next h => rw [h]; rfl

theorem store_runWith (settings : Settings) (offers : List NodeId) (command : Command)
    (disk : Disk) : ⟨(runWith settings offers command disk).2, settings.directory⟩ =
      (runIn settings offers command disk).2 := by
  have hd : (runIn settings offers command disk).2.directory = settings.directory :=
    Command.holds_run _ (P := fun s : DirectoryStore => s.directory = settings.directory)
      (fun hs saved => (DirectoryStore.directory_save saved _).trans hs) command rfl
  rw [runWith_eq, ← hd]

theorem reliable_runWith (hd : DirectoryStore.Reliable ⟨disk, settings.directory⟩)
    (offers : List NodeId) (command : Command) :
    DirectoryStore.Reliable ⟨(runWith settings offers command disk).2, settings.directory⟩ := by
  rw [store_runWith]
  exact Command.holds_run _ DirectoryStore.Reliable.save command hd

theorem looksAt_runWith (hc : command.Looks)
    (hd : DirectoryStore.Reliable ⟨disk, settings.directory⟩) (offers : List NodeId) :
    let exit := runWith settings offers command disk
    ∃ result, exit.1 = .ofPrinted result ∧
      Command.LooksAt (DirectoryStore.mk disk settings.directory) result
        ⟨exit.2, settings.directory⟩ := by
  refine ⟨(runIn settings offers command disk).1, by rw [runWith_eq], ?_⟩
  rw [store_runWith]
  exact Command.looksAt_of_keeps _ hc hd.keeps

theorem run_eq {arguments : List String} {environment : List (String × String)}
    {call : Invocation} (hp : parse arguments = .ok call)
    (hs : settingsOf? call environment disk = some settings) (offers : List NodeId) :
    run arguments environment offers disk = runWith settings offers call.command disk := by
  -- The settings would be computed wherever they are compared, so any others take their place.
  obtain ⟨found, hf⟩ : ∃ found : Invocation → Option Settings,
      ∀ call, settingsOf? call environment disk = found call := ⟨_, fun _ => rfl⟩
  simp only [hf] at hs
  simp only [run, hf]
  rw [hp]
  simp only [hs]

/-- The program, called with a command that only looks, keeps what is loaded from its directory. -/
theorem looksAt_program {arguments : List String} {environment : List (String × String)}
    {call : Invocation} (hp : parse arguments = .ok call)
    (hs : settingsOf? call environment disk = some settings) (hc : call.command.Looks)
    (hd : DirectoryStore.Reliable ⟨disk, settings.directory⟩) (offers : List NodeId) :
    let exit := run arguments environment offers disk
    ∃ result, exit.1 = .ofPrinted result ∧
      Command.LooksAt (DirectoryStore.mk disk settings.directory) result
        ⟨exit.2, settings.directory⟩ := by
  rw [run_eq hp hs]
  exact looksAt_runWith hc hd offers

def runAll (settings : Settings) (commands : List (Command × List NodeId)) (disk : Disk) : Disk :=
  commands.foldl (fun disk command => (runWith settings command.2 command.1 disk).2) disk

theorem reliable_runAll (hd : DirectoryStore.Reliable ⟨disk, settings.directory⟩)
    (commands : List (Command × List NodeId)) :
    DirectoryStore.Reliable ⟨runAll settings commands disk, settings.directory⟩ := by
  induction commands generalizing disk with
  | nil => exact hd
  | cons command commands ih => exact ih (reliable_runWith hd _ _)

/-- However often a session is looked at, it is loaded as it was. -/
theorem same_runAll (hd : DirectoryStore.Reliable ⟨disk, settings.directory⟩)
    {commands : List (Command × List NodeId)} (hc : ∀ command ∈ commands, command.1.Looks) :
    (load (DirectoryStore.mk (runAll settings commands disk) settings.directory)).Same
      (load (DirectoryStore.mk disk settings.directory)) := by
  induction commands generalizing disk with
  | nil => exact ⟨rfl, fun _ => rfl, rfl, rfl⟩
  | cons command commands ih =>
    rw [List.forall_mem_cons] at hc
    obtain ⟨_, -, hl⟩ := looksAt_runWith hc.1 hd command.2
    exact (ih (reliable_runWith hd _ _) hc.2).trans hl.same

end CommandLine

end LabelGrammar
