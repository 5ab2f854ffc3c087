import LabelGrammar.Proofs.Session.Restore
import LabelGrammar.Proofs.Store.Disk
import LabelGrammar.Store.Directory

/-! # A store in a directory

A directory that is there keeps what was written last under each key. One that is missing is made
when something is written first, and nothing was found in it before.
-/

namespace LabelGrammar

namespace DirectoryStore

open Disk

variable {s : DirectoryStore} {home : Route} {keys : List String} {key other value : String}
  {d : Disk}

theorem directory_set (s : DirectoryStore) (key value : String) :
    (Store.set s key value).2.directory = s.directory := by
  change (s.set key value).2.directory = s.directory
  unfold set
  split
  · rfl
  split <;> rfl

theorem directory_remove (s : DirectoryStore) (key : String) :
    (Store.remove s key).2.directory = s.directory := by
  change (s.remove key).2.directory = s.directory
  unfold remove
  split <;> rfl

def fileRoute (home : Route) (key : String) : Route := home ++ [key ++ ".json"]

theorem fileName_of_slash (h : '/' ∉ key.toList) : FileName (key ++ ".json") := by
  have hne (name : String) (hn : name.toList.length < 5) : key ++ ".json" ≠ name := by
    rintro rfl
    rw [String.toList_append, List.length_append] at hn
    have : ".json".toList.length = 5 := rfl
    omega
  refine ⟨?_, hne _ (by decide), hne _ (by decide), hne _ (by decide)⟩
  rw [String.toList_append, List.mem_append]
  exact not_or.2 ⟨h, by decide⟩

theorem fileRoute_inj (h : fileRoute home key = fileRoute home other) : key = other := by
  have hn := List.singleton_inj.1 (List.append_cancel_left h)
  exact (String.append_left_inj _).1 hn

def Locates (s : DirectoryStore) (key : String) : Prop :=
  ∃ p, Path.parse (s.path key) = .ok p ∧ p.absolute = s.directory.startsWith "/" ∧
    p.names = Path.namesIn s.directory ++ [key ++ ".json"] ∧ p.trailing = false

/-- The directory of a store is there, and has a place for a file for each of some keys. -/
structure Serves (s : DirectoryStore) (home : Route) (keys : List String) : Prop where
  named : s.directory = "" ∨ ∃ p, Path.parse s.directory = .ok p
  leads : s.disk.Leads (s.disk.base s.directory) (Path.namesIn s.directory) home
  locates {key : String} : key ∈ keys → s.Locates key
  enters {key : String} : key ∈ keys → enter home (key ++ ".json") = .ok (fileRoute home key)
  free {key : String} : key ∈ keys → s.disk.entryAt (fileRoute home key) ≠ some .directory

namespace Serves

theorem locate_eq (h : s.Serves home keys) (hk : key ∈ keys) : s.disk.locate (s.path key) =
    .ok (fileRoute home key, s.disk.entryAt (fileRoute home key)) := by
  obtain ⟨p, hp, ha, hn, ht⟩ := h.locates hk
  have hf := h.leads.follow_append (List.cons_ne_nil (key ++ ".json") [])
  rw [Disk.follow, h.enters hk] at hf
  simp only [locate, hp, start_eq ha, hn, hf, ht, bind, Except.bind]
  split <;> rfl

theorem makeDirectory_eq (h : s.Serves home keys) :
    s.disk.makeDirectory s.directory = (.ok (), s.disk) :=
  makeDirectory_of_leads h.named h.leads

theorem of_change (h : s.Serves home keys) (hk : key ∈ keys) (hw : d.working = s.disk.working)
    (hf : d.entryAt (fileRoute home key) ≠ some .directory)
    (ho : ∀ route ≠ fileRoute home key, d.entryAt route = s.disk.entryAt route) :
    Serves { s with disk := d } home keys where
  named := h.named
  leads := by
    have hb : d.base s.directory = s.disk.base s.directory := by rw [base, hw, base]
    simpa only [hb] using h.leads.mono (within_of_ne hw (h.free hk) ho)
  locates := h.locates
  enters := h.enters
  free {other} hother := by
    by_cases he : fileRoute home other = fileRoute home key
    · rwa [he]
    · rw [ho _ he]
      exact h.free hother

theorem get_congr {s' : DirectoryStore} {home' : Route} (h : s.Serves home keys)
    (h' : s'.Serves home' keys) (hk : key ∈ keys)
    (he : s'.disk.entryAt (fileRoute home' key) = s.disk.entryAt (fileRoute home key)) :
    s'.get key = s.get key := by
  have hl := h'.locate_eq hk
  rw [he] at hl
  simp only [get, readText, read_congr (h.locate_eq hk) hl]

theorem get_eq_ok (h : s.Serves home keys) (hk : key ∈ keys) (text : Option String)
    (he : s.disk.entryAt (fileRoute home key) = text.map fun t => .file (.text t)) :
    s.get key = .ok text := by
  rw [get, readText, Disk.read, h.locate_eq hk, he]
  cases text <;> rfl

theorem set_eq (h : s.Serves home keys) (hk : key ∈ keys) (value : String) :
    s.set key value =
      (.ok (), { s with disk := s.disk.put (fileRoute home key) (.file (.text value)) }) := by
  simp only [set, h.makeDirectory_eq, write_eq (h.locate_eq hk) (h.free hk)]

theorem remove_of_none (h : s.Serves home keys) (hk : key ∈ keys)
    (he : s.disk.entryAt (fileRoute home key) = none) : s.remove key = (.ok (), s) := by
  have hr := remove_eq (h.locate_eq hk) (h.free hk)
  rw [if_pos he] at hr
  simp only [remove, hr]

theorem remove_cases (h : s.Serves home keys) (hk : key ∈ keys) :
    s.disk.entryAt (fileRoute home key) = none ∧ s.remove key = (.ok (), s) ∨
      s.remove key = (.ok (), { s with disk := s.disk.drop (fileRoute home key) }) := by
  by_cases he : s.disk.entryAt (fileRoute home key) = none
  · exact .inl ⟨he, h.remove_of_none hk he⟩
  · have hr := remove_eq (h.locate_eq hk) (h.free hk)
    rw [if_neg he] at hr
    exact .inr (by simp only [remove, hr])

theorem entryAt_of_get_none (h : s.Serves home keys) (hk : key ∈ keys)
    (hg : s.get key = .ok none) : s.disk.entryAt (fileRoute home key) = none := by
  rw [get, readText, Disk.read, h.locate_eq hk] at hg
  rcases he : s.disk.entryAt (fileRoute home key) with _ | ⟨text | bytes⟩ | _
  · rfl
  · rw [he] at hg
    cases hg
  · rw [he] at hg
    cases hg
  · exact (h.free hk he).elim

theorem set (h : s.Serves home keys) (hk : key ∈ keys) (value : String) :
    (Store.set s key value).2.Serves home keys := by
  change (s.set key value).2.Serves home keys
  rw [h.set_eq hk]
  refine h.of_change hk rfl ?_ fun _ => entryAt_put_of_ne
  rw [entryAt_put_self (h.free hk)]
  exact nofun

theorem remove (h : s.Serves home keys) (hk : key ∈ keys) :
    (Store.remove s key).2.Serves home keys := by
  change (s.remove key).2.Serves home keys
  rcases h.remove_cases hk with ⟨-, hr⟩ | hr
  · rwa [hr]
  · rw [hr]
    refine h.of_change hk rfl ?_ fun _ => entryAt_drop_of_ne
    rw [entryAt_drop_self (h.free hk)]
    exact nofun

theorem get_set (h : s.Serves home keys) (hk : key ∈ keys) (value : String) :
    Store.get (Store.set s key value).2 key = .ok (some value) := by
  refine (h.set hk value).get_eq_ok hk (some value) ?_
  change (s.set key value).2.disk.entryAt _ = _
  rw [h.set_eq hk]
  exact entryAt_put_self (h.free hk)

theorem get_set_of_ne (h : s.Serves home keys) (hk : key ∈ keys) (ho : other ∈ keys)
    (hne : other ≠ key) (value : String) :
    Store.get (Store.set s key value).2 other = Store.get s other := by
  refine h.get_congr (h.set hk value) ho ?_
  change (s.set key value).2.disk.entryAt _ = _
  rw [h.set_eq hk]
  exact entryAt_put_of_ne fun he => hne (fileRoute_inj he)

theorem get_remove (h : s.Serves home keys) (hk : key ∈ keys) :
    Store.get (Store.remove s key).2 key = .ok none := by
  refine (h.remove hk).get_eq_ok hk none ?_
  change (s.remove key).2.disk.entryAt _ = _
  rcases h.remove_cases hk with ⟨he, hr⟩ | hr
  · rw [hr]
    exact he
  · rw [hr]
    exact entryAt_drop_self (h.free hk)

end Serves

/-- The store once its directory is made. -/
def made (s : DirectoryStore) : DirectoryStore :=
  { s with disk := (s.disk.makeDirectory s.directory).2 }

theorem set_eq_ok (h : (s.set key value).1 = .ok ()) :
    s.disk.makeDirectory s.directory = (.ok (), s.made.disk) ∧
      ∃ d, s.made.disk.write (s.path key) (.text value) = .ok d := by
  rw [DirectoryStore.set] at h
  split at h
  · cases h
  · next hm =>
    have hd : s.made.disk = (s.disk.makeDirectory s.directory).2 := rfl
    rw [hm] at hd
    rw [hd]
    split at h
    · next d hw => exact ⟨hm, d, hw⟩
    · cases h

theorem locates_of_set (hk : '/' ∉ key.toList) (h : (s.set key value).1 = .ok ()) :
    s.Locates key ∧ ∃ home,
      s.made.disk.Leads (s.made.disk.base s.directory) (Path.namesIn s.directory) home ∧
      enter home (key ++ ".json") = .ok (fileRoute home key) ∧
      s.made.disk.entryAt (fileRoute home key) ≠ some .directory := by
  obtain ⟨-, d, hd⟩ := set_eq_ok h
  obtain ⟨p, route, hp, hr, hf⟩ := write_eq_ok hd
  obtain ⟨ha, hn, ht⟩ := Path.parse_join (fileName_of_slash hk) hp
  rw [start_eq ha, hn] at hr
  obtain ⟨home, hl, he⟩ := exists_leads hr
  obtain rfl := enter_eq_ok (fileName_of_slash hk).ne_points he
  exact ⟨⟨p, hp, ha, hn, ht⟩, home, hl, he, hf⟩

/-- A store that can be written has made its directory, which serves it from then on. -/
theorem exists_serves_made (hs : ∀ key ∈ keys, '/' ∉ key.toList)
    (hw : ∀ key ∈ keys, ∃ value, (s.set key value).1 = .ok ()) (hk : key ∈ keys) :
    ∃ home, s.made.Serves home keys := by
  obtain ⟨value, hv⟩ := hw key hk
  obtain ⟨-, home, hl, -⟩ := locates_of_set (hs key hk) hv
  have hf : ∀ key ∈ keys, s.Locates key ∧ enter home (key ++ ".json") = .ok (fileRoute home key) ∧
      s.made.disk.entryAt (fileRoute home key) ≠ some .directory := by
    intro key hk
    obtain ⟨value, hv⟩ := hw key hk
    obtain ⟨hp, home', hl', he⟩ := locates_of_set (hs key hk) hv
    obtain rfl := hl'.unique hl
    exact ⟨hp, he⟩
  exact ⟨home, parse_of_makeDirectory (set_eq_ok hv).1, hl, fun hk => (hf _ hk).1,
    fun hk => (hf _ hk).2.1, fun hk => (hf _ hk).2.2⟩

theorem set_made (h : s.disk.makeDirectory s.directory = (.ok (), s.made.disk))
    (hm : s.made.disk.makeDirectory s.directory = (.ok (), s.made.disk)) (key value : String) :
    s.made.set key value = s.set key value := by
  have hp : s.made.path key = s.path key := rfl
  have hd : s.made.directory = s.directory := rfl
  rw [DirectoryStore.set, DirectoryStore.set, hd, hm, h, hp]

/-- If the directory was not there, nothing was found under any key. -/
theorem made_cases (h : s.disk.makeDirectory s.directory = (.ok (), s.made.disk)) :
    s.made = s ∨ ∀ key, s.Locates key → s.get key = .ok none ∧ s.remove key = (.ok (), s) := by
  rcases makeDirectory_cases h with hd | hf
  · exact .inl (by rw [made, show (s.disk.makeDirectory s.directory).2 = s.disk from hd])
  · refine .inr ?_
    rintro key ⟨p, hp, ha, hn, -⟩
    have hl : s.disk.locate (s.path key) = .error .notFound := by
      simp only [locate, hp, start_eq ha, hn, hf, bind, Except.bind]
    constructor
    · simp only [get, readText, Disk.read, hl, bind, Except.bind]
    · simp only [remove, Disk.remove, hl, bind, Except.bind]

open Saved

def sessionKeys : List String := [stateKey, labelsKey]

theorem slash_sessionKeys : ∀ key ∈ sessionKeys, '/' ∉ key.toList := by decide

theorem stateKey_mem : stateKey ∈ sessionKeys := List.mem_cons_self

theorem labelsKey_mem : labelsKey ∈ sessionKeys := List.mem_cons_of_mem _ List.mem_cons_self

theorem directory_save (saved : Saved) (s : DirectoryStore) :
    (save saved s).directory = s.directory := by
  rw [save, saveCorpus, directory_set]
  exact saveWorkspace_cases (P := fun s' : DirectoryStore => s'.directory = s.directory) rfl
    (directory_remove s stateKey) (directory_set s stateKey) saved.workspace

namespace Serves

theorem saveWorkspace (h : s.Serves home sessionKeys) (w : Workspace) :
    Serves (saveWorkspace w s) home sessionKeys :=
  saveWorkspace_cases (P := fun s => Serves s home sessionKeys) h (h.remove stateKey_mem)
    (h.set stateKey_mem) w

theorem keeps (h : s.Serves home sessionKeys) : Keeps s where
  labels saved := (h.saveWorkspace saved.workspace).get_set labelsKey_mem _
  state {w ds} hd corpus := by
    have hne : stateKey ≠ labelsKey := by decide
    rw [save, saveCorpus, (h.saveWorkspace w).get_set_of_ne labelsKey_mem stateKey_mem hne]
    simp only [Saved.saveWorkspace, hd]
    cases stateText ds with
    | none => exact h.get_remove stateKey_mem
    | some text => exact h.get_set stateKey_mem text

end Serves

/-- A store that a session can be written to, and making its directory brings no text to light. -/
structure Reliable (s : DirectoryStore) : Prop where
  writes {key : String} : key ∈ sessionKeys → ∃ value, (s.set key value).1 = .ok ()
  hidden {key : String} : key ∈ sessionKeys → s.made.get key = s.get key

theorem Serves.reliable (h : s.Serves home sessionKeys) : s.Reliable where
  writes hk := ⟨"", by rw [h.set_eq hk]⟩
  hidden _ := by rw [made, h.makeDirectory_eq]

namespace Reliable

theorem makeDirectory_eq (h : s.Reliable) :
    s.disk.makeDirectory s.directory = (.ok (), s.made.disk) := by
  obtain ⟨value, hv⟩ := h.writes stateKey_mem
  exact (set_eq_ok hv).1

theorem exists_serves (h : s.Reliable) : ∃ home, s.made.Serves home sessionKeys :=
  exists_serves_made slash_sessionKeys (fun _ hk => h.writes hk) stateKey_mem

/-- The directory is made when something is written first. What is removed before was not there. -/
theorem save_made (h : s.Reliable) (saved : Saved) : save saved s.made = save saved s := by
  obtain ⟨home, hm⟩ := h.exists_serves
  have hset (key value : String) : Store.set s.made key value = Store.set s key value :=
    set_made h.makeDirectory_eq hm.makeDirectory_eq key value
  rcases made_cases h.makeDirectory_eq with he | hn
  · rw [he]
  obtain ⟨hget, hremove⟩ := hn stateKey (hm.locates stateKey_mem)
  have hnone := hm.entryAt_of_get_none stateKey_mem ((h.hidden stateKey_mem).trans hget)
  have hmade : Store.remove s.made stateKey = (.ok (), s.made) :=
    hm.remove_of_none stateKey_mem hnone
  have hold : Store.remove s stateKey = (.ok (), s) := hremove
  rw [save, save, saveCorpus, saveCorpus]
  unfold Saved.saveWorkspace
  split
  · rw [hset]
  split
  · rw [hmade, hold, hset]
  · rw [hset]

theorem keeps (h : s.Reliable) : Keeps s := by
  obtain ⟨home, hm⟩ := h.exists_serves
  exact ⟨fun saved => h.save_made saved ▸ hm.keeps.labels saved,
    fun hd corpus => h.save_made _ ▸ hm.keeps.state hd corpus⟩

theorem save (h : s.Reliable) (saved : Saved) : (Saved.save saved s).Reliable := by
  obtain ⟨home, hm⟩ := h.exists_serves
  rw [← h.save_made]
  exact ((hm.saveWorkspace saved.workspace).set labelsKey_mem _).reliable

theorem durable : Durable Reliable := ⟨keeps, save⟩

/-- A directory that is missing in a tree of directories hides nothing, unless its path goes up. -/
theorem of_closed (hw : ∀ key ∈ sessionKeys, ∃ value, (s.set key value).1 = .ok ())
    (hd : s.disk.Closed) (hp : ".." ∉ Path.namesIn s.directory) : s.Reliable where
  writes hk := hw _ hk
  hidden {key} hk := by
    obtain ⟨home, hm⟩ := exists_serves_made slash_sessionKeys hw hk
    obtain ⟨value, hv⟩ := hw key hk
    obtain ⟨hworking, hgrown⟩ := makeDirectory_grows s.disk s.directory (fileRoute home key)
    have hbase : s.made.disk.base s.made.directory = s.disk.base s.directory :=
      congrArg (ite _ []) hworking
    by_cases hf : s.disk.entryAt (fileRoute home key) = none
    · rcases made_cases (set_eq_ok hv).1 with he | hn
      · rw [he]
      · rw [(hn key (hm.locates hk)).1]
        exact hm.get_eq_ok hk none ((hgrown.resolve_right (hm.free hk)).trans hf)
    · have hl := hm.leads.of_closed hd hp hf
      rw [hbase] at hl
      have hmake : s.disk.makeDirectory s.directory = (.ok (), s.disk) :=
        makeDirectory_of_leads hm.named hl
      rw [made, hmake]

example : Reliable ⟨.empty, "project/.pointlabel"⟩ :=
  .of_closed (fun key hk => ⟨"", by revert key; decide +kernel⟩) closed_empty (by decide)

end Reliable

/-- The directory is made below `a`, where a text was hidden as long as there was no `a`. -/
example : ¬ Reliable ⟨⟨["work"], [(["work", "b"], .directory),
    (["work", "b", "state.json"], .file (.text "[]"))]⟩, "a/../b"⟩ := by
  intro h
  have := h.hidden stateKey_mem
  revert this
  decide +kernel

end DirectoryStore

end LabelGrammar
