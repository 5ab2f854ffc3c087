import Mathlib.Data.String.Basic
import LabelGrammar.Disk
import LabelGrammar.Proofs.Document.Storable

/-! # Paths and disks

A name inside a directory is found where the names in the path of the directory lead to. A disk with
more directories leads there as well, whatever is done to its files.
-/

namespace LabelGrammar

namespace Disk

structure FileName (name : String) : Prop where
  slash : '/' ∉ name.toList
  ne_empty : name ≠ ""
  ne_point : name ≠ "."
  ne_points : name ≠ ".."

namespace Path

variable {cs ds : List Char} {directory name path : String} {p : Path}

theorem split_ne_nil (cs : List Char) : split cs ≠ [] := by
  fun_cases split cs
  all_goals simp_all

theorem split_cons_of_ne {c : Char} (hc : c ≠ '/') {l : List Char} {ls : List (List Char)}
    (h : split cs = l :: ls) : split (c :: cs) = (c :: l) :: ls := by
  rw [split]
  · rw [h]
  · simpa using hc

theorem split_append_slash (cs ds : List Char) :
    split (cs ++ '/' :: ds) = split cs ++ split ds := by
  induction cs with
  | nil => rfl
  | cons c cs ih =>
    obtain ⟨l, ls, hs⟩ := List.exists_cons_of_ne_nil (split_ne_nil cs)
    by_cases hc : c = '/'
    · rw [hc, List.cons_append, split, split, ih]
      rfl
    · rw [hs] at ih
      rw [List.cons_append, split_cons_of_ne hc ih, split_cons_of_ne hc hs]
      rfl

theorem split_of_not_mem (h : '/' ∉ cs) : split cs = [cs] := by
  induction cs with
  | nil => rfl
  | cons c cs ih =>
    rw [List.mem_cons, not_or] at h
    exact split_cons_of_ne (Ne.symm h.1) (ih h.2)

def namesOf (parts : List (List Char)) : List String :=
  (parts.map String.ofList).filter fun name => name != "" && name != "."

def namesIn (path : String) : List String := namesOf (split path.toList)

theorem parse_eq_ok (h : parse path = .ok p) :
    p.absolute = path.startsWith "/" ∧ p.names = namesIn path ∧
      p.trailing = ((split path.toList).map String.ofList).getLast?.any fun name =>
        name == "" || name == "." || name == ".." := by
  unfold parse at h
  split at h
  · cases h
  · split at h
    · cases h
    · split at h
      · cases h
      · cases h
        exact ⟨rfl, rfl, rfl⟩

theorem namesOf_append (parts more : List (List Char)) :
    namesOf (parts ++ more) = namesOf parts ++ namesOf more := by
  rw [namesOf, List.map_append, List.filter_append, namesOf, namesOf]

theorem namesOf_singleton (hn : FileName name) : namesOf [name.toList] = [name] := by
  simp [namesOf, hn.ne_empty, hn.ne_point]

theorem startsWith_append_of_ne {path : String} (h : path ≠ "") (more : String) :
    (path ++ more).startsWith "/" = path.startsWith "/" := by
  rw [Bool.eq_iff_iff, String.startsWith_string_iff, String.startsWith_string_iff,
    String.toList_append]
  obtain ⟨c, cs, hc⟩ := List.exists_cons_of_ne_nil (mt String.toList_eq_nil_iff.1 h)
  simp [hc, List.prefix_cons_iff]

theorem split_append_slash_name (hn : FileName name) (cs : List Char) :
    split (cs ++ ("/".toList ++ name.toList)) = split cs ++ [name.toList] := by
  rw [← split_of_not_mem hn.slash]
  exact split_append_slash cs name.toList

theorem namesOf_append_slash (cs : List Char) :
    namesOf (split (cs ++ "/".toList)) = namesOf (split cs) := by
  have hs : split (cs ++ "/".toList) = split cs ++ [[]] := split_append_slash cs []
  rw [hs, namesOf_append]
  exact List.append_nil _

/-- A name inside a directory is the last part of its path, after those of the directory. -/
theorem exists_split_join (hn : FileName name) (directory : String) :
    ∃ parts, split (join directory name).toList = parts ++ [name.toList] ∧
      namesOf parts = namesIn directory ∧
      (join directory name).startsWith "/" = directory.startsWith "/" := by
  have hs : name.startsWith "/" = false := by
    rw [String.startsWith_string_eq_false_iff]
    rintro ⟨cs, hcs⟩
    exact hn.slash (hcs ▸ List.mem_cons_self)
  unfold join
  by_cases hd : directory = ""
  · rw [if_pos (by simp [hd]), hd, hs]
    exact ⟨[], split_of_not_mem hn.slash, by decide, by decide⟩
  rw [if_neg (by simp [hs, hd])]
  split
  · next he =>
    rw [← String.endsWith_toSlice, String.Slice.endsWith_string_iff, String.copy_toSlice] at he
    obtain ⟨cs, hcs⟩ := he
    refine ⟨split cs, ?_, ?_, startsWith_append_of_ne hd _⟩
    · rw [String.toList_append, ← hcs, List.append_assoc, split_append_slash_name hn]
    · rw [namesIn, ← hcs, namesOf_append_slash]
  · refine ⟨split directory.toList, ?_, rfl, ?_⟩
    · rw [String.toList_append, String.toList_append, List.append_assoc,
        split_append_slash_name hn]
    · rw [String.append_assoc, startsWith_append_of_ne hd]

theorem parse_join (hn : FileName name) (h : parse (join directory name) = .ok p) :
    p.absolute = directory.startsWith "/" ∧ p.names = namesIn directory ++ [name] ∧
      p.trailing = false := by
  obtain ⟨parts, hp, hd, hs⟩ := exists_split_join hn directory
  obtain ⟨ha, hns, ht⟩ := parse_eq_ok h
  refine ⟨ha.trans hs, ?_, ?_⟩
  · rw [hns, namesIn, hp, namesOf_append, hd, namesOf_singleton hn]
  · rw [ht, hp]
    simp [hn.ne_empty, hn.ne_point, hn.ne_points]

end Path

variable {d d' : Disk} {route other home : Route} {name path directory : String}
  {names : List String} {e : Entry}

theorem find?_filter_of_ne {entries : List (Route × Entry)} (h : other ≠ route) :
    (entries.filter (·.1 != route)).find? (·.1 == other) = entries.find? (·.1 == other) := by
  rw [List.find?_filter]
  congr 1
  funext entry
  by_cases he : entry.1 = other
  · simp [he, h]
  · simp [he]

theorem entryAt_put_of_ne (h : other ≠ route) :
    (d.put route e).entryAt other = d.entryAt other := by
  have hr : (route == other) = false := by simpa using Ne.symm h
  simp only [entryAt, put, List.find?_cons, hr, find?_filter_of_ne h]

theorem entryAt_drop_of_ne (h : other ≠ route) :
    (d.drop route).entryAt other = d.entryAt other := by
  simp only [entryAt, drop, find?_filter_of_ne h]

theorem not_isPrefixOf_of_ne (h : d.entryAt route ≠ some .directory) :
    route.isPrefixOf d.working = false := by
  rw [entryAt] at h
  split at h
  · exact (h rfl).elim
  · next hp => exact Bool.eq_false_of_not_eq_true hp

theorem entryAt_put_self (h : d.entryAt route ≠ some .directory) :
    (d.put route e).entryAt route = some e := by
  simp [entryAt, put, not_isPrefixOf_of_ne h]

theorem entryAt_drop_self (h : d.entryAt route ≠ some .directory) :
    (d.drop route).entryAt route = none := by
  simp [entryAt, drop, not_isPrefixOf_of_ne h]

theorem enter_eq_ok (hn : name ≠ "..") (h : enter route name = .ok other) :
    other = route ++ [name] := by
  rw [enter, if_neg (by simpa using hn)] at h
  split at h
  · cases h
  · exact (Except.ok.inj h).symm

/-- What is a directory on one disk is so on another. -/
structure Within (d d' : Disk) : Prop where
  working : d'.working = d.working
  directory {route : Route} : d.entryAt route = some .directory → d'.entryAt route = some .directory

theorem within_of_ne (hw : d'.working = d.working) (h : d.entryAt route ≠ some .directory)
    (ho : ∀ other ≠ route, d'.entryAt other = d.entryAt other) : d.Within d' where
  working := hw
  directory {other} hr := by
    have hne : other ≠ route := by
      rintro rfl
      exact h hr
    rw [ho other hne, hr]

/-- Names lead from a route through directories to another. -/
inductive Leads (d : Disk) : Route → List String → Route → Prop where
  | nil {route : Route} : Leads d route [] route
  | cons {route inner home : Route} {name : String} {names : List String} :
      enter route name = .ok inner → d.entryAt inner = some .directory →
      Leads d inner names home → Leads d route (name :: names) home

theorem follow_cons (h : names ≠ []) : d.follow route (name :: names) =
    (enter route name >>= fun inner => match d.entryAt inner with
      | some .directory => d.follow inner names
      | some (.file _) => .error .notADirectory
      | none => .error .notFound) := by
  cases names with
  | nil => exact (h rfl).elim
  | cons => rfl

namespace Leads

theorem mono (h : d.Leads route names home) (hd : d.Within d') :
    d'.Leads route names home := by
  induction h with
  | nil => exact .nil
  | cons he hi _ ih => exact .cons he (hd.directory hi) ih

theorem of_append {more : List String} (h : d.Leads route (names ++ more) home) :
    ∃ inner, d.Leads route names inner := by
  induction names generalizing route with
  | nil => exact ⟨route, .nil⟩
  | cons name names ih =>
    cases h with
    | cons he hi hl =>
      obtain ⟨inner, hin⟩ := ih hl
      exact ⟨inner, .cons he hi hin⟩

theorem entryAt_eq (h : d.Leads route names home) (hr : d.entryAt route = some .directory) :
    d.entryAt home = some .directory := by
  induction h with
  | nil => exact hr
  | cons _ hi _ ih => exact ih hi

theorem unique {home' : Route} (h : d.Leads route names home)
    (h' : d.Leads route names home') : home = home' := by
  induction h with
  | nil =>
    cases h'
    rfl
  | cons he _ _ ih =>
    cases h' with
    | cons he' _ hl' =>
      obtain rfl := Except.ok.inj (he.symm.trans he')
      exact ih hl'

theorem follow_append (h : d.Leads route names home) {more : List String} (hm : more ≠ []) :
    d.follow route (names ++ more) = d.follow home more := by
  induction h with
  | nil => rfl
  | cons he hi _ ih =>
    rw [List.cons_append, follow_cons (by simp [hm]), he, ← ih]
    simp only [bind, Except.bind, hi]

theorem follow_eq (h : d.Leads route names home) : d.follow route names = .ok home := by
  induction h with
  | nil => rfl
  | @cons route inner home name names he hi hl ih =>
    by_cases hn : names = []
    · subst hn
      cases hl
      exact he
    · rw [follow_cons hn, he, ← ih]
      simp only [bind, Except.bind, hi]

theorem makeDirectories_eq (h : d.Leads route names home) :
    d.makeDirectories route names = (.ok (), d) := by
  induction h with
  | nil => rfl
  | cons he hi _ ih => simp only [makeDirectories, he, hi, ih]

theorem eq_append (h : d.Leads route names home) (hn : ".." ∉ names) :
    home = route ++ names := by
  induction h with
  | nil => exact (List.append_nil _).symm
  | @cons route inner home name names he _ _ ih =>
    rw [List.mem_cons, not_or] at hn
    obtain rfl := enter_eq_ok (Ne.symm hn.1) he
    rw [ih hn.2, List.append_assoc, List.singleton_append]

end Leads

theorem exists_leads (h : d.follow route (names ++ [name]) = .ok other) :
    ∃ home, d.Leads route names home ∧ enter home name = .ok other := by
  induction names generalizing route with
  | nil => exact ⟨route, .nil, h⟩
  | cons n names ih =>
    rw [List.cons_append, follow_cons (by simp)] at h
    cases he : enter route n with
    | error error =>
      rw [he] at h
      cases h
    | ok inner =>
      rw [he] at h
      simp only [bind, Except.bind] at h
      split at h
      · next hi =>
        obtain ⟨home, hl, hn⟩ := ih h
        exact ⟨home, .cons he hi hl, hn⟩
      · cases h
      · cases h

/-- Directories that could be made were all there, or nothing was found behind them. -/
theorem makeDirectories_cases (h : d.makeDirectories route names = (.ok (), d')) :
    (∃ home, d.Leads route names home) ∨
      ∀ more ≠ [], d.follow route (names ++ more) = .error .notFound := by
  induction names generalizing route with
  | nil => exact .inl ⟨route, .nil⟩
  | cons name names ih =>
    rw [makeDirectories] at h
    cases he : enter route name with
    | error error =>
      rw [he] at h
      cases h
    | ok inner =>
      simp only [he] at h
      have hf {more : List String} (hm : more ≠ []) :
          d.follow route (name :: (names ++ more)) = _ := follow_cons (by simp [hm])
      split at h
      · next hi =>
        simp only [List.cons_append]
        rcases ih h with ⟨home, hl⟩ | hn
        · exact .inl ⟨home, .cons he hi hl⟩
        · refine .inr fun more hm => ?_
          rw [hf hm, he, ← hn more hm]
          simp only [bind, Except.bind, hi]
      · cases h
      · next hi =>
        refine .inr fun more hm => ?_
        rw [List.cons_append, hf hm, he]
        simp only [bind, Except.bind, hi]

def base (d : Disk) (directory : String) : Route :=
  if directory.startsWith "/" then [] else d.working

theorem entryAt_base (d : Disk) (directory : String) :
    d.entryAt (d.base directory) = some .directory := by
  rw [base]
  split <;> simp [entryAt]

theorem start_eq {p : Path} (h : p.absolute = directory.startsWith "/") :
    d.start p = d.base directory := by
  rw [start, h, base]

theorem makeDirectory_cases (h : d.makeDirectory directory = (.ok (), d')) :
    d' = d ∨ ∀ name,
      d.follow (d.base directory) (Path.namesIn directory ++ [name]) = .error .notFound := by
  unfold makeDirectory at h
  split at h
  · cases h
    exact .inl rfl
  split at h
  · cases h
  next p hp =>
  obtain ⟨ha, hn, -⟩ := Path.parse_eq_ok hp
  rw [start_eq ha, hn] at h
  split at h
  · split at h
    · next made hm =>
      rcases makeDirectories_cases hm with ⟨r, hl⟩ | hf
      · rw [hl.makeDirectories_eq] at hm
        cases hm
        exact .inl (congrArg Prod.snd h).symm
      · obtain ⟨last, hlast⟩ := List.dropLast_prefix (Path.namesIn directory)
        refine .inr fun name => ?_
        rw [← hlast, List.append_assoc]
        exact hf _ (by simp)
    · next failed hm =>
      exact (hm _ h).elim
  · rcases makeDirectories_cases h with ⟨r, hl⟩ | hf
    · rw [hl.makeDirectories_eq] at h
      cases h
      exact .inl rfl
    · exact .inr fun name => hf [name] (List.cons_ne_nil _ _)

theorem parse_of_makeDirectory (h : d.makeDirectory directory = (.ok (), d')) :
    directory = "" ∨ ∃ p, Path.parse directory = .ok p := by
  unfold makeDirectory at h
  split at h
  · next hd => exact .inl (String.isEmpty_iff.1 hd)
  split at h
  · cases h
  · next p hp => exact .inr ⟨p, hp⟩

theorem makeDirectory_of_leads (hp : directory = "" ∨ ∃ p, Path.parse directory = .ok p)
    (h : d.Leads (d.base directory) (Path.namesIn directory) route) :
    d.makeDirectory directory = (.ok (), d) := by
  rcases hp with rfl | ⟨p, hp⟩
  · rfl
  obtain ⟨ha, hn, -⟩ := Path.parse_eq_ok hp
  unfold makeDirectory
  split
  · rfl
  simp only [hp, start_eq ha, hn]
  split
  · obtain ⟨last, hlast⟩ := List.dropLast_prefix (Path.namesIn directory)
    obtain ⟨r, hr⟩ := (hlast.symm ▸ h).of_append
    have hl : d.locate directory = .ok (route, some .directory) := by
      simp only [locate, hp, start_eq ha, hn, bind, Except.bind, h.follow_eq,
        h.entryAt_eq (entryAt_base d directory)]
      rfl
    simp only [hr.makeDirectories_eq, hl]
    rfl
  · exact h.makeDirectories_eq

theorem makeDirectories_grows (d : Disk) (route : Route) (names : List String) (other : Route) :
    let d' := (d.makeDirectories route names).2
    d'.working = d.working ∧
      (d'.entryAt other = d.entryAt other ∨ d'.entryAt other = some .directory) := by
  induction names generalizing d route with
  | nil => exact ⟨rfl, .inl rfl⟩
  | cons name names ih =>
    rw [makeDirectories]
    split
    · exact ⟨rfl, .inl rfl⟩
    split
    · exact ih d _
    · exact ⟨rfl, .inl rfl⟩
    next inner _ _ hi =>
    obtain ⟨hw, h⟩ := ih (d.put inner .directory) inner
    refine ⟨hw, ?_⟩
    rcases h with h | h
    · by_cases he : other = inner
      · rw [h, he]
        exact .inr (entryAt_put_self (by simp [hi]))
      · exact .inl (h.trans (entryAt_put_of_ne he))
    · exact .inr h

theorem makeDirectory_grows (d : Disk) (directory : String) (other : Route) :
    let d' := (d.makeDirectory directory).2
    d'.working = d.working ∧
      (d'.entryAt other = d.entryAt other ∨ d'.entryAt other = some .directory) := by
  have hs (p : Path) (names : List String) := makeDirectories_grows d (d.start p) names other
  unfold makeDirectory
  split
  · exact ⟨rfl, .inl rfl⟩
  split
  · exact ⟨rfl, .inl rfl⟩
  next p _ =>
  split
  · have hd := hs p p.names.dropLast
    split
    · next hm => rwa [hm] at hd
    · exact hd
  · exact hs p p.names

theorem write_eq_ok {content : Content} (h : d.write path content = .ok d') :
    ∃ p route, Path.parse path = .ok p ∧ d.follow (d.start p) p.names = .ok route ∧
      d.entryAt route ≠ some .directory := by
  rw [write, bind_eq_ok_iff] at h
  obtain ⟨⟨route, found⟩, hl, h⟩ := h
  simp only [locate, bind_eq_ok_iff] at hl
  obtain ⟨p, hp, route', hr, hl⟩ := hl
  refine ⟨p, route', hp, hr, fun hd => ?_⟩
  simp only [hd, pure, Except.pure] at hl
  cases hl
  cases h

/-- Whatever is on a disk is in a directory. -/
def Closed (d : Disk) : Prop :=
  ∀ route name, d.entryAt (route ++ [name]) ≠ none → d.entryAt route = some .directory

theorem closed_empty : empty.Closed := by
  intro route name h
  have hn : (route ++ [name]).isPrefixOf empty.working = true := by
    by_contra hp
    exact h (if_neg hp)
  have hp := (List.prefix_append route [name]).trans (List.isPrefixOf_iff_prefix.1 hn)
  exact if_pos (List.isPrefixOf_iff_prefix.2 hp)

theorem Closed.above (hd : d.Closed) {more : List String} (hm : more ≠ [])
    (h : d.entryAt (route ++ more) ≠ none) : d.entryAt route = some .directory := by
  induction more generalizing route with
  | nil => exact (hm rfl).elim
  | cons name more ih =>
    by_cases hn : more = []
    · rw [hn] at h
      exact hd route name h
    · have hi : d.entryAt (route ++ [name]) = some .directory := ih hn (by simpa using h)
      exact hd route name (by simp [hi])

/-- Names that go down only lead to what is there. -/
theorem Leads.of_closed (h : d'.Leads route names home) (hd : d.Closed) (hn : ".." ∉ names)
    (hf : d.entryAt (home ++ [name]) ≠ none) : d.Leads route names home := by
  induction h with
  | nil => exact .nil
  | @cons route inner home n names he _ hl ih =>
    rw [List.mem_cons, not_or] at hn
    have hi : d.entryAt inner = some .directory := by
      rw [hl.eq_append hn.2, List.append_assoc] at hf
      exact hd.above (by simp) hf
    exact .cons he hi (ih hn.2 hf)

section Located

variable {found : Option Entry} (h : d.locate path = .ok (route, found))
include h

theorem read_congr {other : Route} {path' : String}
    (h' : d'.locate path' = .ok (other, found)) : d'.read path' = d.read path := by
  rw [Disk.read, h', Disk.read, h]
  rcases found with _ | _ | _ <;> rfl

theorem write_eq (hf : found ≠ some .directory) (content : Content) :
    d.write path content = .ok (d.put route (.file content)) := by
  rw [write, h]
  rcases found with _ | _ | _
  · rfl
  · rfl
  · exact (hf rfl).elim

theorem remove_eq (hf : found ≠ some .directory) :
    d.remove path = if found = none then .error .notFound else .ok (d.drop route) := by
  rw [Disk.remove, h]
  rcases found with _ | _ | _
  · rfl
  · rfl
  · exact (hf rfl).elim

end Located

end Disk

end LabelGrammar
