import LabelGrammar.Document.Decode
import LabelGrammar.Proofs.Document.Storable
import LabelGrammar.Proofs.Json.Ordered

/-! # Records without optional fields

A value that is read as such a record is an object with just its fields, or an array of them.
-/

namespace LabelGrammar

/-- All fields of a record must be there, and nothing else may be. Their names are in order. -/
structure RecordType.Strict (r : RecordType) : Prop where
  closed : r.closed = true
  required : ∀ field ∈ r.fields, field.optional = false
  increasing : (r.fields.map FieldType.name).Pairwise (· < ·)

structure RecordType.Holds (r : RecordType) (members : List (String × Json)) : Prop where
  names : members.map Prod.fst = r.fields.map FieldType.name
  checks : ∀ m ∈ members, ∃ field ∈ r.fields, field.name = m.1 ∧ field.check m.2 = .ok ()

theorem forM_eq_ok_iff {ε α : Type} {f : α → Except ε Unit} {as : List α} :
    as.forM f = .ok () ↔ ∀ a ∈ as, f a = .ok () := by
  induction as with
  | nil => exact ⟨fun _ => List.forall_mem_nil _, fun _ => rfl⟩
  | cons a as ih =>
    rw [List.forall_mem_cons, ← ih]
    change (f a >>= fun _ => as.forM f) = .ok () ↔ _
    rw [bind_eq_ok_iff]
    constructor
    · rintro ⟨_, ha, h⟩
      exact ⟨ha, h⟩
    · rintro ⟨ha, h⟩
      exact ⟨(), ha, h⟩

namespace RecordType

variable {r : RecordType} {v : Json} {members members' : List (String × Json)}

/-- In order, the keys of an object are the names of the fields as soon as they are the same
ones. -/
theorem Strict.holds_of_obj (hr : r.Strict) (hi : Json.Increasing members)
    (h : r.members (.obj members) = .ok members') : members' = members ∧ r.Holds members := by
  simp only [RecordType.members, bind_eq_ok_iff] at h
  obtain ⟨⟨⟩, hm, ⟨⟩, hf, h⟩ := h
  cases h
  have hchecks (m : String × Json) (hmem : m ∈ members) :
      ∃ field ∈ r.fields, field.name = m.1 ∧ field.check m.2 = .ok () := by
    have hc := forM_eq_ok_iff.1 hm m hmem
    simp only [checkMember, hr.closed] at hc
    split at hc
    · next field hfield =>
      have hn := List.find?_some hfield
      exact ⟨field, List.mem_of_find?_eq_some hfield, by simpa using hn, hc⟩
    · cases hc
  refine ⟨rfl, ?_, hchecks⟩
  apply List.Pairwise.eq_of_mem_iff hi hr.increasing
  intro key
  constructor
  · rintro hk
    obtain ⟨m, hmem, rfl⟩ := List.mem_map.1 hk
    obtain ⟨field, hfield, hn, -⟩ := hchecks m hmem
    exact List.mem_map.2 ⟨field, hfield, hn⟩
  · rintro hk
    obtain ⟨field, hfield, rfl⟩ := List.mem_map.1 hk
    have hp := forM_eq_ok_iff.1 hf field hfield
    rw [checkPresent, hr.required field hfield, Bool.false_or] at hp
    split at hp
    · next hs => exact Json.isSome_member?_iff.1 hs
    · cases hp

theorem nameItems_eq_ok {position : Nat} {fields : List FieldType} {items : List Json}
    (hf : ∀ field ∈ fields, field.optional = false) (hl : items.length ≤ fields.length)
    (h : r.nameItems position fields items = .ok members) :
    items = members.map Prod.snd ∧ members.map Prod.fst = fields.map FieldType.name ∧
      ∀ m ∈ members, ∃ field ∈ fields, field.name = m.1 ∧ field.check m.2 = .ok () := by
  induction fields generalizing position items members with
  | nil =>
    obtain rfl := List.length_eq_zero_iff.1 (Nat.le_zero.1 hl)
    cases h
    exact ⟨rfl, rfl, List.forall_mem_nil _⟩
  | cons field fields ih =>
    rw [List.forall_mem_cons] at hf
    cases items with
    | nil =>
      rw [nameItems, hf.1] at h
      cases h
    | cons v items =>
      simp only [nameItems, bind_eq_ok_iff] at h
      obtain ⟨⟨⟩, hc, rest, hr, h⟩ := h
      cases h
      obtain ⟨hi, hn, hm⟩ := ih hf.2 (Nat.le_of_succ_le_succ hl) hr
      refine ⟨by rw [List.map_cons, ← hi], by rw [List.map_cons, List.map_cons, hn], ?_⟩
      rw [List.forall_mem_cons]
      refine ⟨⟨field, List.mem_cons_self, rfl, hc⟩, ?_⟩
      rintro m hmem
      obtain ⟨field', hmem', h⟩ := hm m hmem
      exact ⟨field', List.mem_cons_of_mem _ hmem', h⟩

/-- A value that is read as a record is an object or an array of just its fields. -/
theorem Strict.members_cases (hr : r.Strict) (hv : v.Ordered) (h : r.members v = .ok members) :
    (v = .obj members ∨ v = .arr (members.map Prod.snd)) ∧ r.Holds members := by
  cases hv with
  | obj hi _ =>
    obtain ⟨rfl, hh⟩ := hr.holds_of_obj hi h
    exact ⟨.inl rfl, hh⟩
  | @arr items _ =>
    simp only [RecordType.members, bind_eq_ok_iff] at h
    obtain ⟨ms, hn, h⟩ := h
    split at h
    · cases h
    · next hl =>
      cases h
      obtain ⟨rfl, hnames, hc⟩ := nameItems_eq_ok hr.required (Nat.not_lt.1 hl) hn
      exact ⟨.inr rfl, hnames, hc⟩
  | null => cases h
  | bool => cases h
  | int => cases h
  | float => cases h
  | str => cases h

theorem Strict.exists_member (hr : r.Strict) (hh : r.Holds members) {field : FieldType}
    (hf : field ∈ r.fields) :
    ∃ v, Json.member? field.name members = some v ∧ field.check v = .ok () := by
  have hk : field.name ∈ members.map Prod.fst := hh.names ▸ List.mem_map_of_mem hf
  obtain ⟨v, hv⟩ := Option.isSome_iff_exists.1 (Json.isSome_member?_iff.2 hk)
  obtain ⟨field', hf', hn, hc⟩ := hh.checks _ (Json.mem_of_member? hv)
  obtain rfl := List.inj_on_of_nodup_map hr.increasing.nodup hf' hf hn
  exact ⟨v, hv, hc⟩

end RecordType

end LabelGrammar
