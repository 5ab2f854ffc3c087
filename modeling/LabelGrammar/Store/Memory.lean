import LabelGrammar.Store.Basic

/-! # A store in memory

It never fails, and keeps under each key what was set last.
-/

namespace LabelGrammar

structure MemoryStore where
  entries : List (String × String)
  deriving DecidableEq, Repr

namespace MemoryStore

def empty : MemoryStore := ⟨[]⟩

def get (m : MemoryStore) (key : String) : Option String :=
  (m.entries.find? (·.1 == key)).map (·.2)

def remove (m : MemoryStore) (key : String) : MemoryStore :=
  ⟨m.entries.filter (·.1 != key)⟩

def set (m : MemoryStore) (key value : String) : MemoryStore :=
  ⟨(key, value) :: (m.remove key).entries⟩

instance : Store MemoryStore where
  get m key := .ok (m.get key)
  set m key value := (.ok (), m.set key value)
  remove m key := (.ok (), m.remove key)

theorem get_set_self (m : MemoryStore) (key value : String) :
    (m.set key value).get key = some value := by
  simp [set, get]

theorem get_remove_self (m : MemoryStore) (key : String) : (m.remove key).get key = none := by
  simp [remove, get]

theorem get_remove_of_ne (m : MemoryStore) {key other : String} (h : other ≠ key) :
    (m.remove key).get other = m.get other := by
  simp only [get, remove, List.find?_filter]
  congr 2
  funext e
  by_cases he : e.1 = other
  · simp [he, h]
  · simp [he]

theorem get_set_of_ne (m : MemoryStore) {key other : String} (h : other ≠ key) (value : String) :
    (m.set key value).get other = m.get other := by
  have hk : (key == other) = false := by simpa using fun e => h e.symm
  have := get_remove_of_ne m h
  simp only [get] at this
  simp only [get, set, List.find?_cons, hk, this]

end MemoryStore

end LabelGrammar
