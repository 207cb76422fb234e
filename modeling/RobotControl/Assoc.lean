/-!
# Finite maps with insertion order

An `Assoc` is a list of key–value pairs with one pair a key.  Writing a present key keeps its
place, a new key goes to the end.  Main statements: `get?_put`, `get?_erase` and `get?_filter` say
what each operation does to the value seen under every key.
-/
set_option autoImplicit false

namespace RobotControl

structure Assoc (κ α : Type) where
  entries : List (κ × α) := []
  nodup : (entries.map (·.1)).Nodup := by simp

namespace Assoc

variable {κ α : Type} [DecidableEq κ]

def find (k : κ) : List (κ × α) → Option α
  | [] => none
  | (j, a) :: rest => if j = k then some a else find k rest

/-- Replaces the first pair with key `k`, or appends a new one. -/
def write (k : κ) (a : α) : List (κ × α) → List (κ × α)
  | [] => [(k, a)]
  | (j, b) :: rest => if j = k then (j, a) :: rest else (j, b) :: write k a rest

theorem mem_keys_write (k j : κ) (a : α) (l : List (κ × α)) :
    j ∈ (write k a l).map (·.1) ↔ j = k ∨ j ∈ l.map (·.1) := by
  induction l with
  | nil => simp [write]
  | cons e rest ih =>
      obtain ⟨i, b⟩ := e
      by_cases hik : i = k
      · subst hik
        simp [write]
      · simp only [write, if_neg hik, List.map_cons, List.mem_cons, ih]
        grind

theorem nodup_write (k : κ) (a : α) (l : List (κ × α)) (h : (l.map (·.1)).Nodup) :
    ((write k a l).map (·.1)).Nodup := by
  induction l with
  | nil => simp [write]
  | cons e rest ih =>
      obtain ⟨i, b⟩ := e
      rw [List.map_cons, List.nodup_cons] at h
      by_cases hik : i = k
      · subst hik
        simpa [write] using h
      · simp only [write, if_neg hik, List.map_cons, List.nodup_cons, mem_keys_write]
        exact ⟨by simp only [not_or]; exact ⟨hik, h.1⟩, ih h.2⟩

omit [DecidableEq κ] in
theorem nodup_filter (p : κ × α → Bool) (l : List (κ × α)) (h : (l.map (·.1)).Nodup) :
    ((l.filter p).map (·.1)).Nodup :=
  h.sublist (List.filter_sublist.map _)

def empty : Assoc κ α := {}

instance : EmptyCollection (Assoc κ α) := ⟨empty⟩

instance : Inhabited (Assoc κ α) := ⟨empty⟩

def get? (m : Assoc κ α) (k : κ) : Option α := find k m.entries

def contains (m : Assoc κ α) (k : κ) : Bool := (m.get? k).isSome

def getD (m : Assoc κ α) (k : κ) (a : α) : α := (m.get? k).getD a

def put (m : Assoc κ α) (k : κ) (a : α) : Assoc κ α :=
  ⟨write k a m.entries, nodup_write k a m.entries m.nodup⟩

def filter (m : Assoc κ α) (p : κ → α → Bool) : Assoc κ α :=
  ⟨m.entries.filter fun e => p e.1 e.2, nodup_filter _ m.entries m.nodup⟩

def erase (m : Assoc κ α) (k : κ) : Assoc κ α := m.filter fun j _ => j ≠ k

def modify (m : Assoc κ α) (k : κ) (f : α → α) : Assoc κ α :=
  match m.get? k with
  | some a => m.put k (f a)
  | none => m

def keys (m : Assoc κ α) : List κ := m.entries.map (·.1)

def values (m : Assoc κ α) : List α := m.entries.map (·.2)

def size (m : Assoc κ α) : Nat := m.entries.length

theorem find_write (k j : κ) (a : α) (l : List (κ × α)) :
    find j (write k a l) = if k = j then some a else find j l := by
  induction l with
  | nil => simp [write, find]
  | cons e rest ih =>
      obtain ⟨i, b⟩ := e
      by_cases hik : i = k
      · subst hik
        by_cases hij : i = j <;> simp [write, find, hij]
      · by_cases hij : i = j
        · subst hij
          simp [write, find, hik, Ne.symm hik]
        · simp [write, find, hik, hij, ih]

theorem find_eq_none (k : κ) (l : List (κ × α)) (h : k ∉ l.map (·.1)) : find k l = none := by
  induction l with
  | nil => rfl
  | cons e rest ih =>
      obtain ⟨i, b⟩ := e
      simp only [List.map_cons, List.mem_cons, not_or] at h
      simp [find, Ne.symm h.1, ih h.2]

theorem mem_of_find {k : κ} {a : α} {l : List (κ × α)} (found : find k l = some a) :
    (k, a) ∈ l := by
  induction l with
  | nil => cases found
  | cons e rest ih =>
      obtain ⟨j, b⟩ := e
      by_cases same : j = k
      · simp [find, same] at found
        simp [same, found]
      · simp only [find, if_neg same] at found
        exact List.mem_cons_of_mem _ (ih found)

theorem find_of_mem {k : κ} {a : α} {l : List (κ × α)} (member : (k, a) ∈ l)
    (nodup : (l.map (·.1)).Nodup) : find k l = some a := by
  induction l with
  | nil => cases member
  | cons e rest ih =>
      obtain ⟨j, b⟩ := e
      rw [List.map_cons, List.nodup_cons] at nodup
      rcases List.mem_cons.mp member with same | later
      · cases same
        simp [find]
      · have other : j ≠ k := fun same =>
          nodup.1 (List.mem_map.mpr ⟨(k, a), later, same.symm⟩)
        simp [find, other, ih later nodup.2]

theorem mem_entries_iff (m : Assoc κ α) (k : κ) (a : α) :
    (k, a) ∈ m.entries ↔ m.get? k = some a :=
  ⟨fun member => find_of_mem member m.nodup, mem_of_find⟩

theorem mem_values_of_get? {m : Assoc κ α} {k : κ} {a : α} (found : m.get? k = some a) :
    a ∈ m.values :=
  List.mem_map.mpr ⟨(k, a), mem_of_find found, rfl⟩

theorem find_filter (p : κ → α → Bool) (k : κ) (l : List (κ × α)) (h : (l.map (·.1)).Nodup) :
    find k (l.filter fun e => p e.1 e.2) = (find k l).filter (p k) := by
  induction l with
  | nil => rfl
  | cons e rest ih =>
      obtain ⟨i, b⟩ := e
      rw [List.map_cons, List.nodup_cons] at h
      by_cases hik : i = k
      · subst hik
        by_cases hp : p i b
        · simp [hp, find, Option.filter]
        · simp [hp, find, Option.filter, ih h.2, find_eq_none i rest h.1]
      · by_cases hp : p i b
        · simp [hp, find, hik, ih h.2]
        · simp [hp, find, hik, ih h.2]

theorem get?_put (m : Assoc κ α) (k j : κ) (a : α) :
    (m.put k a).get? j = if k = j then some a else m.get? j := find_write k j a m.entries

theorem get?_put_self (m : Assoc κ α) (k : κ) (a : α) : (m.put k a).get? k = some a := by
  simp [get?_put]

theorem get?_filter (m : Assoc κ α) (p : κ → α → Bool) (k : κ) :
    (m.filter p).get? k = (m.get? k).filter (p k) := find_filter p k m.entries m.nodup

theorem get?_erase (m : Assoc κ α) (k j : κ) :
    (m.erase k).get? j = if k = j then none else m.get? j := by
  rw [erase, get?_filter]
  by_cases h : k = j
  · subst h
    simp
  · cases hj : m.get? j <;> simp [h, Ne.symm h, Option.filter]

theorem get?_empty (k : κ) : (∅ : Assoc κ α).get? k = none := rfl

end Assoc

end RobotControl
