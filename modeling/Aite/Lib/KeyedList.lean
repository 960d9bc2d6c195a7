import Mathlib.Algebra.GroupWithZero.Nat
import Mathlib.Data.List.Basic

/-!
# Maps as lists of keys and values

A map is the list of its entries. Changing the value under a key keeps the place of the
entry, and a key that was not there before gets an entry at the end. A map of numbers tallies a
list when it holds how often each key is in the list.
-/

namespace KeyedList

variable {K V : Type*} [BEq K]

/-- The entries after the value under a key was changed, or set when there was none. -/
def alter (key : K) (f : Option V → V) : List (K × V) → List (K × V)
  | [] => [(key, f none)]
  | (k, v) :: rest => if key == k then (k, f (some v)) :: rest else (k, v) :: alter key f rest

/-- The entries after a value was assigned to a key. -/
def assign (key : K) (value : V) (map : List (K × V)) : List (K × V) :=
  alter key (fun _ => value) map

variable [LawfulBEq K]

/-- A change at the first entry. -/
theorem alter_cons_self (k : K) (f : Option V → V) (v : V) (rest : List (K × V)) :
    alter k f ((k, v) :: rest) = (k, f (some v)) :: rest := by
  rw [alter, beq_self_eq_true, if_pos rfl]

/-- A change behind the first entry. -/
theorem alter_cons_of_ne {key k : K} (h : key ≠ k) (f : Option V → V) (v : V)
    (rest : List (K × V)) : alter key f ((k, v) :: rest) = (k, v) :: alter key f rest := by
  rw [alter, beq_eq_false_iff_ne.mpr h]
  rfl

/-- Looking up a key passes over the entries of the others. -/
theorem lookup_cons_of_ne {key k : K} (h : key ≠ k) (v : V) (rest : List (K × V)) :
    ((k, v) :: rest).lookup key = rest.lookup key := by
  rw [List.lookup_cons, beq_eq_false_iff_ne.mpr h]

/-- Looking up the key of the first entry. -/
theorem lookup_cons_self (k : K) (v : V) (rest : List (K × V)) :
    ((k, v) :: rest).lookup k = some v := by
  rw [List.lookup_cons, beq_self_eq_true]

/-- The changed value is under its key. -/
@[simp] theorem lookup_alter_self (key : K) (f : Option V → V) (map : List (K × V)) :
    (alter key f map).lookup key = some (f (map.lookup key)) := by
  induction map with
  | nil => exact lookup_cons_self key (f none) []
  | cons entry rest ih =>
    obtain ⟨k, v⟩ := entry
    by_cases h : key = k
    · subst h
      rw [alter_cons_self, lookup_cons_self, lookup_cons_self]
    · rw [alter_cons_of_ne h, lookup_cons_of_ne h, lookup_cons_of_ne h, ih]

/-- The values under the other keys are kept. -/
theorem lookup_alter_of_ne {key other : K} (h : other ≠ key) (f : Option V → V)
    (map : List (K × V)) : (alter key f map).lookup other = map.lookup other := by
  induction map with
  | nil => exact lookup_cons_of_ne h (f none) []
  | cons entry rest ih =>
    obtain ⟨k, v⟩ := entry
    by_cases hkey : key = k
    · subst hkey
      rw [alter_cons_self, lookup_cons_of_ne h, lookup_cons_of_ne h]
    · rw [alter_cons_of_ne hkey]
      by_cases hother : other = k
      · subst hother
        rw [lookup_cons_self, lookup_cons_self]
      · rw [lookup_cons_of_ne hother, lookup_cons_of_ne hother, ih]

/-- A value that was assigned is under its key. -/
theorem lookup_assign_self (key : K) (value : V) (map : List (K × V)) :
    (assign key value map).lookup key = some value := lookup_alter_self key _ map

/-- An assignment keeps the values under the other keys. -/
theorem lookup_assign_of_ne {key other : K} (h : other ≠ key) (value : V) (map : List (K × V)) :
    (assign key value map).lookup other = map.lookup other := lookup_alter_of_ne h _ map

/-- An entry after a change is the changed one or was there before. -/
theorem mem_alter {key : K} {f : Option V → V} {map : List (K × V)} {entry : K × V}
    (h : entry ∈ alter key f map) :
    entry = (key, f (map.lookup key)) ∨ entry ∈ map := by
  induction map with
  | nil => exact .inl (List.mem_singleton.mp h)
  | cons first rest ih =>
    obtain ⟨k, v⟩ := first
    by_cases hkey : key = k
    · subst hkey
      rw [alter_cons_self, List.mem_cons] at h
      rw [lookup_cons_self]
      exact h.imp_right (List.mem_cons_of_mem _)
    · rw [alter_cons_of_ne hkey, List.mem_cons] at h
      rw [lookup_cons_of_ne hkey]
      cases h with
      | inl h => exact .inr (h ▸ List.mem_cons_self)
      | inr h => exact (ih h).imp_right (List.mem_cons_of_mem _)

/-- A value that is found is in an entry of its key. -/
theorem mem_of_lookup {key : K} {value : V} {map : List (K × V)}
    (h : map.lookup key = some value) : (key, value) ∈ map := by
  obtain ⟨before, after, rfl, -⟩ := List.lookup_eq_some_iff.mp h
  simp

/-! ## Tallies -/

variable {map : List (K × ℕ)} {keys : List K}

/-- The map holds how often each key is in the list. -/
structure Tallies (map : List (K × ℕ)) (keys : List K) : Prop where
  count : ∀ key, (map.lookup key).getD 0 = keys.count key
  total : (map.map Prod.snd).sum = keys.length

omit [LawfulBEq K] in
/-- The empty map tallies the empty list. -/
theorem Tallies.nil : Tallies ([] : List (K × ℕ)) [] := ⟨fun _ => rfl, rfl⟩

/-- A number that is added under a key is added to the sum of all values. -/
theorem sum_values_alter {key : K} {f : Option ℕ → ℕ} {n : ℕ} (hf : ∀ v, f v = v.getD 0 + n)
    (map : List (K × ℕ)) :
    ((alter key f map).map Prod.snd).sum = (map.map Prod.snd).sum + n := by
  induction map with
  | nil =>
    simp only [alter, List.map_cons, List.map_nil, List.sum_cons, List.sum_nil, hf,
      Option.getD_none]
    omega
  | cons entry rest ih =>
    obtain ⟨k, v⟩ := entry
    by_cases h : key = k
    · subst h
      simp only [alter_cons_self, List.map_cons, List.sum_cons, hf, Option.getD_some]
      omega
    · simp only [alter_cons_of_ne h, List.map_cons, List.sum_cons, ih]
      omega

/-- Adding one under a key tallies one more occurrence of it. -/
theorem Tallies.alter {key : K} {f : Option ℕ → ℕ} (h : Tallies map keys)
    (hf : ∀ v, f v = v.getD 0 + 1) :
    Tallies (alter key f map) (keys ++ [key]) where
  count other := by
    rw [List.count_append, List.count_singleton]
    by_cases hkey : other = key
    · subst hkey
      rw [lookup_alter_self, Option.getD_some, hf, h.count, beq_self_eq_true, if_pos rfl]
    · rw [lookup_alter_of_ne hkey, h.count, if_neg (by simpa using Ne.symm hkey), Nat.add_zero]
  total := by
    rw [sum_values_alter hf, h.total, List.length_append, List.length_singleton]

end KeyedList
