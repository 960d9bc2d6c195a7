import Mathlib.Data.List.Induction
import Mathlib.Data.Nat.Notation

/-!
# The longest prefix that has a value

A partial function on sequences is asked for a sequence, then for the sequence without its
last element, and so on down to the empty one. The first answer is the value at the longest
prefix that has one.
-/

namespace LongestPrefix

variable {A V : Type*}

/-- Ask for a sequence given from its end, dropping elements until there is an answer. -/
def searchUp (get : List A → Option V) : List A → Option V
  | [] => get []
  | a :: rest => (get (a :: rest).reverse).or (searchUp get rest)

/-- The value at the longest prefix that has one. -/
def search (get : List A → Option V) (path : List A) : Option V := searchUp get path.reverse

/-- Only the empty sequence is a prefix of the empty one. -/
@[simp] theorem search_nil (get : List A → Option V) : search get [] = get [] := rfl

/-- The whole sequence is asked for first. -/
theorem search_append_singleton (get : List A → Option V) (path : List A) (a : A) :
    search get (path ++ [a]) = (get (path ++ [a])).or (search get path) := by
  rw [search, List.reverse_append]
  change searchUp get (a :: path.reverse) = _
  rw [searchUp, List.reverse_cons, List.reverse_reverse]
  rfl

/-- There is no answer exactly when no prefix has a value. -/
theorem search_eq_none_iff {get : List A → Option V} {path : List A} :
    search get path = none ↔ ∀ key, key <+: path → get key = none := by
  induction path using List.reverseRecOn with
  | nil => simp
  | append_singleton path a ih =>
    rw [search_append_singleton, Option.or_eq_none_iff, ih]
    constructor
    · rintro ⟨hwhole, hrest⟩ key hkey
      cases List.prefix_concat_iff.mp hkey with
      | inl h => exact h ▸ hwhole
      | inr h => exact hrest key h
    · intro h
      exact ⟨h _ (List.prefix_refl _), fun key hkey => h key (hkey.trans (List.prefix_append _ _))⟩

/-- The answer is the value at a prefix, and no longer prefix has a value. -/
theorem exists_of_search {get : List A → Option V} {path : List A} {v : V}
    (h : search get path = some v) :
    ∃ key, key <+: path ∧ get key = some v ∧
      ∀ other, other <+: path → get other ≠ none → other.length ≤ key.length := by
  induction path using List.reverseRecOn with
  | nil => exact ⟨[], List.prefix_refl [], h, fun other hother _ => hother.length_le⟩
  | append_singleton path a ih =>
    rw [search_append_singleton] at h
    cases hwhole : get (path ++ [a]) with
    | some w =>
      rw [hwhole, Option.some_or] at h
      exact ⟨_, List.prefix_refl _, hwhole.trans h, fun other hother _ => hother.length_le⟩
    | none =>
      rw [hwhole, Option.none_or] at h
      obtain ⟨key, hkey, hvalue, hlongest⟩ := ih h
      refine ⟨key, hkey.trans (List.prefix_append path [a]), hvalue, ?_⟩
      intro other hother hsome
      cases List.prefix_concat_iff.mp hother with
      | inl h => exact absurd (h ▸ hwhole) hsome
      | inr h => exact hlongest other h hsome

end LongestPrefix
