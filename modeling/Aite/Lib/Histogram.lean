import Aite.Lib.KeyedList
import Mathlib.Data.List.Dedup
import Mathlib.Data.List.Perm.Basic
import Mathlib.Data.List.Sort

/-!
# Sorted maps and histograms

A map whose entries are listed in the order of their keys does not depend on the order in which
the entries were made. A map that tallies a list, with an entry for each key that was counted and
no other, is the histogram of that list.
-/

namespace KeyedList

variable {K V : Type*}

/-! ## Sorting by keys -/

section Sorted

variable (le : K → K → Prop) [DecidableRel le] [Std.Total le] [IsTrans K le] [Std.Antisymm le]

/-- The entries in the order of their keys. -/
def sortedByKey (map : List (K × V)) : List (K × V) := map.insertionSort fun a b => le a.1 b.1

omit [Std.Total le] [IsTrans K le] [Std.Antisymm le] in
/-- Sorting keeps the entries. -/
theorem sortedByKey_perm (map : List (K × V)) : (sortedByKey le map).Perm map :=
  List.perm_insertionSort _ map

/-- Two entries of a map with the same key are the same. -/
theorem eq_of_key_eq {map : List (K × V)} (hkeys : (map.map Prod.fst).Nodup) {a b : K × V}
    (ha : a ∈ map) (hb : b ∈ map) (h : a.1 = b.1) : a = b :=
  List.inj_on_of_nodup_map hkeys ha hb h

/-- Maps with the same entries are sorted alike. -/
theorem sortedByKey_eq_of_perm {map other : List (K × V)} (h : map.Perm other)
    (hkeys : (map.map Prod.fst).Nodup) : sortedByKey le map = sortedByKey le other := by
  have htotal : Std.Total fun a b : K × V => le a.1 b.1 :=
    ⟨fun a b => Std.Total.total a.1 b.1⟩
  have htrans : IsTrans (K × V) fun a b => le a.1 b.1 :=
    ⟨fun a b c => IsTrans.trans a.1 b.1 c.1⟩
  refine List.Perm.eq_of_pairwise ?_ (List.pairwise_insertionSort _ map)
    (List.pairwise_insertionSort _ other)
    ((sortedByKey_perm le map).trans (h.trans (sortedByKey_perm le other).symm))
  intro a b ha hb hab hba
  have hmap : a ∈ map := (sortedByKey_perm le map).subset ha
  have hother : b ∈ map := h.symm.subset ((sortedByKey_perm le other).subset hb)
  exact eq_of_key_eq hkeys hmap hother (Std.Antisymm.antisymm a.1 b.1 hab hba)

end Sorted

/-! ## Histograms -/

variable [BEq K] [LawfulBEq K]

/-- A change keeps the keys distinct. -/
theorem nodup_keys_alter (key : K) (f : Option V → V) {map : List (K × V)}
    (h : (map.map Prod.fst).Nodup) : ((alter key f map).map Prod.fst).Nodup := by
  induction map with
  | nil => exact List.nodup_singleton _
  | cons entry rest ih =>
    obtain ⟨k, v⟩ := entry
    obtain ⟨hk, hrest⟩ := List.nodup_cons.mp h
    by_cases hkey : key = k
    · subst hkey
      rw [alter_cons_self]
      exact h
    · rw [alter_cons_of_ne hkey]
      refine List.nodup_cons.mpr ⟨?_, ih hrest⟩
      intro hmem
      obtain ⟨altered, haltered, heq⟩ := List.mem_map.mp hmem
      cases mem_alter haltered with
      | inl hself =>
        rw [hself] at heq
        exact hkey heq
      | inr hold => exact hk (List.mem_map.mpr ⟨altered, hold, heq⟩)

/-- The entry of a key is what the key is looked up as. -/
theorem lookup_eq_some_iff {map : List (K × V)} (h : (map.map Prod.fst).Nodup) {key : K}
    {value : V} : map.lookup key = some value ↔ (key, value) ∈ map := by
  refine ⟨mem_of_lookup, ?_⟩
  intro hmem
  induction map with
  | nil => exact absurd hmem List.not_mem_nil
  | cons entry rest ih =>
    obtain ⟨k, v⟩ := entry
    obtain ⟨hk, hrest⟩ := List.nodup_cons.mp h
    cases List.mem_cons.mp hmem with
    | inl hself =>
      obtain ⟨rfl, rfl⟩ := Prod.mk.inj hself
      exact lookup_cons_self key value rest
    | inr hmem =>
      have hne : key ≠ k := fun heq => hk (heq ▸ List.mem_map.mpr ⟨_, hmem, rfl⟩)
      rw [lookup_cons_of_ne hne]
      exact ih hrest hmem

/-- Maps in which every key is looked up alike have the same entries. -/
theorem perm_of_lookup_eq {map other : List (K × V)} (hmap : (map.map Prod.fst).Nodup)
    (hother : (other.map Prod.fst).Nodup) (h : ∀ key, map.lookup key = other.lookup key) :
    map.Perm other := by
  refine (List.perm_ext_iff_of_nodup hmap.of_map hother.of_map).mpr ?_
  intro entry
  obtain ⟨key, value⟩ := entry
  rw [← lookup_eq_some_iff hmap, ← lookup_eq_some_iff hother, h]

/-- A map tallies a list with one entry for each key that was counted. -/
structure IsTally (map : List (K × ℕ)) (keys : List K) : Prop where
  tallies : Tallies map keys
  distinct : (map.map Prod.fst).Nodup
  positive : ∀ entry ∈ map, 0 < entry.2

omit [LawfulBEq K] in
/-- Nothing was counted. -/
theorem IsTally.nil : IsTally ([] : List (K × ℕ)) [] :=
  ⟨Tallies.nil, List.nodup_nil, fun _ h => absurd h List.not_mem_nil⟩

/-- One more key is counted. -/
theorem IsTally.alter {map : List (K × ℕ)} {keys : List K} (h : IsTally map keys) {key : K}
    {f : Option ℕ → ℕ} (hf : ∀ v, f v = v.getD 0 + 1) :
    IsTally (alter key f map) (keys ++ [key]) := by
  refine ⟨h.tallies.alter hf, nodup_keys_alter key f h.distinct, ?_⟩
  intro entry hentry
  cases mem_alter hentry with
  | inl hself =>
    rw [hself, hf]
    exact Nat.succ_pos _
  | inr hold => exact h.positive entry hold

variable [DecidableEq K]

/-- How often each key is in a list. -/
def histogram (keys : List K) : List (K × ℕ) := keys.dedup.map fun key => (key, keys.count key)

omit [LawfulBEq K] in
/-- The keys of a histogram differ. -/
theorem nodup_keys_histogram (keys : List K) : ((histogram keys).map Prod.fst).Nodup := by
  have hkeys : (histogram keys).map Prod.fst = keys.dedup := by
    rw [histogram, List.map_map]
    exact List.map_id _
  rw [hkeys]
  exact keys.nodup_dedup

omit [LawfulBEq K] in
/-- The order of a list does not change its histogram. -/
theorem histogram_perm {keys others : List K} (h : keys.Perm others) :
    (histogram keys).Perm (histogram others) := by
  have hcount : (fun key => (key, keys.count key)) = fun key => (key, others.count key) :=
    funext fun key => by rw [h.count_eq]
  rw [histogram, histogram, hcount]
  exact h.dedup.map _

/-- A map that tallies a list is the histogram of the list. -/
theorem IsTally.perm_histogram {map : List (K × ℕ)} {keys : List K} (h : IsTally map keys) :
    map.Perm (histogram keys) := by
  obtain ⟨htallies, hkeys, hpositive⟩ := h
  refine (List.perm_ext_iff_of_nodup hkeys.of_map (nodup_keys_histogram keys).of_map).mpr ?_
  intro entry
  obtain ⟨key, count⟩ := entry
  rw [histogram, List.mem_map]
  constructor
  · intro hmem
    have hcount := htallies.count key
    rw [(lookup_eq_some_iff hkeys).mpr hmem, Option.getD_some] at hcount
    refine ⟨key, List.mem_dedup.mpr (List.count_pos_iff.mp ?_), by rw [hcount]⟩
    rw [← hcount]
    exact hpositive _ hmem
  · rintro ⟨other, hmem, heq⟩
    obtain ⟨rfl, rfl⟩ := Prod.mk.inj heq
    have hcount := htallies.count other
    have hlisted := List.count_pos_iff.mpr (List.mem_dedup.mp hmem)
    cases hlookup : map.lookup other with
    | none =>
      rw [hlookup, Option.getD_none] at hcount
      omega
    | some value =>
      rw [hlookup, Option.getD_some] at hcount
      rw [← hcount]
      exact mem_of_lookup hlookup

end KeyedList
