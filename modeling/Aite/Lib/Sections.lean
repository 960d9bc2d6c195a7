import Mathlib.Data.List.Basic
import Mathlib.Data.Nat.Notation

/-!
# Sequences divided by ends

Some elements of a sequence end a section. Reading up to the first end gives a section, the
end itself and what follows; reading several sections in a row gives the only way in which the
sequence begins with so many sections.
-/

namespace Sections

variable {A : Type*} (isEnd : A → Bool)

/-- The section before the first end, that end, and what follows it. -/
def next : List A → Option (List A × A × List A)
  | [] => none
  | a :: rest =>
    if isEnd a then some ([], a, rest)
    else (next rest).map fun found => (a :: found.1, found.2)

/-- The first sections with their ends, and what follows them. -/
def divide : ℕ → List A → Option (List (List A × A) × List A)
  | 0, xs => some ([], xs)
  | n + 1, xs =>
    (next isEnd xs).bind fun found =>
      (divide n found.2.2).map fun rest => ((found.1, found.2.1) :: rest.1, rest.2)

/-- The sequence of some sections with their ends. -/
def join (sections : List (List A × A)) : List A := sections.flatMap fun s => s.1 ++ [s.2]

/-- A section without ends, and its end. -/
def IsSection (s : List A × A) : Prop := (∀ a ∈ s.1, isEnd a = false) ∧ isEnd s.2 = true

variable {isEnd}

/-- The next section is the only way to begin with one. -/
theorem next_eq_some_iff {xs content rest : List A} {last : A} :
    next isEnd xs = some (content, last, rest) ↔
      xs = content ++ last :: rest ∧ IsSection isEnd (content, last) := by
  induction xs generalizing content with
  | nil => simp [next]
  | cons a xs ih =>
    by_cases ha : isEnd a = true
    · rw [next, if_pos ha]
      constructor
      · intro h
        cases h
        exact ⟨rfl, fun _ h => absurd h List.not_mem_nil, ha⟩
      · rintro ⟨heq, hcontent, -⟩
        cases content with
        | nil =>
          cases heq
          rfl
        | cons b content =>
          cases heq
          rw [hcontent _ List.mem_cons_self] at ha
          cases ha
    · rw [next, if_neg ha, Option.map_eq_some_iff]
      constructor
      · rintro ⟨⟨found, last', rest'⟩, hfound, heq⟩
        cases heq
        obtain ⟨rfl, hcontent, hlast⟩ := ih.mp hfound
        refine ⟨rfl, ?_, hlast⟩
        intro b hb
        cases List.mem_cons.mp hb with
        | inl hb => exact hb ▸ by simpa using ha
        | inr hb => exact hcontent b hb
      · rintro ⟨heq, hcontent, hlast⟩
        cases content with
        | nil =>
          cases heq
          exact absurd hlast ha
        | cons b content =>
          cases heq
          refine ⟨(content, last, rest), ih.mpr ⟨rfl, ?_, hlast⟩, rfl⟩
          exact fun c hc => hcontent c (List.mem_cons_of_mem _ hc)

/-- Dividing finds the only sections that a sequence begins with. -/
theorem divide_eq_some_iff {n : ℕ} {xs rest : List A} {sections : List (List A × A)} :
    divide isEnd n xs = some (sections, rest) ↔
      sections.length = n ∧ xs = join sections ++ rest ∧ ∀ s ∈ sections, IsSection isEnd s := by
  induction n generalizing xs sections with
  | zero =>
    rw [divide, Option.some.injEq, Prod.mk.injEq]
    constructor
    · rintro ⟨rfl, rfl⟩
      exact ⟨rfl, rfl, fun _ h => absurd h List.not_mem_nil⟩
    · rintro ⟨hlength, rfl, -⟩
      rw [List.eq_nil_of_length_eq_zero hlength]
      exact ⟨rfl, rfl⟩
  | succ n ih =>
    rw [divide, Option.bind_eq_some_iff]
    constructor
    · rintro ⟨⟨content, last, more⟩, hnext, hmap⟩
      obtain ⟨⟨others, rest'⟩, hdivide, heq⟩ := Option.map_eq_some_iff.mp hmap
      cases heq
      obtain ⟨rfl, hsection⟩ := next_eq_some_iff.mp hnext
      obtain ⟨hlength, hmore, hothers⟩ := ih.mp hdivide
      refine ⟨congrArg (· + 1) hlength, ?_, List.forall_mem_cons.mpr ⟨hsection, hothers⟩⟩
      change _ = ((content ++ [last]) ++ join others) ++ rest'
      rw [List.append_assoc, ← hmore, List.append_assoc, List.singleton_append]
    · rintro ⟨hlength, rfl, hall⟩
      cases sections with
      | nil => cases hlength
      | cons s others =>
        obtain ⟨hsection, hothers⟩ := List.forall_mem_cons.mp hall
        have hjoin : join (s :: others) ++ rest = s.1 ++ s.2 :: (join others ++ rest) := by
          change ((s.1 ++ [s.2]) ++ join others) ++ rest = _
          rw [List.append_assoc, List.append_assoc, List.singleton_append]
        have hdivide : divide isEnd n (join others ++ rest) = some (others, rest) :=
          ih.mpr ⟨Nat.succ.inj hlength, rfl, hothers⟩
        refine ⟨(s.1, s.2, join others ++ rest), next_eq_some_iff.mpr ⟨hjoin, hsection⟩, ?_⟩
        rw [hdivide]
        rfl

/-- A sequence is divided in one way. -/
theorem join_injective {sections others : List (List A × A)}
    (h : ∀ s ∈ sections, IsSection isEnd s) (hothers : ∀ s ∈ others, IsSection isEnd s)
    (hlength : sections.length = others.length) (heq : join sections = join others) :
    sections = others := by
  have hleft : divide isEnd others.length (join others) = some (sections, []) :=
    divide_eq_some_iff.mpr ⟨hlength, by rw [List.append_nil, heq], h⟩
  have hright : divide isEnd others.length (join others) = some (others, []) :=
    divide_eq_some_iff.mpr ⟨rfl, by rw [List.append_nil], hothers⟩
  rw [hleft] at hright
  cases hright
  rfl

/-- The ends in a section with its end, and in what follows. -/
private theorem countP_join_cons (s : List A × A) (others : List (List A × A))
    (hlast : isEnd s.2 = true) :
    (join (s :: others)).countP isEnd = s.1.countP isEnd + 1 + (join others).countP isEnd := by
  change ((s.1 ++ [s.2]) ++ join others).countP isEnd = _
  rw [List.countP_append, List.countP_append, List.countP_singleton, if_pos hlast]

/-- There are as many ends among some sections as there are sections. -/
theorem countP_join {sections : List (List A × A)} (h : ∀ s ∈ sections, IsSection isEnd s) :
    (join sections).countP isEnd = sections.length := by
  induction sections with
  | nil => rfl
  | cons s others ih =>
    obtain ⟨⟨hcontent, hlast⟩, hothers⟩ := List.forall_mem_cons.mp h
    have hnone : s.1.countP isEnd = 0 := List.countP_eq_zero.mpr (by simpa using hcontent)
    rw [countP_join_cons s others hlast, ih hothers, hnone, List.length_cons]
    omega

/-- Every sequence with its end has at least this one. -/
theorem length_le_countP_join {sections : List (List A × A)}
    (h : ∀ s ∈ sections, isEnd s.2 = true) :
    sections.length ≤ (join sections).countP isEnd := by
  induction sections with
  | nil => exact Nat.zero_le _
  | cons s others ih =>
    obtain ⟨hlast, hothers⟩ := List.forall_mem_cons.mp h
    have := ih hothers
    rw [countP_join_cons s others hlast, List.length_cons]
    omega

/-- With no more ends than there are sequences, they are sections. -/
theorem isSection_of_countP_join_le {sections : List (List A × A)}
    (h : ∀ s ∈ sections, isEnd s.2 = true)
    (hcount : (join sections).countP isEnd ≤ sections.length) :
    ∀ s ∈ sections, IsSection isEnd s := by
  induction sections with
  | nil => exact fun _ h => absurd h List.not_mem_nil
  | cons s others ih =>
    obtain ⟨hlast, hothers⟩ := List.forall_mem_cons.mp h
    have hleast := length_le_countP_join hothers
    rw [countP_join_cons s others hlast, List.length_cons] at hcount
    have hnone : s.1.countP isEnd = 0 := by omega
    refine List.forall_mem_cons.mpr ⟨⟨?_, hlast⟩, ih hothers (by omega)⟩
    simpa using List.countP_eq_zero.mp hnone

end Sections
