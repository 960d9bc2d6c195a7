import Mathlib.Data.List.Basic
import Mathlib.Data.List.Induction

/-!
# Words that separators keep apart

A sequence falls into words at its separators. Pieces are kept apart in a sequence when it
consists of them, in order, with at least one separator between any two. The words of the
sequence are then the words of the pieces, however many separators stand between them.
-/

namespace SeparatedWords

variable {A : Type*} (sep : A → Bool)

/-- The runs without separators. -/
def words (v : List A) : List (List A) := (v.splitOnP sep).filter fun w => !w.isEmpty

/-- Pieces in order, with separators behind each, of which only the last may have none. -/
inductive KeptApart : List (List A) → List A → Prop where
  | last (piece gap : List A) (hgap : ∀ c ∈ gap, sep c) : KeptApart [piece] (piece ++ gap)
  | cons {next rest v} (piece gap : List A) (hne : gap ≠ []) (hgap : ∀ c ∈ gap, sep c)
      (hrest : KeptApart (next :: rest) v) : KeptApart (piece :: next :: rest) (piece ++ (gap ++ v))

/-- Pieces with what is written behind each of them. -/
def spread (pieces : List (List A × List A)) : List A := pieces.flatMap fun p => p.1 ++ p.2

/-- A piece is not empty and does not begin with a separator. -/
def Solid (piece : List A) : Prop := piece ≠ [] ∧ ∀ c ∈ piece.head?, sep c = false

variable {sep}

/-- A separator ends a word. -/
theorem words_append_cons (a b : List A) {c : A} (h : sep c) :
    words sep (a ++ c :: b) = words sep a ++ words sep b := by
  simp only [words, List.splitOnP_append_cons _ _ h, List.filter_append]

/-- There are no words among separators. -/
theorem words_append_separators (a : List A) {gap : List A} (h : ∀ c ∈ gap, sep c) :
    words sep (a ++ gap) = words sep a := by
  induction gap using List.reverseRecOn with
  | nil => rw [List.append_nil]
  | append_singleton gap c ih =>
    have hc : sep c := h c (by simp)
    rw [← List.append_assoc, words_append_cons _ _ hc, ih fun d hd => h d (by simp [hd])]
    change words sep a ++ [] = _
    rw [List.append_nil]

/-- A sequence that begins with a separator has the words of what follows it. -/
theorem words_dropWhile (v : List A) : words sep (v.dropWhile sep) = words sep v := by
  induction v with
  | nil => rfl
  | cons c v ih =>
    by_cases hc : sep c
    · rw [List.dropWhile_cons_of_pos hc, ih]
      exact (words_append_cons [] v hc).symm
    · rw [List.dropWhile_cons_of_neg hc]

/-- Words that are kept apart are the words of the pieces. -/
theorem KeptApart.words {pieces : List (List A)} {v : List A} (h : KeptApart sep pieces v) :
    words sep v = pieces.flatMap (words sep) := by
  induction h with
  | last piece gap hgap =>
    rw [words_append_separators _ hgap, List.flatMap_singleton]
  | @cons next rest v piece gap hne hgap hrest ih =>
    cases gap with
    | nil => exact absurd rfl hne
    | cons c gap =>
      have hc : sep c := hgap c (by simp)
      have hskip : SeparatedWords.words sep (gap ++ v) = SeparatedWords.words sep v := by
        rw [← words_dropWhile, ← words_dropWhile (v := v), List.dropWhile_append_of_pos]
        exact fun d hd => hgap d (by simp [hd])
      rw [List.cons_append, words_append_cons _ _ hc, hskip, ih]
      rfl

/-- What begins with a solid piece does not begin with a separator. -/
private theorem head_of_solid {piece rest : List A} (h : Solid sep piece) :
    ∀ c ∈ (piece ++ rest).head?, sep c = false := by
  cases piece with
  | nil => exact absurd rfl h.1
  | cons c piece => simpa using h.2

/-- Words that are kept apart begin with the first piece. -/
private theorem KeptApart.head {piece v : List A} {rest : List (List A)}
    (h : KeptApart sep (piece :: rest) v) (hsolid : Solid sep piece) :
    ∀ c ∈ v.head?, sep c = false := by
  cases h with
  | last => exact head_of_solid hsolid
  | cons => exact head_of_solid hsolid

/-- Separators in front of something else are skipped. -/
private theorem dropWhile_append_separators {gap v : List A} (hgap : ∀ c ∈ gap, sep c)
    (hv : ∀ c ∈ v.head?, sep c = false) : (gap ++ v).dropWhile sep = v := by
  rw [List.dropWhile_append_of_pos hgap]
  cases v with
  | nil => rfl
  | cons c v => exact List.dropWhile_cons_of_neg (by simpa using hv)

/-- Separators in front of something else are determined. -/
private theorem append_inj_of_separators {gap gap' v v' : List A} (hgap : ∀ c ∈ gap, sep c)
    (hgap' : ∀ c ∈ gap', sep c) (hv : ∀ c ∈ v.head?, sep c = false)
    (hv' : ∀ c ∈ v'.head?, sep c = false) (h : gap ++ v = gap' ++ v') : gap = gap' ∧ v = v' := by
  have hrest : v = v' := by
    rw [← dropWhile_append_separators hgap hv, h, dropWhile_append_separators hgap' hv']
  rw [hrest] at h
  exact ⟨List.append_cancel_right h, hrest⟩

/-- Pieces that are written one after the other begin with the first. -/
private theorem head_spread {first : List A × List A} (pieces : List (List A × List A))
    (hsolid : Solid sep first.1) : ∀ c ∈ (spread (first :: pieces)).head?, sep c = false := by
  rw [spread, List.flatMap_cons, List.append_assoc]
  exact head_of_solid hsolid

/-- Separators in front of the first piece are skipped. -/
theorem dropWhile_append_spread {gap : List A} {first : List A × List A}
    (pieces : List (List A × List A)) (hgap : ∀ c ∈ gap, sep c) (hsolid : Solid sep first.1) :
    (gap ++ spread (first :: pieces)).dropWhile sep = spread (first :: pieces) :=
  dropWhile_append_separators hgap (head_spread pieces hsolid)

/-- Solid pieces with separators behind them are kept apart exactly when each of them but the last
is followed by one. -/
theorem keptApart_spread_iff (first : List A × List A) (pieces : List (List A × List A))
    (hsolid : ∀ p ∈ first :: pieces, Solid sep p.1)
    (hgap : ∀ p ∈ first :: pieces, ∀ c ∈ p.2, sep c) :
    KeptApart sep ((first :: pieces).map Prod.fst) (spread (first :: pieces)) ↔
      ∀ p ∈ (first :: pieces).dropLast, p.2 ≠ [] := by
  induction pieces generalizing first with
  | nil =>
    simp only [spread, List.flatMap_singleton, List.map_cons, List.map_nil, List.dropLast_singleton]
    exact ⟨fun _ p hp => absurd hp (by simp), fun _ => .last _ _ (hgap first (by simp))⟩
  | cons next rest ih =>
    have ih := ih next (fun p hp => hsolid p (by simp [hp])) (fun p hp => hgap p (by simp [hp]))
    have hspread : spread (first :: next :: rest) =
        first.1 ++ (first.2 ++ spread (next :: rest)) := by
      simp only [spread, List.flatMap_cons, List.append_assoc]
    have hhead := head_spread rest (hsolid next (by simp))
    rw [hspread, List.dropLast_cons_cons, List.forall_mem_cons, ← ih]
    simp only [List.map_cons]
    constructor
    · intro h
      generalize hv : first.1 ++ (first.2 ++ spread (next :: rest)) = v at h
      cases h with
      | @cons _ _ tail _ gap hne hsep hrest =>
        have htail := hrest.head (hsolid next (by simp))
        have heq := append_inj_of_separators (hgap first (by simp)) hsep hhead htail
          (List.append_cancel_left hv)
        rw [heq.1, heq.2]
        exact ⟨hne, hrest⟩
    · intro h
      exact .cons _ _ h.1 (hgap first (by simp)) h.2

end SeparatedWords
