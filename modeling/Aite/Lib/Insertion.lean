import Mathlib.Data.List.DropRight
import Mathlib.Data.List.Infix
import Mathlib.Data.List.Perm.Basic

/-!
# Inserting a word at the places that rules describe

A rule describes a place in a sequence by what is directly before and behind it. Inserting a
word at all places of a sequence is the same as cutting it there and joining the pieces with
the word. When the rules cannot be confused with each other or with the word, inserting by one
rule after the other, in any order, is inserting by all of them at once: no insertion makes,
hides or moves the place of another.
-/

namespace Insertion

variable {A : Type*}

/-- Insert a word at all places. -/
def insertAll (site : List A → List A → Bool) (word : List A) : List A → List A → List A
  | before, [] => if site before [] then word else []
  | before, a :: rest =>
    (if site before (a :: rest) then word else []) ++
      a :: insertAll site word (before ++ [a]) rest

/-- The pieces between the places. -/
def pieces (site : List A → List A → Bool) : List A → List A → List (List A)
  | before, [] => if site before [] then [[], []] else [[]]
  | before, a :: rest =>
    let others := (pieces site (before ++ [a]) rest).modifyHead (a :: ·)
    if site before (a :: rest) then [] :: others else others

/-- There is at least one piece. -/
private theorem pieces_ne_nil (site : List A → List A → Bool) (before after : List A) :
    pieces site before after ≠ [] := by
  induction after generalizing before with
  | nil =>
    unfold pieces
    split_ifs <;> exact List.cons_ne_nil _ _
  | cons a rest ih =>
    unfold pieces
    split_ifs
    · exact List.cons_ne_nil _ _
    · intro hnil
      exact ih _ (List.modifyHead_eq_nil_iff.mp hnil)

/-- The pieces are those of the sequence. -/
theorem flatten_pieces (site : List A → List A → Bool) (before after : List A) :
    (pieces site before after).flatten = after := by
  induction after generalizing before with
  | nil =>
    unfold pieces
    split_ifs <;> rfl
  | cons a rest ih =>
    have hothers : ((pieces site (before ++ [a]) rest).modifyHead (a :: ·)).flatten = a :: rest := by
      obtain ⟨first, others, heq⟩ :=
        List.exists_cons_of_ne_nil (pieces_ne_nil site (before ++ [a]) rest)
      have := ih (before ++ [a])
      rw [heq] at this ⊢
      exact congrArg _ this
    unfold pieces
    split_ifs
    · exact hothers
    · exact hothers

/-- Inserting a word is joining the pieces with it. -/
theorem intercalate_pieces (site : List A → List A → Bool) (word before after : List A) :
    word.intercalate (pieces site before after) = insertAll site word before after := by
  induction after generalizing before with
  | nil =>
    unfold pieces insertAll
    split_ifs
    · simp [List.intercalate]
    · rfl
  | cons a rest ih =>
    have hothers : word.intercalate ((pieces site (before ++ [a]) rest).modifyHead (a :: ·)) =
        a :: insertAll site word (before ++ [a]) rest := by
      rw [← ih]
      obtain ⟨first, others, heq⟩ :=
        List.exists_cons_of_ne_nil (pieces_ne_nil site (before ++ [a]) rest)
      rw [heq]
      cases others <;> simp [List.intercalate]
    unfold pieces insertAll
    split_ifs
    · obtain ⟨first, others, heq⟩ := List.exists_cons_of_ne_nil
        (fun hnil => pieces_ne_nil site (before ++ [a]) rest (List.modifyHead_eq_nil_iff.mp hnil) :
          (pieces site (before ++ [a]) rest).modifyHead (a :: ·) ≠ [])
      rw [← hothers, heq]
      simp [List.intercalate]
    · exact hothers

/-- Where there is no place, nothing is inserted. -/
theorem insertAll_append {site : List A → List A → Bool} {word part : List A} (before rest : List A)
    (h : ∀ u v, part = u ++ v → v ≠ [] → site (before ++ u) (v ++ rest) = false) :
    insertAll site word before (part ++ rest) =
      part ++ insertAll site word (before ++ part) rest := by
  induction part generalizing before with
  | nil => rw [List.append_nil]; rfl
  | cons a part ih =>
    have hfirst : site before (a :: (part ++ rest)) = false := by
      have := h [] (a :: part) rfl (List.cons_ne_nil _ _)
      rwa [List.append_nil] at this
    change insertAll site word before (a :: (part ++ rest)) = _
    rw [insertAll, hfirst, if_neg Bool.false_ne_true, List.nil_append, ih]
    · simp only [List.append_assoc, List.cons_append, List.nil_append]
    · intro u v heq hv
      have := h (a :: u) v (congrArg _ heq) hv
      rwa [← List.singleton_append, ← List.append_assoc] at this

/-! ## Rules -/

/-- A place behind `opening` and before `closing`, unless `blocked` follows. -/
structure Rule (A : Type*) where
  opening : List A
  closing : List A
  blocked : A

variable [DecidableEq A]

/-- What comes behind a place. -/
def closes (closing : List A) (blocked : A) (after : List A) : Bool :=
  closing.isPrefixOf after && (after.drop closing.length).head? ≠ some blocked

/-- The first element of what comes behind. -/
private theorem closes_cons (a b : A) (closing : List A) (blocked : A) (after : List A) :
    closes (a :: closing) blocked (b :: after) = ((a == b) && closes closing blocked after) := by
  rw [closes, closes, List.isPrefixOf_cons_cons, List.length_cons, List.drop_succ_cons,
    Bool.and_assoc]

/-- The places of a rule. -/
def Rule.site (r : Rule A) (before after : List A) : Bool :=
  r.opening.isSuffixOf before && closes r.closing r.blocked after

/-- The places of several rules. -/
def anySite (rules : List (Rule A)) (before after : List A) : Bool :=
  rules.any fun r => r.site before after

/-- Several rules have no place where none of them has. -/
theorem anySite_eq_false_iff {rules : List (Rule A)} {before after : List A} :
    anySite rules before after = false ↔ ∀ r ∈ rules, r.site before after = false := by
  simp only [anySite, List.any_eq_false, Bool.not_eq_true]

variable {isOpener isCloser : A → Bool}

/-- Openers and closers tell the two sides of a place apart: what is before it ends in an
opener and has no closer, and what is behind it begins with a closer and has no opener. -/
structure Rule.WellFormed (isOpener isCloser : A → Bool) (r : Rule A) : Prop where
  opener : ∃ start last, r.opening = start ++ [last] ∧ isOpener last = true
  noCloser : ∀ a ∈ r.opening, isCloser a = false
  closer : ∃ first rest, r.closing = first :: rest ∧ isCloser first = true
  noOpener : ∀ a ∈ r.closing, isOpener a = false
  disjoint : ∀ a ∈ r.opening, a ∉ r.closing

/-- A place of a rule. -/
theorem Rule.site_iff {r : Rule A} {before after : List A} :
    r.site before after = true ↔
      r.opening <:+ before ∧ r.closing <+: after ∧
        (after.drop r.closing.length).head? ≠ some r.blocked := by
  simp [Rule.site, closes]

omit [DecidableEq A] in
/-- The closing of a rule begins with an element that is no opener, and has none behind it. -/
private theorem Rule.WellFormed.closing_eq {r : Rule A} (h : r.WellFormed isOpener isCloser) :
    ∃ first closing, r.closing = first :: closing ∧ isOpener first = false ∧
      ∀ a ∈ closing, isOpener a = false := by
  obtain ⟨first, closing, heq, -⟩ := h.closer
  have hnone := heq ▸ h.noOpener
  exact ⟨first, closing, heq, List.forall_mem_cons.mp hnone⟩

/-- There is no place behind an element that is not an opener. -/
theorem Rule.WellFormed.site_concat {r : Rule A} (h : r.WellFormed isOpener isCloser)
    (before after : List A) {a : A} (ha : isOpener a = false) :
    r.site (before ++ [a]) after = false := by
  rw [Bool.eq_false_iff, ne_eq, Rule.site_iff]
  rintro ⟨hopening, -⟩
  obtain ⟨start, last, heq, hlast⟩ := h.opener
  rw [heq] at hopening
  obtain ⟨front, hfront⟩ := hopening
  rw [← List.append_assoc] at hfront
  rw [(List.append_inj' hfront rfl).2 |> List.singleton_inj.mp, ha] at hlast
  exact Bool.false_ne_true hlast

/-- There is no place behind elements that are not openers. -/
theorem Rule.WellFormed.site_append {r : Rule A} (h : r.WellFormed isOpener isCloser)
    (before after : List A) {part : List A} (hne : part ≠ [])
    (hpart : ∀ a ∈ part, isOpener a = false) : r.site (before ++ part) after = false := by
  obtain ⟨start, last, rfl⟩ := List.eq_nil_or_concat part |>.resolve_left hne
  rw [List.concat_eq_append, ← List.append_assoc]
  exact h.site_concat _ _ (hpart last (by simp))

/-- There is no place at the end. -/
theorem Rule.WellFormed.site_nil {r : Rule A} (h : r.WellFormed isOpener isCloser)
    (before : List A) : r.site before [] = false := by
  rw [Bool.eq_false_iff, ne_eq, Rule.site_iff]
  rintro ⟨-, hclosing, -⟩
  obtain ⟨first, rest, heq, -⟩ := h.closer
  rw [heq] at hclosing
  exact absurd (List.prefix_nil.mp hclosing) (List.cons_ne_nil _ _)

/-- Inserting leaves nothing only where there was nothing. -/
theorem Rule.WellFormed.insertAll_eq_nil_iff {r : Rule A} (h : r.WellFormed isOpener isCloser)
    (word before after : List A) : insertAll r.site word before after = [] ↔ after = [] := by
  cases after with
  | nil => rw [insertAll, h.site_nil, if_neg Bool.false_ne_true]
  | cons a rest => simp [insertAll]

/-! ## One rule after the other -/

/-- Whether a rule applies depends on what is before only back to the last closer. -/
theorem Rule.WellFormed.site_congr {r : Rule A} (h : r.WellFormed isOpener isCloser)
    {before before' : List A} (after : List A)
    (hsame : before'.rtakeWhile (fun a => !isCloser a) = before.rtakeWhile fun a => !isCloser a) :
    r.site before' after = r.site before after := by
  have hsuffix (l : List A) : r.opening <:+ l ↔ r.opening <:+ l.rtakeWhile fun a => !isCloser a := by
    constructor
    · rintro ⟨front, rfl⟩
      rw [List.rtakeWhile, List.reverse_append, List.takeWhile_append_of_pos,
        List.reverse_append, List.reverse_reverse]
      · exact List.suffix_append _ _
      · intro a ha
        simp [h.noCloser a (List.mem_reverse.mp ha)]
    · exact fun hl => hl.trans (List.rtakeWhile_suffix _ _)
  have hopening : r.opening <:+ before' ↔ r.opening <:+ before := by
    rw [hsuffix before', hsame, ← hsuffix before]
  rw [Bool.eq_iff_iff, Rule.site_iff, Rule.site_iff, hopening]

/-- Behind an element that is not an opener, insertions do not change what rules look at. -/
private theorem closes_insertAll {site : List A → List A → Bool}
    (hsite : ∀ before after a, isOpener a = false → site (before ++ [a]) after = false)
    (word : List A) {closing : List A} (hclosing : ∀ a ∈ closing, isOpener a = false) (blocked : A)
    (before rest : List A) {a : A} (ha : isOpener a = false) :
    closes closing blocked (insertAll site word (before ++ [a]) rest) =
      closes closing blocked rest := by
  induction closing generalizing before rest a with
  | nil =>
    cases rest with
    | nil => rw [insertAll, hsite _ _ _ ha, if_neg Bool.false_ne_true]
    | cons b rest =>
      rw [insertAll, hsite _ _ _ ha, if_neg Bool.false_ne_true]
      rfl
  | cons c closing ih =>
    cases rest with
    | nil => rw [insertAll, hsite _ _ _ ha, if_neg Bool.false_ne_true]
    | cons b rest =>
      rw [insertAll, hsite _ _ _ ha, if_neg Bool.false_ne_true, List.nil_append]
      obtain ⟨hc, hclosing⟩ := List.forall_mem_cons.mp hclosing
      rw [closes_cons, closes_cons]
      by_cases hb : c = b
      · rw [ih hclosing _ _ (hb ▸ hc)]
      · rw [beq_eq_false_iff_ne.mpr hb, Bool.false_and, Bool.false_and]

/-- Whether a rule applies before an element that does not change is not changed by insertions. -/
theorem Rule.WellFormed.site_insertAll {site : List A → List A → Bool} {other : Rule A}
    (hsite : ∀ before after a, isOpener a = false → site (before ++ [a]) after = false)
    (hother : other.WellFormed isOpener isCloser)
    (word before front : List A) (a : A) (rest : List A) :
    other.site before (a :: insertAll site word (front ++ [a]) rest) =
      other.site before (a :: rest) := by
  obtain ⟨first, closing, heq, hfirst, hclosing⟩ := hother.closing_eq
  rw [Rule.site, Rule.site, heq, closes_cons, closes_cons]
  by_cases ha : first = a
  · rw [closes_insertAll hsite word hclosing _ _ _ (ha ▸ hfirst)]
  · rw [beq_eq_false_iff_ne.mpr ha, Bool.false_and, Bool.false_and]

/-- Neither rule's opening ends in the other's. -/
def Apart (r other : Rule A) : Prop :=
  ¬ r.opening <:+ other.opening ∧ ¬ other.opening <:+ r.opening

/-- Two rules that are apart do not apply at the same place, whatever is behind it. -/
private theorem Apart.site_eq_false {r other : Rule A} (h : Apart r other) {before : List A}
    {after : List A} (hsite : r.site before after = true) (after' : List A) :
    other.site before after' = false := by
  rw [Bool.eq_false_iff, ne_eq, Rule.site_iff]
  rintro ⟨hopening, -⟩
  cases List.suffix_or_suffix_of_suffix (Rule.site_iff.mp hsite).1 hopening with
  | inl hsuffix => exact h.1 hsuffix
  | inr hsuffix => exact h.2 hsuffix

/-- Inserting by several rules after inserting by one, generalised over what is before: where
the two sequences differ there is a closer. -/
private theorem insertAll_any_insertAll_aux {r : Rule A} {others : List (Rule A)} {word : List A}
    (h : r.WellFormed isOpener isCloser)
    (hothers : ∀ other ∈ others, other.WellFormed isOpener isCloser ∧ Apart r other)
    (hword : ∀ a ∈ word, isOpener a = false) {before before' : List A}
    (hsame : before'.rtakeWhile (fun a => !isCloser a) = before.rtakeWhile fun a => !isCloser a)
    (after : List A) :
    insertAll (anySite others) word before' (insertAll r.site word before after) =
      insertAll (anySite (r :: others)) word before after := by
  induction after generalizing before before' with
  | nil =>
    have hnone : anySite others before' [] = false :=
      anySite_eq_false_iff.mpr fun other hother => (hothers other hother).1.site_nil before'
    have hboth : anySite (r :: others) before [] = false :=
      anySite_eq_false_iff.mpr <| List.forall_mem_cons.mpr
        ⟨h.site_nil before, fun other hother => (hothers other hother).1.site_nil before⟩
    simp only [insertAll, h.site_nil before, hnone, hboth, Bool.false_eq_true, if_false]
  | cons a rest ih =>
    have hboth : anySite (r :: others) before (a :: rest) =
        (r.site before (a :: rest) || anySite others before (a :: rest)) := rfl
    rw [insertAll, insertAll, hboth]
    by_cases hsite : r.site before (a :: rest) = true
    · -- the word is passed over, and the element behind it is a closer
      have hplace : r.site before' (a :: rest) = true := (h.site_congr _ hsame).trans hsite
      have hpass (u after : List A) (hu : ∀ b ∈ u, isOpener b = false) :
          anySite others (before' ++ u) after = false := by
        rw [anySite_eq_false_iff]
        intro other hother
        by_cases hnil : u = []
        · rw [hnil, List.append_nil]
          exact (hothers other hother).2.site_eq_false hplace after
        · exact (hothers other hother).1.site_append before' after hnil hu
      have hcloser : isCloser a = true := by
        obtain ⟨first, closing, heq, hfirst⟩ := h.closer
        have hclosing := (Rule.site_iff.mp hsite).2.1
        rw [heq, List.cons_prefix_cons] at hclosing
        exact hclosing.1 ▸ hfirst
      rw [hsite, if_pos rfl, Bool.true_or, if_pos rfl, insertAll_append, insertAll,
        hpass word _ hword, if_neg Bool.false_ne_true, List.nil_append, ih]
      · rw [List.rtakeWhile_concat_neg _ _ _ (by simp [hcloser]),
          List.rtakeWhile_concat_neg _ _ _ (by simp [hcloser])]
      · intro u v heq _
        exact hpass u _ fun b hb => hword b (heq ▸ List.mem_append_left v hb)
    · have hplaces : anySite others before' (a :: insertAll r.site word (before ++ [a]) rest) =
          anySite others before (a :: rest) := by
        rw [Bool.eq_iff_iff, anySite, anySite, List.any_eq_true, List.any_eq_true]
        apply exists_congr
        intro other
        apply and_congr_right
        intro hother
        rw [(hothers other hother).1.site_insertAll fun before after _ => h.site_concat before after,
          (hothers other hother).1.site_congr _ hsame]
      rw [Bool.not_eq_true] at hsite
      rw [hsite, if_neg Bool.false_ne_true, List.nil_append, insertAll, hplaces, Bool.false_or, ih]
      by_cases hcloser : isCloser a = true
      · rw [List.rtakeWhile_concat_neg _ _ _ (by simp [hcloser]),
          List.rtakeWhile_concat_neg _ _ _ (by simp [hcloser])]
      · rw [List.rtakeWhile_concat_pos _ _ _ (by simp [hcloser]),
          List.rtakeWhile_concat_pos _ _ _ (by simp [hcloser]), hsame]

/-- Inserting by one rule and then by others is inserting by all of them at once. -/
theorem insertAll_any_insertAll {r : Rule A} {others : List (Rule A)} {word : List A}
    (h : r.WellFormed isOpener isCloser)
    (hothers : ∀ other ∈ others, other.WellFormed isOpener isCloser ∧ Apart r other)
    (hword : ∀ a ∈ word, isOpener a = false) (s : List A) :
    insertAll (anySite others) word [] (insertAll r.site word [] s) =
      insertAll (anySite (r :: others)) word [] s :=
  insertAll_any_insertAll_aux h hothers hword rfl s

/-- Inserting by one rule after the other is inserting by all of them at once. -/
theorem foldl_insertAll {rules : List (Rule A)} {word : List A}
    (h : ∀ r ∈ rules, r.WellFormed isOpener isCloser) (hapart : rules.Pairwise Apart)
    (hword : ∀ a ∈ word, isOpener a = false) (s : List A) :
    rules.foldl (fun s r => insertAll r.site word [] s) s = insertAll (anySite rules) word [] s := by
  induction rules generalizing s with
  | nil =>
    have hnone : insertAll (anySite []) word [] (s ++ []) = s ++ [] :=
      insertAll_append [] [] fun _ _ _ _ => rfl
    rw [List.append_nil] at hnone
    exact hnone.symm
  | cons r rules ih =>
    obtain ⟨hr, hrules⟩ := List.forall_mem_cons.mp h
    rw [List.pairwise_cons] at hapart
    rw [List.foldl_cons, ih hrules hapart.2]
    exact insertAll_any_insertAll hr (fun other hother => ⟨hrules other hother, hapart.1 other hother⟩)
      hword s

/-- The order of the rules makes no difference to their places. -/
theorem anySite_perm {rules others : List (Rule A)} (h : rules.Perm others) :
    anySite rules = anySite others := by
  funext before after
  exact h.any_eq

/-! ## Scanning for one rule -/

/-- No match of a rule begins in the first part of a sequence and reaches into the rest. -/
def NoStraddle (r : Rule A) (front rest : List A) : Prop :=
  ∀ u v, rest = u ++ v → r.opening <:+ front ++ u → r.closing <+: v →
    r.opening.length ≤ u.length

omit [DecidableEq A] in
/-- Nothing straddles the beginning. -/
theorem noStraddle_nil (r : Rule A) (rest : List A) : NoStraddle r [] rest := by
  intro u v _ hopening _
  exact hopening.length_le

/-- At a match, the word is inserted unless the match is blocked. -/
theorem insertAll_of_match {r : Rule A} (h : r.WellFormed isOpener isCloser) (word : List A)
    {front rest : List A} (hfront : NoStraddle r front (r.opening ++ r.closing ++ rest)) :
    insertAll r.site word front (r.opening ++ r.closing ++ rest) =
      r.opening ++ (if rest.head? = some r.blocked then [] else word) ++ r.closing ++
        insertAll r.site word (front ++ r.opening ++ r.closing) rest := by
  obtain ⟨first, closing, heq, hfirst, hclosing⟩ := h.closing_eq
  have hplace : r.site (front ++ r.opening) (first :: (closing ++ rest)) =
      decide (rest.head? ≠ some r.blocked) := by
    rw [Bool.eq_iff_iff, Rule.site_iff, heq, decide_eq_true_eq]
    have hdrop : (first :: (closing ++ rest)).drop (first :: closing).length = rest :=
      List.drop_left
    rw [hdrop]
    exact ⟨fun hsite => hsite.2.2, fun hblocked =>
      ⟨List.suffix_append _ _, List.prefix_append (first :: closing) rest, hblocked⟩⟩
  have hrest : insertAll r.site word (front ++ r.opening ++ [first]) (closing ++ rest) =
      closing ++ insertAll r.site word (front ++ r.opening ++ [first] ++ closing) rest := by
    apply insertAll_append
    intro u v hsplit _
    by_cases hnil : u = []
    · rw [hnil, List.append_nil]
      exact h.site_concat _ _ hfirst
    · exact h.site_append _ _ hnil fun b hb => hclosing b (hsplit ▸ List.mem_append_left v hb)
  rw [List.append_assoc, insertAll_append]
  · rw [heq, List.cons_append, insertAll, hplace, hrest]
    by_cases hblocked : rest.head? = some r.blocked
    · simp [hblocked]
    · simp [hblocked]
  · intro u v hsplit hne
    rw [Bool.eq_false_iff, ne_eq, Rule.site_iff]
    rintro ⟨hopening, hclosing, -⟩
    have hlength := hfront u (v ++ (r.closing ++ rest))
      (by rw [hsplit, List.append_assoc, List.append_assoc]) hopening hclosing
    have := congrArg List.length hsplit
    have := List.length_pos_of_ne_nil hne
    rw [List.length_append] at *
    omega

omit [DecidableEq A] in
/-- Behind a match, the rest is no part of another one. -/
theorem noStraddle_of_match {r : Rule A} (h : r.WellFormed isOpener isCloser)
    (front rest : List A) : NoStraddle r (front ++ r.opening ++ r.closing) rest := by
  intro u v _ hopening _
  by_contra hshort
  -- the opening would begin with the last element of the closing
  obtain ⟨start, last, hclosing⟩ : ∃ start last, r.closing = start ++ [last] := by
    obtain ⟨first, closing, heq, -⟩ := h.closer
    obtain ⟨start, last, hlast⟩ := List.eq_nil_or_concat r.closing |>.resolve_left
      (heq ▸ List.cons_ne_nil _ _)
    exact ⟨start, last, hlast.trans List.concat_eq_append⟩
  have hsuffix : [last] ++ u <:+ r.opening := by
    have hlast : [last] ++ u <:+ front ++ r.opening ++ r.closing ++ u := by
      rw [hclosing]
      exact ⟨front ++ r.opening ++ start, by simp⟩
    exact List.suffix_of_suffix_length_le hlast hopening (by simp; omega)
  have hmem : last ∈ r.opening := hsuffix.subset (by simp)
  exact h.disjoint last hmem (by simp [hclosing])

/-- Where there is no match, the scan goes on. -/
theorem insertAll_of_no_match {r : Rule A} (h : r.WellFormed isOpener isCloser) (word : List A)
    {front rest : List A} {a : A} (hfront : NoStraddle r front (a :: rest))
    (hnone : ¬ r.opening ++ r.closing <+: a :: rest) :
    insertAll r.site word front (a :: rest) = a :: insertAll r.site word (front ++ [a]) rest ∧
      NoStraddle r (front ++ [a]) rest := by
  obtain ⟨start, last, hopening, -⟩ := h.opener
  constructor
  · have hplace : r.site front (a :: rest) = false := by
      rw [Bool.eq_false_iff, ne_eq, Rule.site_iff]
      rintro ⟨hsuffix, hclosing, -⟩
      have := hfront [] (a :: rest) rfl (by rwa [List.append_nil]) hclosing
      rw [hopening] at this
      simp at this
    rw [insertAll, hplace, if_neg Bool.false_ne_true, List.nil_append]
  · intro u v hsplit hsuffix hclosing
    rw [List.append_assoc, List.singleton_append] at hsuffix
    have hlength := hfront (a :: u) v (congrArg _ hsplit) hsuffix hclosing
    by_contra hshort
    rw [List.length_cons] at hlength
    have heq : r.opening = a :: u := by
      apply List.IsSuffix.eq_of_length
      · exact List.suffix_of_suffix_length_le hsuffix (List.suffix_append front (a :: u)) hlength
      · rw [List.length_cons]
        omega
    apply hnone
    obtain ⟨rest', hrest⟩ := hclosing
    exact ⟨rest', by rw [heq, hsplit, ← hrest, List.append_assoc, List.cons_append]⟩

end Insertion
