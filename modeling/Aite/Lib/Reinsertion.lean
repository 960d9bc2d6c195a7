import Aite.Lib.Insertion
import Mathlib.Data.List.Pairwise

/-!
# Inserting a second word

A word is inserted at the places of some rules, and then a second one at the places that there are
now. Where the first word reads like what its rule looks for, its front is a place of the same rule
again, and the second word comes to stand in front of the first. Where it does not, the place is
gone. So both insertions together are one insertion of both words exactly when no place is lost.
-/

namespace Insertion

variable {A : Type*}

/-! ## Words that depend on the place -/

/-- Insert at each place the word for it. -/
def insertBy (word : List A → List A → List A) : List A → List A → List A
  | before, [] => word before []
  | before, a :: rest => word before (a :: rest) ++ a :: insertBy word (before ++ [a]) rest

/-- One word at all places. -/
theorem insertAll_eq_insertBy (site : List A → List A → Bool) (word before after : List A) :
    insertAll site word before after =
      insertBy (fun u v => if site u v then word else []) before after := by
  induction after generalizing before with
  | nil => rfl
  | cons a rest ih => rw [insertAll, insertBy, ih]

variable {f g : List A → List A → List A}

/-- Longer words make a longer sequence. -/
private theorem length_insertBy_le (hle : ∀ u v, (f u v).length ≤ (g u v).length)
    (before after : List A) : (insertBy f before after).length ≤ (insertBy g before after).length := by
  induction after generalizing before with
  | nil => exact hle before []
  | cons a rest ih =>
    simp only [insertBy, List.length_append, List.length_cons]
    exact Nat.add_le_add (hle _ _) (Nat.succ_le_succ (ih _))

/-- Words that are never longer make the same sequence only when they are the same everywhere. -/
theorem insertBy_eq_iff (hle : ∀ u v, (f u v).length ≤ (g u v).length) (before after : List A) :
    insertBy f before after = insertBy g before after ↔
      ∀ u v, after = u ++ v → f (before ++ u) v = g (before ++ u) v := by
  induction after generalizing before with
  | nil =>
    constructor
    · intro heq u v hsplit
      obtain ⟨rfl, rfl⟩ := List.append_eq_nil_iff.mp hsplit.symm
      rw [List.append_nil]
      exact heq
    · intro h
      have hnil := h [] [] rfl
      rwa [List.append_nil] at hnil
  | cons a rest ih =>
    constructor
    · intro heq
      have htotal := congrArg List.length heq
      have hrest := length_insertBy_le hle (before ++ [a]) rest
      have hfirst := hle before (a :: rest)
      simp only [insertBy, List.length_append, List.length_cons] at htotal
      obtain ⟨hhead, htail⟩ := List.append_inj heq (by omega)
      have hbehind := (ih _).mp (List.cons.inj htail).2
      intro u v hsplit
      cases u with
      | nil =>
        obtain rfl : a :: rest = v := hsplit
        rw [List.append_nil]
        exact hhead
      | cons b u =>
        obtain ⟨rfl, hrest⟩ := List.cons.inj hsplit
        have hplace := hbehind u v hrest
        rwa [List.append_assoc, List.singleton_append] at hplace
    · intro h
      have hfirst := h [] (a :: rest) rfl
      rw [List.append_nil] at hfirst
      have hbehind := (ih (before ++ [a])).mpr fun u v hsplit => by
        rw [List.append_assoc, List.singleton_append]
        exact h (a :: u) v (congrArg _ hsplit)
      rw [insertBy, insertBy, hfirst, hbehind]

/-! ## Two words by the same rules -/

variable [DecidableEq A] {isOpener isCloser : A → Bool} {rules : List (Rule A)}
  {inner : List A}

/-- A sequence has a place of a rule. -/
def HasPlace (r : Rule A) (s : List A) : Prop := ∃ u v, s = u ++ v ∧ r.site u v = true

instance (r : Rule A) (s : List A) : Decidable (HasPlace r s) :=
  decidable_of_iff
    ((List.range (s.length + 1)).any (fun k => r.site (s.take k) (s.drop k)) = true) <| by
    rw [List.any_eq_true]
    constructor
    · intro ⟨k, _, hsite⟩
      exact ⟨_, _, (List.take_append_drop k s).symm, hsite⟩
    · rintro ⟨u, v, rfl, hsite⟩
      have hlt : u.length < (u ++ v).length + 1 := by
        rw [List.length_append]
        omega
      exact ⟨u.length, List.mem_range.mpr hlt, by rwa [List.take_left, List.drop_left]⟩

/-- The front of a word reads like what is behind a place of a rule. -/
def Reopens (word : List A) (r : Rule A) : Prop := closes r.closing r.blocked word = true

instance (word : List A) (r : Rule A) : Decidable (Reopens word r) :=
  inferInstanceAs (Decidable (_ = _))

/-- Whether a word reads like what is behind a place does not depend on what is behind the word. -/
def Decides (word : List A) (r : Rule A) : Prop :=
  ∀ rest, closes r.closing r.blocked (word ++ rest) = closes r.closing r.blocked word

/-- The places that a word does not close. -/
def reopened (word : List A) (rules : List (Rule A)) : List (Rule A) :=
  rules.filter fun r => Reopens word r

/-- No two of the rules that are apart apply at one place. -/
private theorem eq_of_site (hapart : rules.Pairwise Apart) {r other : Rule A} (hr : r ∈ rules)
    (hother : other ∈ rules) {before after : List A} (hsite : r.site before after = true)
    (hopening : other.opening <:+ before) : r = other := by
  by_contra hne
  have : Std.Symm (@Apart A) := ⟨fun _ _ hab => ⟨hab.2, hab.1⟩⟩
  have happart := hapart.forall hr hother hne
  cases List.suffix_or_suffix_of_suffix (Rule.site_iff.mp hsite).1 hopening with
  | inl hsuffix => exact happart.1 hsuffix
  | inr hsuffix => exact happart.2 hsuffix

/-- Rules that tell the two sides of their places apart have no place behind what is no opener. -/
private theorem anySite_concat (h : ∀ r ∈ rules, r.WellFormed isOpener isCloser)
    (before after : List A) (a : A) (ha : isOpener a = false) :
    anySite rules (before ++ [a]) after = false :=
  anySite_eq_false_iff.mpr fun r hr => (h r hr).site_concat before after ha

/-- In front of a word that was inserted, there is a place exactly when the word reopens the one at
which it was inserted. -/
private theorem anySite_inserted (h : ∀ r ∈ rules, r.WellFormed isOpener isCloser)
    (hapart : rules.Pairwise Apart) (hdecides : ∀ r ∈ rules, Decides inner r)
    {before before' after : List A}
    (hsame : before'.rtakeWhile (fun a => !isCloser a) = before.rtakeWhile fun a => !isCloser a)
    (hsite : anySite rules before after = true) (rest : List A) :
    anySite rules before' (inner ++ rest) = anySite (reopened inner rules) before after := by
  obtain ⟨r, hr, hplace⟩ := List.any_eq_true.mp hsite
  have hplace' : r.site before' after = true := ((h r hr).site_congr after hsame).trans hplace
  rw [Bool.eq_iff_iff, anySite, anySite, List.any_eq_true, List.any_eq_true]
  constructor
  · rintro ⟨other, hother, hinserted⟩
    rw [Rule.site, hdecides other hother, Bool.and_eq_true, List.isSuffixOf_iff_suffix] at hinserted
    obtain rfl := eq_of_site hapart hr hother hplace' hinserted.1
    exact ⟨r, List.mem_filter.mpr ⟨hr, decide_eq_true hinserted.2⟩, hplace⟩
  · rintro ⟨other, hother, hreopened⟩
    obtain ⟨hother, hopens⟩ := List.mem_filter.mp hother
    obtain rfl := eq_of_site hapart hr hother hplace (Rule.site_iff.mp hreopened).1
    refine ⟨r, hr, ?_⟩
    rw [Rule.site, hdecides r hr, Bool.and_eq_true, List.isSuffixOf_iff_suffix]
    exact ⟨(Rule.site_iff.mp hplace').1, of_decide_eq_true hopens⟩

/-- Both insertions together, generalised over what is before: where the two sequences differ there
is a closer. -/
private theorem insertAll_insertAll_aux (h : ∀ r ∈ rules, r.WellFormed isOpener isCloser)
    (hapart : rules.Pairwise Apart) (hinner : inner ≠ [])
    (hword : ∀ a ∈ inner, isOpener a = false) (hdecides : ∀ r ∈ rules, Decides inner r)
    (outer : List A) {before before' : List A}
    (hsame : before'.rtakeWhile (fun a => !isCloser a) = before.rtakeWhile fun a => !isCloser a)
    (after : List A) :
    insertAll (anySite rules) outer before' (insertAll (anySite rules) inner before after) =
      insertBy (fun u v => if anySite rules u v then
        (if anySite (reopened inner rules) u v then outer else []) ++ inner else []) before after := by
  induction after generalizing before before' with
  | nil =>
    have hnone (u : List A) : anySite rules u [] = false :=
      anySite_eq_false_iff.mpr fun r hr => (h r hr).site_nil u
    simp only [insertAll, insertBy, hnone, Bool.false_eq_true, if_false]
  | cons a rest ih =>
    rw [insertAll, insertBy]
    by_cases hsite : anySite rules before (a :: rest) = true
    · -- the first word is passed over, and the element behind it is a closer
      have hcloser : isCloser a = true := by
        obtain ⟨r, hr, hplace⟩ := List.any_eq_true.mp hsite
        obtain ⟨first, closing, heq, hfirst⟩ := (h r hr).closer
        have hclosing := (Rule.site_iff.mp hplace).2.1
        rw [heq, List.cons_prefix_cons] at hclosing
        exact hclosing.1 ▸ hfirst
      have hpass (u after : List A) (hne : u ≠ []) (hu : ∀ b ∈ u, isOpener b = false) :
          anySite rules (before' ++ u) after = false :=
        anySite_eq_false_iff.mpr fun r hr => (h r hr).site_append before' after hne hu
      have hnext := anySite_inserted h hapart hdecides hsame hsite
        (a :: insertAll (anySite rules) inner (before ++ [a]) rest)
      obtain ⟨c, word, rfl⟩ := List.exists_cons_of_ne_nil hinner
      rw [hsite, if_pos rfl, if_pos rfl, ← hnext, List.cons_append, insertAll, insertAll_append,
        insertAll, List.append_assoc, List.singleton_append,
        hpass (c :: word) _ hinner hword, if_neg Bool.false_ne_true, List.nil_append, ih]
      · simp only [List.append_assoc, List.cons_append]
      · rw [List.rtakeWhile_concat_neg _ _ _ (by simp [hcloser]),
          List.rtakeWhile_concat_neg _ _ _ (by simp [hcloser])]
      · intro u v heq _
        rw [List.append_assoc, List.singleton_append]
        refine hpass (c :: u) _ (List.cons_ne_nil _ _) fun b hb => hword b ?_
        rw [heq]
        exact List.mem_append_left v hb
    · have hplaces : anySite rules before' (a :: insertAll (anySite rules) inner (before ++ [a]) rest) =
          anySite rules before (a :: rest) := by
        rw [Bool.eq_iff_iff, anySite, anySite, List.any_eq_true, List.any_eq_true]
        apply exists_congr
        intro r
        apply and_congr_right
        intro hr
        rw [(h r hr).site_insertAll (anySite_concat h), (h r hr).site_congr _ hsame]
      rw [Bool.not_eq_true] at hsite
      rw [hsite, if_neg Bool.false_ne_true, if_neg Bool.false_ne_true, List.nil_append, insertAll,
        hplaces, hsite, if_neg Bool.false_ne_true, ih]
      by_cases hcloser : isCloser a = true
      · rw [List.rtakeWhile_concat_neg _ _ _ (by simp [hcloser]),
          List.rtakeWhile_concat_neg _ _ _ (by simp [hcloser])]
      · rw [List.rtakeWhile_concat_pos _ _ _ (by simp [hcloser]),
          List.rtakeWhile_concat_pos _ _ _ (by simp [hcloser]), hsame]

/-- Inserting a word and then another one is inserting both at once exactly when the first word
reopens every place. -/
theorem insertAll_insertAll_iff (h : ∀ r ∈ rules, r.WellFormed isOpener isCloser)
    (hapart : rules.Pairwise Apart) (hinner : inner ≠ [])
    (hword : ∀ a ∈ inner, isOpener a = false) (hdecides : ∀ r ∈ rules, Decides inner r)
    (outer s : List A) :
    insertAll (anySite rules) outer [] (insertAll (anySite rules) inner [] s) =
        insertAll (anySite rules) (outer ++ inner) [] s ↔
      outer = [] ∨ ∀ r ∈ rules, HasPlace r s → Reopens inner r := by
  rw [insertAll_insertAll_aux h hapart hinner hword hdecides outer rfl, insertAll_eq_insertBy,
    insertBy_eq_iff]
  · have hplace (u v : List A) :
        ((if anySite rules u v = true then
            (if anySite (reopened inner rules) u v = true then outer else []) ++ inner else []) =
          if anySite rules u v = true then outer ++ inner else []) ↔
        outer = [] ∨ (anySite rules u v = true → anySite (reopened inner rules) u v = true) := by
      by_cases hsite : anySite rules u v = true
      · by_cases hopens : anySite (reopened inner rules) u v = true
        · simp [hsite, hopens]
        · simp [hsite, hopens]
      · simp [hsite]
    simp only [List.nil_append, hplace]
    constructor
    · intro hall
      rw [or_iff_not_imp_left]
      intro houter r hr hplace
      obtain ⟨u, v, hsplit, hsite⟩ := hplace
      have hopens := ((hall u v hsplit).resolve_left houter) (List.any_eq_true.mpr ⟨r, hr, hsite⟩)
      obtain ⟨other, hother, hothersite⟩ := List.any_eq_true.mp hopens
      obtain ⟨hmem, hreopens⟩ := List.mem_filter.mp hother
      obtain rfl := eq_of_site hapart hr hmem hsite (Rule.site_iff.mp hothersite).1
      exact of_decide_eq_true hreopens
    · intro hall u v hsplit
      refine hall.imp_right fun hall hsite => ?_
      obtain ⟨r, hr, hplace⟩ := List.any_eq_true.mp hsite
      exact List.any_eq_true.mpr ⟨r, List.mem_filter.mpr
        ⟨hr, decide_eq_true (hall r hr ⟨u, v, hsplit, hplace⟩)⟩, hplace⟩
  · intro u v
    split_ifs
    · exact le_refl _
    · simp
    · exact le_refl _

end Insertion
