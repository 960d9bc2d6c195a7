import Aite.Config.ParseRun

/-!
# The verdict of the config parser

The parser accepts every valid file that leads to no undefined behaviour. It also accepts a
valid file with one more byte behind it: a bare word of one byte at the very end of the file is
not a token for it. Other words at the end are, so nothing else is ignored, as long as no
carriage return hides a comment or a quoted string.
-/

namespace Aite.Config

open BlockGrammar

/-- A valid config and, at the very end of the file, a bare word of one byte. -/
def OneByteTail (file : Text) : Prop :=
  ∃ toks c, LexesTo endsBare file toks [c] ∧ classify c = .bare ∧
    ∃ b : Block Word, b.Proper ∧ b.flatten = toks

/-- The parser returns true exactly when the file is valid. -/
def VerdictIsValidity (file : Text) : Prop :=
  ∃ verdict store, parseText file = .ok (verdict, store) ∧ (verdict = true ↔ Valid file)

variable {file t r : Text} {toks : List (Sym Word)} {ends : UInt8 → Bool}

/-- What is behind the items of a text is its end. -/
theorem LexStep.suffix {item : List (Sym Word)} (h : LexStep ends t item r) : r <:+ t := by
  cases h with
  | comment => exact (List.dropWhile_suffix _).trans (List.suffix_cons _ _)
  | bare => exact (List.dropWhile_suffix _).trans (List.suffix_cons _ _)
  | @quoted c d rest body after _ hrest =>
    rw [hrest]
    exact ⟨c :: (body ++ [c]), by simp⟩
  | _ => exact List.suffix_cons _ _

/-- What is behind the items of a text is its end. -/
theorem LexesTo.suffix (h : LexesTo ends t toks r) : r <:+ t := by
  induction h with
  | refl => exact List.suffix_refl _
  | head hstep _ ih => exact ih.trans hstep.suffix

/-- Without carriage returns there is none that hides anything. -/
theorem safeReturns_of_notMem (h : '\r'.toUInt8 ∉ file) : SafeReturns file := by
  intro toks s w r hlex hword _
  have hmem : ∀ c ∈ w, c ∈ file := by
    cases hword with
    | @bare c rest hc =>
      intro d hd
      apply hlex.suffix.subset
      cases hd with
      | head => exact List.mem_cons_self
      | tail _ hd => exact List.mem_cons_of_mem _ ((List.takeWhile_prefix _).subset hd)
  have hnot : ∀ c ∈ w, c ≠ '\r'.toUInt8 := fun c hc hreturn => h (hreturn ▸ hmem c hc)
  clear hword hmem
  induction w with
  | nil => exact List.isChain_nil
  | cons c w ih =>
    refine List.isChain_cons.mpr ⟨fun d _ hc => absurd hc (hnot c List.mem_cons_self), ?_⟩
    exact ih fun d hd => hnot d (List.mem_cons_of_mem c hd)

/-- A file whose items are not statements and blocks is not valid. -/
theorem not_valid_of_lexesTo (h : LexesTo endsBare file toks [])
    (haccepts : accepts false 0 toks = false) : ¬ Valid file := by
  intro hvalid
  obtain ⟨others, hlex, hblock⟩ := hvalid
  rw [← h.unique hlex] at hblock
  have htrue := accepts_iff.mpr hblock
  rw [haccepts] at htrue
  cases htrue

/-- A word at the end of a file makes it invalid. -/
theorem not_valid_of_tail (h : OneByteTail file) : ¬ Valid file := by
  obtain ⟨toks, c, hlex, hc, -⟩ := h
  have hword : LexStep endsBare [c] [.word (.bare [c])] [] := .bare hc
  apply not_valid_of_lexesTo (hlex.trans (.single hword))
  by_contra haccepts
  rw [Bool.not_eq_false] at haccepts
  exact getLast_of_accepts haccepts (.bare [c]) List.getLast?_concat

/-- What the parser accepts is valid up to a bare word of one byte at the end. -/
theorem valid_or_tail_of_parse (hreturns : SafeReturns file) {store : Store}
    (h : parseText file = .ok (true, store)) : Valid file ∨ OneByteTail file := by
  obtain ⟨n, lexemes, complete, r, -, hlex, hend, hreturned⟩ := exists_read file
  cases hreturned with
  | inr hfault =>
    rw [hfault.1] at h
    cases h
  | inl hok =>
    obtain ⟨store, hok, -⟩ := hok
    rw [hok] at h
    have hverdict : (complete && accepts false 0 _) = true := congrArg Prod.fst (Except.ok.inj h)
    rw [Bool.and_eq_true] at hverdict
    obtain ⟨rfl, haccepted⟩ := hverdict
    obtain ⟨others, hothers, halike⟩ := lexesTo_bare hlex hreturns (viable_of_accepts haccepted)
    have haccepts := halike false 0 []
    rw [List.append_nil, List.append_nil, haccepted] at haccepts
    have hblock := accepts_iff.mp haccepts.symm
    cases hend with
    | inl hend =>
      subst hend
      exact .inl ⟨others, hothers, hblock⟩
    | inr hend =>
      obtain ⟨c, hc, rfl⟩ := hend
      exact .inr ⟨others, c, hothers, hc, hblock⟩

/-- The parser accepts a valid config, also with a bare word of one byte at the end. -/
theorem parse_of_lexesTo (hdefined : ∀ f, parseText file ≠ .error (.fault f))
    (hreturns : SafeReturns file) (hlex : LexesTo endsBare file toks r)
    (hend : r = [] ∨ ∃ c, classify c = .bare ∧ r = [c])
    (hblock : ∃ b : Block Word, b.Proper ∧ b.flatten = toks) :
    ∃ store, parseText file = .ok (true, store) := by
  have haccepts := accepts_iff.mpr hblock
  obtain ⟨others, hothers, halike⟩ := lexesTo_normal hlex (getLast_of_accepts haccepts) hreturns
    (viable_of_accepts haccepts)
  have haccepts' := halike false 0 []
  rw [List.append_nil, List.append_nil, haccepts] at haccepts'
  have hend' : (r = [] ∧ EndsStatement others) ∨ ∃ c, classify c = .bare ∧ r = [c] :=
    hend.imp_left fun h => ⟨h, getLast_of_accepts haccepts'⟩
  obtain ⟨n, hn, hscan⟩ := scan_of_lexesTo hothers hend' (s := .ofText file) (.inl ⟨[], rfl⟩)
  cases parseText_returns hscan (Nat.le_succ_of_le hn) with
  | inl hok =>
    obtain ⟨store, hok, -⟩ := hok
    rw [accepts_map, haccepts'] at hok
    exact ⟨store, hok⟩
  | inr hfault => exact absurd hfault.1 (hdefined _)

/-- When no carriage return hides a comment or a quoted string, the parser returns true exactly
for the valid files if and only if the file does not end with a bare word of one byte behind a
valid config. -/
theorem verdictIsValidity_iff (hdefined : ∀ f, parseText file ≠ .error (.fault f))
    (hreturns : SafeReturns file) : VerdictIsValidity file ↔ ¬ OneByteTail file := by
  constructor
  · intro hverdict htail
    obtain ⟨verdict, store, hparse, hvalid⟩ := hverdict
    obtain ⟨toks, c, hlex, hc, hblock⟩ := id htail
    obtain ⟨store', hparse'⟩ :=
      parse_of_lexesTo hdefined hreturns hlex (.inr ⟨c, hc, rfl⟩) hblock
    rw [hparse] at hparse'
    have htrue : verdict = true := congrArg Prod.fst (Except.ok.inj hparse')
    exact not_valid_of_tail htail (hvalid.mp htrue)
  · intro htail
    obtain ⟨verdict, store, hparse⟩ := (parseText_cases file).resolve_right (hdefined _)
    refine ⟨verdict, store, hparse, fun htrue => ?_, fun hvalid => ?_⟩
    · subst htrue
      exact (valid_or_tail_of_parse hreturns hparse).resolve_right htail
    · obtain ⟨toks, hlex, hblock⟩ := hvalid
      obtain ⟨store', hparse'⟩ := parse_of_lexesTo hdefined hreturns hlex (.inl rfl) hblock
      rw [hparse] at hparse'
      exact congrArg Prod.fst (Except.ok.inj hparse')

/-- The verdict on a statement with a quoted string is its validity. -/
theorem verdictIsValidity_quoted : VerdictIsValidity (text "foo \"bar\";") := by
  have hparse : parseText (text "foo \"bar\";") =
      .ok (true, [⟨[⟨[text "foo", text "\"bar\""], none⟩]⟩]) := rfl
  have hdefined : ∀ f, parseText (text "foo \"bar\";") ≠ .error (.fault f) := by
    intro f h
    rw [hparse] at h
    cases h
  refine (verdictIsValidity_iff hdefined (safeReturns_of_notMem (by decide))).mpr fun htail => ?_
  obtain ⟨toks, c, hlex, hc, -⟩ := htail
  obtain ⟨front, hfront⟩ := hlex.suffix
  have hlast := congrArg List.getLast? hfront
  rw [List.getLast?_concat] at hlast
  have hstop : c = ';'.toUInt8 := Option.some.inj hlast
  rw [hstop] at hc
  cases hc

/-- A one-byte word behind the last statement is ignored, so an invalid file is accepted. -/
theorem not_verdictIsValidity_tail : ∃ file, (∀ f, parseText file ≠ .error (.fault f)) ∧
    ¬ VerdictIsValidity file := by
  have hparse : parseText (text "a;b") = .ok (true, [⟨[⟨[text "a"], none⟩]⟩]) := rfl
  refine ⟨text "a;b", ?_, fun hverdict => ?_⟩
  · intro f h
    rw [hparse] at h
    cases h
  · obtain ⟨verdict, store, hok, hvalid⟩ := hverdict
    have htrue : verdict = true := by
      rw [hparse] at hok
      exact (congrArg Prod.fst (Except.ok.inj hok)).symm
    have ha : LexStep endsBare (text "a;b") [.word (.bare (text "a"))] (text ";b") := .bare rfl
    have hstop : LexStep endsBare (text ";b") [.stop] (text "b") := .stop rfl
    have hb : LexStep endsBare (text "b") [.word (.bare (text "b"))] [] := .bare rfl
    exact not_valid_of_lexesTo (.head ha (.head hstop (.single hb))) rfl (hvalid.mp htrue)

/-- A carriage return that hides a comment makes the parser accept an unfinished statement. -/
example : (∃ store, parseText (text "a\r#;") = .ok (true, store)) ∧ ¬ Valid (text "a\r#;") := by
  refine ⟨⟨_, rfl⟩, ?_⟩
  have ha : LexStep endsBare (text "a\r#;") [.word (.bare (text "a"))] (text "\r#;") := .bare rfl
  have hspace : LexStep endsBare (text "\r#;") [] (text "#;") := .space rfl
  have hcomment : LexStep endsBare (text "#;") [] [] := .comment rfl
  exact not_valid_of_lexesTo (.head ha (.head hspace (.single hcomment))) rfl

end Aite.Config
