import Aite.Config.Validity

/-!
# Quoted strings without a statement

A quoted string never opens a statement. Where it comes first in the file or in a block, there is
no statement it could be appended to, and the parser appends it nevertheless. This is the only
undefined behaviour of the parser, and it happens exactly when the parser gets to such a string.
-/

namespace Aite.Config

open BlockGrammar

/-- A quoted string comes first in a block, behind symbols with which a config can go on. At the
beginning a block may or may not have a statement. -/
def StartsQuoted (fresh : Prop) (inside : Bool) (depth : ℕ) (toks : List (Sym Token)) : Prop :=
  ∃ before v after, toks = before ++ .word v :: after ∧ v.starts = false ∧
    (∃ more, accepts inside depth (before ++ more) = true) ∧
    (before.getLast? = some .enter ∨ (before = [] ∧ fresh))

/-- A quoted string is the first item of the file or of a block, and the items before it are the
beginning of a config. -/
def OpensWithQuoted (file : Text) : Prop :=
  ∃ before quote body r,
    LexesTo endsNormal file (before ++ [.word (.quoted quote body)]) r ∧
      (before.getLast? = some .enter ∨ before = []) ∧
      ∃ (b : Block Word) (more : List (Sym Word)), b.Proper ∧ b.flatten = before ++ more

variable {root : Addr} {s : ParseState} {inside : Bool} {depth deeper fuel n : ℕ}
  {b next : Builder Text} {token_type : TokenType} {v : Text} {behind file : IStream}
  {tok : Sym Token} {toks : List (Sym Token)} {complete : Bool} {fresh : Prop}

/-! ## Symbols that are read -/

/-- Outside a statement a config can end once its blocks do. -/
private theorem accepts_leaves (depth : ℕ) :
    accepts false depth (List.replicate depth (.leave : Sym Token)) = true := by
  induction depth with
  | zero => rfl
  | succ depth ih => exact ih

/-- A word can always be read. -/
private theorem accepts_word (inside : Bool) (depth : ℕ) (v : Token) :
    accepts inside depth (.word v :: .stop :: List.replicate depth .leave) = true :=
  accepts_leaves depth

/-- Behind a symbol that is refused nothing comes first in a block. -/
private theorem not_startsQuoted_of_refused
    (hrefused : ∀ rest, accepts inside depth (tok :: rest) = false) :
    ¬ StartsQuoted fresh inside depth (tok :: toks) := by
  rintro ⟨before, v, after, htoks, -, hmore, -⟩
  cases before with
  | nil =>
    obtain ⟨rfl, -⟩ := List.cons.inj htoks
    have hword := accepts_word inside depth v
    rw [hrefused] at hword
    cases hword
  | cons first before =>
    obtain ⟨rfl, -⟩ := List.cons.inj htoks
    obtain ⟨more, hmore⟩ := hmore
    rw [List.cons_append, hrefused] at hmore
    cases hmore

/-- Of the symbols that are read only an open bracket leaves the innermost block without a
statement. -/
private theorem last_eq_none_iff
    (hstep : Builder.step Token.starts Token.value inside b tok = some next)
    (hstop : tok = .stop → b.last ≠ none) : next.last = none ↔ tok = .enter := by
  cases tok with
  | word v =>
    have hsome : next.last ≠ none := by
      rw [Builder.step] at hstep
      split at hstep
      · rw [← Option.some.inj hstep]
        exact Option.some_ne_none _
      · obtain ⟨last, -, rfl⟩ := Option.map_eq_some_iff.mp hstep
        exact Option.some_ne_none _
    simp [hsome]
  | stop =>
    obtain rfl : b = next := Option.some.inj hstep
    simp [hstop rfl]
  | enter =>
    obtain ⟨last, -, rfl⟩ := Option.map_eq_some_iff.mp hstep
    simp
  | leave =>
    have hsome : next.last ≠ none := by
      rw [Builder.step, Builder.leave] at hstep
      cases houter : b.outer with
      | nil => simp [houter] at hstep
      | cons frame outer =>
        simp only [houter, Option.some.injEq] at hstep
        rw [← hstep]
        exact Option.some_ne_none _
    simp [hsome]

/-- A symbol that is read is passed over. -/
private theorem startsQuoted_cons
    (hstep : Builder.step Token.starts Token.value inside b tok = some next)
    (hstarted : inside = true → b.last ≠ none)
    (haccepts : ∀ rest, accepts inside depth (tok :: rest) = accepts tok.isWord deeper rest) :
    StartsQuoted (b.last = none) inside depth (tok :: toks) ↔
      StartsQuoted (next.last = none) tok.isWord deeper toks := by
  constructor
  · rintro ⟨before, v, after, htoks, hv, ⟨more, hmore⟩, hplace⟩
    cases before with
    | nil =>
      -- such a string would not have been read
      obtain ⟨rfl, -⟩ := List.cons.inj htoks
      have hlast : b.last = none := (hplace.resolve_left (by simp)).2
      rw [Builder.step, if_neg (by simp [hv]), Builder.addWord, hlast] at hstep
      cases hstep
    | cons first before =>
      obtain ⟨rfl, rfl⟩ := List.cons.inj htoks
      refine ⟨before, v, after, rfl, hv, ⟨more, (haccepts _).symm.trans hmore⟩, ?_⟩
      cases before with
      | nil =>
        have henter : tok = .enter := by simpa using hplace
        subst henter
        exact .inr ⟨rfl, (last_eq_none_iff hstep (by simp)).mpr rfl⟩
      | cons second before =>
        rw [List.getLast?_cons_cons] at hplace
        exact .inl (hplace.resolve_right (by simp))
  · rintro ⟨before, v, after, rfl, hv, ⟨more, hmore⟩, hplace⟩
    have hmore' := (haccepts _).trans hmore
    refine ⟨tok :: before, v, after, rfl, hv, ⟨more, hmore'⟩, .inl ?_⟩
    cases before with
    | nil =>
      have hlast : next.last = none := (hplace.resolve_left (by simp)).2
      have hstop : tok = .stop → b.last ≠ none := by
        rintro rfl
        apply hstarted
        simp only [List.nil_append, accepts, Bool.and_eq_true] at hmore'
        exact hmore'.1
      rw [(last_eq_none_iff hstep hstop).mp hlast]
      rfl
    | cons second before =>
      rw [List.getLast?_cons_cons]
      exact hplace.resolve_right (by simp)

/-! ## The loop -/

/-- A symbol and those behind it, from what the loop does behind it. -/
private theorem Handled.fault_iff
    (hhandled : Handled root inside depth b file tok
      (onToken token_type v { s with config_file := behind }))
    (h : Tracks root s inside depth b)
    (htoken : parseToken s.config_file = .ok (token_type, v, behind)) (hpos : 0 < n)
    (hfuel : n + 1 ≤ fuel)
    (hrest : ∀ {t : ParseState} {deeper : ℕ} {next : Builder Text}, t.config_file = file →
      Tracks root t tok.isWord deeper next →
      (parseLoop (fuel - 1) t = .error (.fault .backOfEmpty) ↔
        StartsQuoted (next.last = none) tok.isWord deeper toks)) :
    parseLoop fuel s = .error (.fault .backOfEmpty) ↔
      StartsQuoted (b.last = none) inside depth (tok :: toks) := by
  rw [parseLoop_token h htoken (Nat.zero_lt_of_lt hfuel)]
  revert hhandled
  generalize onToken token_type v { s with config_file := behind } = result
  intro hhandled
  cases hhandled with
  | read hfile hstep htracks haccepts =>
    rw [startsQuoted_cons hstep h.started haccepts]
    exact hrest hfile htracks
  | @missing v htok hlast hstarts =>
    have hinside : inside = false := by
      cases inside with
      | false => rfl
      | true => exact absurd hlast (h.started rfl)
    have hstarts' : StartsQuoted (b.last = none) inside depth (tok :: toks) :=
      ⟨[], v, toks, by rw [htok, List.nil_append], hstarts,
        ⟨_, hinside ▸ accepts_leaves depth⟩, .inr ⟨rfl, hlast⟩⟩
    exact ⟨fun _ => hstarts', fun _ => rfl⟩
  | refused hrefused =>
    have hnot : ¬ StartsQuoted (b.last = none) inside depth (tok :: toks) :=
      not_startsQuoted_of_refused hrefused
    constructor
    · intro hfault
      cases hfault
    · exact fun hstarts => absurd hstarts hnot
  | @unopened t hcounter hrefused =>
    have hnot : ¬ StartsQuoted (b.last = none) inside depth (tok :: toks) :=
      not_startsQuoted_of_refused hrefused
    have hloop : parseLoop (fuel - 1) t = .ok (false, t.store) := by
      have hleft : 0 < fuel - 1 := hpos.trans_le (Nat.le_sub_one_of_lt hfuel)
      cases hleft' : fuel - 1 with
      | zero => omega
      | succ fuel =>
        rw [parseLoop, parseStep, if_pos hcounter]
        rfl
    change parseLoop (fuel - 1) t = _ ↔ _
    rw [hloop]
    constructor
    · intro hfault
      cases hfault
    · exact fun hstarts => absurd hstarts hnot

/-- Without tokens there is no undefined behaviour. -/
private theorem fault_iff_nil {result : Run (Bool × Store)} {verdict : Bool}
    (h : Returns root result verdict (build Token.starts Token.value inside b [])) :
    result = .error (.fault .backOfEmpty) ↔ StartsQuoted fresh inside depth [] := by
  constructor
  · intro hfault
    cases h with
    | inl hok =>
      obtain ⟨store, hok, -⟩ := hok
      rw [hfault] at hok
      cases hok
    | inr hnone => cases hnone.2
  · rintro ⟨before, v, after, htoks, -⟩
    simp at htoks

/-- The loop uses a statement that does not exist exactly when it gets to a quoted string that
comes first in a block. -/
theorem parseLoop_fault_iff (hscan : Scan n file toks complete) (hfile : s.config_file = file)
    (hfuel : n ≤ fuel) (h : Tracks root s inside depth b) :
    parseLoop fuel s = .error (.fault .backOfEmpty) ↔
      StartsQuoted (b.last = none) inside depth toks := by
  induction hscan generalizing s fuel inside depth b with
  | eof htoken => exact fault_iff_nil (parseLoop_returns (.eof htoken) hfile hfuel h)
  | error htoken => exact fault_iff_nil (parseLoop_returns (.error htoken) hfile hfuel h)
  | unfollowed htoken hnot =>
    exact fault_iff_nil (parseLoop_returns (.unfollowed htoken hnot) hfile hfuel h)
  | comment htoken hscan ih =>
    subst hfile
    rw [parseLoop_token h htoken (Nat.zero_lt_of_lt hfuel)]
    exact ih rfl (Nat.le_sub_one_of_lt hfuel) (h.withFile _)
  | normal htoken hscan ih =>
    subst hfile
    exact (handled_normal (h.withFile _) _).fault_iff h htoken hscan.pos hfuel
      fun hfile htracks => ih hfile (Nat.le_sub_one_of_lt hfuel) htracks
  | quoted htoken hfollowed hscan ih =>
    subst hfile
    exact (handled_quoted (h.withFile _) hfollowed _).fault_iff h htoken hscan.pos hfuel
      fun hfile htracks => ih hfile (Nat.le_sub_one_of_lt hfuel) htracks
  | stop htoken hscan ih =>
    subst hfile
    exact (handled_stop (h.withFile _)).fault_iff h htoken hscan.pos hfuel
      fun hfile htracks => ih hfile (Nat.le_sub_one_of_lt hfuel) htracks
  | enter htoken hscan ih =>
    subst hfile
    exact (handled_enter (h.withFile _)).fault_iff h htoken hscan.pos hfuel
      fun hfile htracks => ih hfile (Nat.le_sub_one_of_lt hfuel) htracks
  | leave htoken hscan ih =>
    subst hfile
    exact (handled_leave (h.withFile _)).fault_iff h htoken hscan.pos hfuel
      fun hfile htracks => ih hfile (Nat.le_sub_one_of_lt hfuel) htracks

/-! ## Files -/

variable {t r mid rest : Text} {lexemes others : List (Sym Word)} {ends : UInt8 → Bool}

/-- An item is at most one symbol. -/
private theorem LexStep.length_le {item : List (Sym Word)} (h : LexStep ends t item mid) :
    item.length ≤ 1 := by
  cases h with
  | space => exact Nat.zero_le 1
  | comment => exact Nat.zero_le 1
  | _ => exact Nat.le_refl 1

/-- The first ones of some items are read first. -/
theorem LexesTo.split (h : LexesTo ends t (lexemes ++ others) r) :
    ∃ mid, LexesTo ends t lexemes mid ∧ LexesTo ends mid others r := by
  generalize hall : lexemes ++ others = all at h
  induction h generalizing lexemes with
  | refl =>
    obtain ⟨rfl, rfl⟩ := List.append_eq_nil_iff.mp hall
    exact ⟨_, .refl, .refl⟩
  | @head t mid rest item toks hstep htail ih =>
    cases lexemes with
    | nil =>
      rw [List.nil_append] at hall
      rw [hall]
      exact ⟨t, .refl, .head hstep htail⟩
    | cons first lexemes =>
      cases item with
      | nil =>
        obtain ⟨between, hfirst, hothers⟩ := ih hall
        exact ⟨between, .head hstep hfirst, hothers⟩
      | cons sym item =>
        obtain rfl : item = [] := by
          have hle := hstep.length_le
          rw [List.length_cons] at hle
          exact List.length_eq_zero_iff.mp (by omega)
        obtain ⟨rfl, hrest⟩ := List.cons.inj hall
        obtain ⟨between, hlexemes, hothers⟩ := ih hrest
        exact ⟨between, .head hstep hlexemes, hothers⟩

/-- What the tokenizer leaves has no quoted string in front of it. -/
private theorem getLast_of_leaves {more : List (Sym Word)} (hleaves : Leaves complete r)
    (h : LexesTo endsNormal r more rest) {quote : UInt8} {body : Text} :
    more.getLast? ≠ some (.word (.quoted quote body)) := by
  intro hlast
  cases h with
  | refl => cases hlast
  | head hstep htail =>
    cases complete with
    | false => exact hleaves _ _ hstep
    | true =>
      cases hleaves with
      | inl hr =>
        subst hr
        cases hstep
      | inr hr =>
        obtain ⟨c, hc, rfl⟩ := hr
        cases hstep with
        | bare _ =>
          obtain ⟨rfl, -⟩ := htail.eq_nil
          simp at hlast
        | quoted hquote => cases hc.symm.trans hquote
        | _ h => cases hc.symm.trans h

/-- A token that does not open a statement is made of a quoted string. -/
private theorem quoted_of_not_starts {w : Word} (h : w.token.starts = false) :
    ∃ quote body, w = .quoted quote body := by
  cases w with
  | bare spelling => cases h
  | quoted quote body => exact ⟨quote, body, rfl⟩

/-- Words that are replaced twice. -/
private theorem symMap_comp {U V W : Type} (f : V → W) (g : U → V) :
    BlockGrammar.Sym.map f ∘ BlockGrammar.Sym.map g = BlockGrammar.Sym.map (f ∘ g) := by
  funext sym
  cases sym <;> rfl

/-- The first of some symbols can be read when a config begins with them. -/
private theorem exists_more_iff {before : List (Sym Word)} :
    (∃ more, accepts false 0 (before.map (BlockGrammar.Sym.map Word.token) ++ more) = true) ↔
      ∃ (b : Block Word) (more : List (Sym Word)), b.Proper ∧ b.flatten = before ++ more := by
  constructor
  · rintro ⟨more, hmore⟩
    -- only the places of the words matter
    have hwords : accepts false 0
        (before ++ more.map (BlockGrammar.Sym.map fun v => Word.bare v.value)) = true := by
      rw [← accepts_map fun _ : Token => (), List.map_append, List.map_map, symMap_comp] at hmore
      rw [← accepts_map fun _ : Word => (), List.map_append, List.map_map, symMap_comp]
      exact hmore
    obtain ⟨b, hb, hflatten⟩ := accepts_iff.mp hwords
    exact ⟨b, _, hb, hflatten⟩
  · rintro ⟨b, more, hb, hflatten⟩
    refine ⟨more.map (BlockGrammar.Sym.map Word.token), ?_⟩
    rw [← List.map_append, accepts_map]
    exact accepts_iff.mpr ⟨b, hb, hflatten⟩

/-- Replacing the words keeps the place of the open brackets. -/
private theorem getLast_map_eq_enter_iff {before : List (Sym Word)} :
    (before.map (BlockGrammar.Sym.map Word.token)).getLast? = some .enter ↔
      before.getLast? = some .enter := by
  rw [List.getLast?_map]
  cases before.getLast? with
  | none => simp
  | some sym => cases sym <;> simp [BlockGrammar.Sym.map]

/-- The tokens of a file come to a quoted string that comes first in a block exactly when its items
do. -/
private theorem startsQuoted_iff (hlex : LexesTo endsNormal t lexemes r)
    (hleaves : Leaves complete r) :
    StartsQuoted True false 0 (lexemes.map (BlockGrammar.Sym.map Word.token)) ↔
      OpensWithQuoted t := by
  constructor
  · rintro ⟨before, v, after, htoks, hv, hmore, hplace⟩
    obtain ⟨first, rest, rfl, rfl, hrest⟩ := List.map_eq_append_iff.mp htoks
    obtain ⟨sym, rest, rfl, hsym, -⟩ := List.map_eq_cons_iff.mp hrest
    cases sym with
    | word w =>
      obtain rfl : w.token = v := Sym.word.inj hsym
      obtain ⟨quote, body, rfl⟩ := quoted_of_not_starts hv
      rw [List.append_cons] at hlex
      obtain ⟨mid, hmid, -⟩ := hlex.split
      refine ⟨first, quote, body, mid, hmid, ?_, exists_more_iff.mp hmore⟩
      rw [getLast_map_eq_enter_iff, List.map_eq_nil_iff, and_true] at hplace
      exact hplace
    | _ => cases hsym
  · rintro ⟨before, quote, body, r', hlex', hplace, hblock⟩
    have hsplit : ∃ after, lexemes = before ++ .word (.quoted quote body) :: after := by
      cases hlex.linear hlex' with
      | inl hmore =>
        obtain ⟨more, hall, hmore⟩ := hmore
        by_cases hempty : more = []
        · rw [hempty, List.append_nil] at hall
          exact ⟨[], hall.symm⟩
        · have hlast := congrArg List.getLast? hall
          rw [List.getLast?_concat, List.getLast?_append_of_ne_nil _ hempty] at hlast
          exact absurd hlast.symm (getLast_of_leaves hleaves hmore)
      | inr hmore =>
        obtain ⟨more, rfl, -⟩ := hmore
        exact ⟨more, by rw [List.append_assoc, List.singleton_append]⟩
    obtain ⟨after, rfl⟩ := hsplit
    refine ⟨before.map (BlockGrammar.Sym.map Word.token), (Word.quoted quote body).token,
      after.map (BlockGrammar.Sym.map Word.token), ?_, rfl, exists_more_iff.mpr hblock, ?_⟩
    · rw [List.map_append, List.map_cons]
      rfl
    · rw [getLast_map_eq_enter_iff, List.map_eq_nil_iff, and_true]
      exact hplace

/-- The parser uses a statement that does not exist exactly when it gets to a quoted string that
comes first in the file or in a block. -/
theorem parseText_fault_iff (file : Text) :
    parseText file = .error (.fault .backOfEmpty) ↔ OpensWithQuoted file := by
  obtain ⟨n, hn, toks, complete, hscan, lexemes, r, hlex, rfl, hleaves⟩ :=
    exists_scan (s := .ofText file) (.inl ⟨[], rfl⟩)
  have hfresh : (Builder.start.last : Option (List Text × Option (Block Text))) = none := rfl
  rw [← startsQuoted_iff hlex hleaves, ← eq_true hfresh]
  exact parseLoop_fault_iff hscan rfl (Nat.le_succ_of_le hn) (tracks_start file)

/-- The parser comes to a verdict exactly when no quoted string that it gets to comes first in the
file or in a block. -/
theorem parseText_verdict_iff (file : Text) :
    (∃ verdict store, parseText file = .ok (verdict, store)) ↔ ¬ OpensWithQuoted file := by
  rw [← parseText_fault_iff]
  constructor
  · rintro ⟨verdict, store, hok⟩ herror
    rw [hok] at herror
    cases herror
  · exact (parseText_cases file).resolve_right

/-- A file that begins with a quoted string has no verdict, and neither has a block that does. -/
theorem not_parseText_verdict_quoted :
    (¬ ∃ verdict store, parseText (text "\"a\";") = .ok (verdict, store)) ∧
      ¬ ∃ verdict store, parseText (text "server \x7b \"a\"; \x7d") = .ok (verdict, store) := by
  have hfile : parseText (text "\"a\";") = .error (.fault .backOfEmpty) := rfl
  have hblock : parseText (text "server \x7b \"a\"; \x7d") = .error (.fault .backOfEmpty) := rfl
  constructor
  · rintro ⟨verdict, store, hok⟩
    rw [hfile] at hok
    cases hok
  · rintro ⟨verdict, store, hok⟩
    rw [hblock] at hok
    cases hok

end Aite.Config
