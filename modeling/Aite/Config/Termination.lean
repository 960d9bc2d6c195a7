import Aite.Config.Parse
import Aite.Config.Scan

/-!
# Termination of the config parser

A stream with `failbit` set stays where it is, whatever is done with it. A call of the tokenizer
on a good stream moves on in the same bytes unless it returns the end of the file, so that the
bytes that are left bound the iterations of the parser.
-/

namespace Aite.Config

/-- The bytes of a stream, extracted or still to come. -/
def IStream.contents (s : IStream) : Text := s.past.reverse ++ s.rest

/-- What the parser does with a stream. -/
inductive StreamOp where
  | get
  | unget
  deriving DecidableEq, Repr

/-- The stream behind an operation. -/
def IStream.apply (s : IStream) : StreamOp → IStream
  | .get => s.get.2
  | .unget => s.unget

/-- A stream lies further along in the same bytes; at their end it may have failed. -/
structure Advances (s t : IStream) : Prop where
  contents : t.contents = s.contents
  le : t.rest.length ≤ s.rest.length
  state : t.good = true ∨ t.failbit = true ∧ t.rest = []

/-- So many iterations of the loop of `Parse` that all go on. -/
inductive Iterates : ℕ → ParseState → ParseState → Prop
  | zero (s : ParseState) : Iterates 0 s s
  | succ {s t u : ParseState} {n : ℕ} : parseStep s = .ok (.next t) → Iterates n t u →
      Iterates (n + 1) s u

variable {s t : IStream} {past r value : Text} {c : UInt8} {state : TokenParserState}
  {token_type : TokenType} {v : Text}

/-! ## The stream -/

/-- A stream is good when no bit is set. -/
theorem IStream.eq_of_good (h : s.good = true) : s = { past := s.past, rest := s.rest } := by
  cases s
  simp_all [IStream.good]

/-- A stream that failed is not good. -/
theorem IStream.not_good (h : s.failbit = true) : s.good = false := by
  simp [IStream.good, h]

/-- Nothing is extracted from a stream that failed. -/
theorem IStream.get_of_failed (h : s.failbit = true) : s.get.2 = s := by
  rw [IStream.get, if_neg (by rw [IStream.not_good h]; exact Bool.false_ne_true), ← h]

/-- Nothing is put back into a stream that failed. -/
theorem IStream.unget_of_failed (h : s.failbit = true) : s.unget = { s with eofbit := false } := by
  have hgood : ¬ ({ s with eofbit := false } : IStream).good = true := by
    rw [IStream.not_good (s := { s with eofbit := false }) h]
    exact Bool.false_ne_true
  change (if ({ s with eofbit := false } : IStream).good = true then _ else _) = _
  rw [if_neg hgood, ← h]

/-- An extraction that succeeds is undone by `unget`. -/
theorem IStream.get_unget (h : s.get.2.good = true) : s.get.2.unget = s := by
  by_cases hgood : s.good = true
  · rw [IStream.eq_of_good hgood] at h ⊢
    cases hrest : s.rest with
    | nil =>
      rw [hrest] at h
      cases h
    | cons c rest => rfl
  · rw [IStream.get, if_neg hgood] at h
    simp [IStream.good] at h

/-- Whatever is done with a stream that failed, it stays where it is. -/
theorem IStream.foldl_apply (h : s.failbit = true) (ops : List StreamOp) :
    (ops.foldl IStream.apply s).failbit = true ∧
      (ops.foldl IStream.apply s).past = s.past ∧ (ops.foldl IStream.apply s).rest = s.rest := by
  induction ops generalizing s with
  | nil => exact ⟨h, rfl, rfl⟩
  | cons op ops ih =>
    rw [List.foldl_cons]
    cases op with
    | get =>
      rw [IStream.apply, IStream.get_of_failed h]
      exact ih h
    | unget =>
      rw [IStream.apply, IStream.unget_of_failed h]
      exact ih (s := { s with eofbit := false }) h

/-! ## One call of the tokenizer -/

/-- A stream that is good is where it is. -/
theorem Advances.refl (h : s.good = true) : Advances s s := ⟨rfl, Nat.le_refl _, .inl h⟩

/-- Extracting a byte and moving on is moving on. -/
theorem Advances.cons (h : Advances { past := c :: past, rest := r } t) :
    Advances { past, rest := c :: r } t := by
  refine ⟨?_, Nat.le_succ_of_le h.le, h.state⟩
  rw [h.contents]
  simp [IStream.contents]

/-- The end of the file leaves nothing to read. -/
theorem Advances.ended (past : Text) : Advances { past, rest := [] } (ended past) :=
  ⟨rfl, Nat.le_refl _, .inr ⟨rfl, rfl⟩⟩

/-- A token at the end of the file is returned with the stream at its end. -/
theorem advances_tokenAtEnd (hfailed : t.failbit = true) (h : Advances s t) :
    Advances s (tokenAtEnd state value t).2.2 := by
  have hunget : Advances s t.unget := by
    rw [IStream.unget_of_failed hfailed]
    have hrest : t.rest = [] := by
      cases h.state with
      | inl hgood =>
        rw [IStream.not_good hfailed] at hgood
        cases hgood
      | inr hstate => exact hstate.2
    exact ⟨h.contents, h.le, .inr ⟨hfailed, hrest⟩⟩
  unfold tokenAtEnd
  split
  · exact h
  · split
    · cases state <;> exact hunget
    · exact h

/-- The loop of the tokenizer ends, further along than a stream. -/
def Ends (state : TokenParserState) (value : Text) (s behind : IStream) : Prop :=
  ∃ token_type v t, Finishes state value s (token_type, v, t) ∧ Advances behind t

/-- What ends behind the next byte ends behind the bytes before it. -/
private theorem Ends.uncons (h : Ends state value s { past := c :: past, rest := r }) :
    Ends state value s { past, rest := c :: r } := by
  obtain ⟨token_type, v, t, hfinishes, hadvances⟩ := h
  exact ⟨token_type, v, t, hfinishes, hadvances.cons⟩

/-- An iteration that extracts the next byte and goes on. -/
private theorem Ends.step {next : TokenParserState} {other : Text}
    (h : Ends next other { past := c :: past, rest := r } { past := c :: past, rest := r })
    (hstep : ∀ fuel, parseTokenLoop (fuel + 1) state value { past, rest := c :: r } =
      parseTokenLoop fuel next other { past := c :: past, rest := r }) :
    Ends state value { past, rest := c :: r } { past := c :: past, rest := r } := by
  obtain ⟨token_type, v, t, hfinishes, hadvances⟩ := h
  exact ⟨token_type, v, t, hfinishes.step (Nat.le_refl _) hstep, hadvances⟩

/-- An iteration that extracts the next byte and returns. -/
private theorem Ends.now
    (hstep : ∀ fuel, parseTokenLoop (fuel + 1) state value { past, rest := c :: r } =
      .ok (token_type, v, { past := c :: past, rest := r })) :
    Ends state value { past, rest := c :: r } { past := c :: past, rest := r } :=
  ⟨token_type, v, _, .now hstep, .refl rfl⟩

/-- Between items the loop ends behind the next byte. -/
private theorem ends_initial (value : Text) (hnext : ∀ next other,
      Ends next other { past := c :: past, rest := r } { past := c :: past, rest := r }) :
    Ends .initialWhitespace value { past, rest := c :: r } { past := c :: past, rest := r } := by
  cases hclass : classify c with
  | enter => exact .now fun fuel => by rw [loop_initial, hclass]
  | leave => exact .now fun fuel => by rw [loop_initial, hclass]
  | stop => exact .now fun fuel => by rw [loop_initial, hclass]
  | comment => exact (hnext _ _).step fun fuel => by rw [loop_initial, hclass]
  | quote => exact (hnext _ _).step fun fuel => by rw [loop_initial, hclass]
  | space => exact (hnext _ _).step fun fuel => by rw [loop_initial, hclass]
  | bare => exact (hnext _ _).step fun fuel => by rw [loop_initial, hclass]

/-- Behind an opening quote the loop ends if it ends from every later byte. -/
private theorem ends_quoted (quote : UInt8) (hquote : classify quote = .quote)
    (ih : ∀ value past after, after.length < (c :: r).length →
      Ends (quoteState quote) value { past, rest := after } { past, rest := after }) :
    Ends (quoteState quote) value { past, rest := c :: r } { past, rest := c :: r } := by
  by_cases hc : c = '\\'.toUInt8
  · subst hc
    cases r with
    | nil =>
      have hfinishes : Finishes (quoteState quote) (value ++ lead quote '\\'.toUInt8)
          (ended ('\\'.toUInt8 :: past)) _ := .notGood rfl
      exact ⟨_, _, _, hfinishes.step (Nat.le_refl _) (loop_backslash_end hquote),
        advances_tokenAtEnd rfl (Advances.ended _).cons⟩
    | cons d r =>
      cases he : escaped quote d with
      | none =>
        have hrest := ih (value ++ (lead quote '\\'.toUInt8 ++ ['\\'.toUInt8]))
          ('\\'.toUInt8 :: past) (d :: r) (Nat.lt_succ_self _)
        exact (hrest.step fun fuel => by rw [loop_backslash hquote, he]).uncons
      | some e =>
        have hrest := ih (value ++ (lead quote '\\'.toUInt8 ++ [e])) (d :: '\\'.toUInt8 :: past) r
          (Nat.lt_succ_of_lt (Nat.lt_succ_self _))
        obtain ⟨token_type, v, t, hfinishes, hadvances⟩ := hrest
        refine ⟨token_type, v, t, hfinishes.step (Nat.le_succ _) fun fuel => ?_,
          hadvances.cons.cons⟩
        rw [loop_backslash hquote, he]
  · by_cases hclose : c = quote
    · subst hclose
      exact (Ends.now (loop_close hquote)).uncons
    · exact ((ih _ _ _ (Nat.lt_succ_self _)).step (loop_plain hquote hc hclose)).uncons

/-- From a good stream the loop ends, whatever the state. -/
theorem exists_ends (state : TokenParserState) (value past rest : Text) :
    Ends state value { past, rest } { past, rest } := by
  induction hlength : rest.length using Nat.strong_induction_on generalizing
    state value past rest with
  | _ n ih =>
    subst hlength
    cases rest with
    | nil => exact ⟨_, _, _, .atEnd, advances_tokenAtEnd rfl (Advances.ended past)⟩
    | cons c r =>
      have hnext (next : TokenParserState) (other : Text) :
          Ends next other { past := c :: past, rest := r } { past := c :: past, rest := r } :=
        ih _ (Nat.lt_succ_self _) next other _ _ rfl
      cases state with
      | initialWhitespace => exact (ends_initial value hnext).uncons
      | singleQuote =>
        exact ends_quoted '\''.toUInt8 rfl fun value past after hafter =>
          ih _ hafter _ value past after rfl
      | doubleQuote =>
        exact ends_quoted '"'.toUInt8 rfl fun value past after hafter =>
          ih _ hafter _ value past after rfl
      | comment =>
        cases hc : isLineEnd c with
        | false => exact ((hnext _ _).step (loop_comment hc)).uncons
        | true => exact (Ends.now (loop_lineEnd hc)).uncons
      | normal =>
        cases hc : endsNormal c with
        | false => exact ((hnext _ _).step (loop_normal hc)).uncons
        | true => exact ⟨_, _, _, .now (loop_delimiter hc), .refl rfl⟩

/-- A call of the tokenizer on a good stream ends, and unless it returns the end of the file,
fewer bytes are left. -/
theorem parseToken_advances (h : s.good = true) : ∃ token_type v t,
    parseToken s = .ok (token_type, v, t) ∧ Advances s t ∧
      (token_type ≠ .eof → t.rest.length < s.rest.length) := by
  rw [IStream.eq_of_good h]
  cases s.rest with
  | nil =>
    have hfinishes : Finishes .initialWhitespace [] { past := s.past, rest := [] } _ := .atEnd
    exact ⟨.eof, _, _, hfinishes.parseToken, .ended _, fun hne => absurd rfl hne⟩
  | cons c r =>
    obtain ⟨token_type, v, t, hfinishes, hadvances⟩ :=
      ends_initial [] fun next other => exists_ends next other (c :: s.past) r
    exact ⟨token_type, v, t, hfinishes.parseToken, hadvances.cons,
      fun _ => Nat.lt_succ_of_le hadvances.le⟩

/-- A call of the tokenizer on a stream that is not good returns the end of the file. -/
theorem parseToken_of_not_good (h : s.good = false) : parseToken s = .ok (.eof, [], s) := by
  have hfinishes : Finishes .initialWhitespace [] s _ := .notGood h
  exact hfinishes.parseToken

/-- Every call of the tokenizer returns. -/
theorem exists_parseToken (s : IStream) :
    ∃ token_type v t, parseToken s = .ok (token_type, v, t) := by
  by_cases hgood : s.good = true
  · obtain ⟨token_type, v, t, htoken, -, -⟩ := parseToken_advances hgood
    exact ⟨token_type, v, t, htoken⟩
  · exact ⟨.eof, [], s, parseToken_of_not_good (Bool.eq_false_iff.mpr hgood)⟩

/-! ## One iteration of `Parse` -/

variable {a b : ParseState} {n : ℕ} {e : Abort} {result : Run Iteration}

/-- What a token can do: it ends the loop, it leaves the stack and the store as they are, it opens
a statement, it extends the last one, it opens a block, or it closes one. -/
inductive Outcome (s : ParseState) (token : Text) : TokenType → Run Iteration → Prop
  | done {token_type : TokenType} (verdict : Bool) :
      Outcome s token token_type (.ok (.done verdict s.store))
  | kept {token_type last_token_type : TokenType} : token_type ≠ .eof →
      Outcome s token token_type (.ok (.next { s with last_token_type }))
  | opened : Outcome s token .normal (do
      let store ← emplaceBack s.store s.config_stack
      let store ← pushToken store s.config_stack token
      return .next { s with store, last_token_type := .normal })
  | extended {token_type : TokenType} : token_type ≠ .eof → Outcome s token token_type (do
      let store ← pushToken s.store s.config_stack token
      return .next { s with store, last_token_type := token_type })
  | entered : Outcome s token .startBlock (do
      let store ← resetChildBlock (s.store ++ [({} : NginxConfig)]) s.config_stack s.store.length
      return .next { s with
        store, config_stack := s.store.length :: s.config_stack, last_token_type := .startBlock,
        bracketCtr := s.bracketCtr + 1 })
  | left {top : Addr} {config_stack : List Addr} : s.config_stack = top :: config_stack →
      Outcome s token .endBlock (.ok (.next { s with
        config_stack, last_token_type := .endBlock, bracketCtr := s.bracketCtr - 1 }))
  | popped : s.config_stack = [] → Outcome s token .endBlock (.error (.fault .popOfEmpty))

/-- A bare word opens a statement, extends the last one or ends the loop. -/
private theorem outcome_normal (a : ParseState) (v : Text) :
    Outcome a v .normal (onNormal a v) := by
  unfold onNormal
  split_ifs
  · exact .opened
  · exact .extended nofun
  · exact .done false

/-- A quoted string extends the last statement or ends the loop. -/
private theorem outcome_quotedString (a : ParseState) (v : Text) :
    Outcome a v .quotedString (onQuotedString a v) := by
  unfold onQuotedString
  by_cases hgood : a.config_file.get.2.good = true
  · simp only [hgood, Bool.not_true, Bool.false_eq_true, if_false, IStream.get_unget hgood]
    split_ifs
    · exact .done false
    · exact .extended nofun
  · simp only [hgood, Bool.not_false, if_true]
    exact .done false

/-- Every token does one of these things. -/
theorem outcome_onToken (a : ParseState) (token_type : TokenType) (v : Text) :
    Outcome a v token_type (onToken token_type v a) := by
  cases token_type with
  | start => exact .done false
  | error => exact .done false
  | comment => exact .kept nofun
  | normal => exact outcome_normal a v
  | quotedString => exact outcome_quotedString a v
  | statementEnd =>
    change Outcome _ _ _ (onStatementEnd a)
    unfold onStatementEnd
    split_ifs
    · exact .done false
    · exact .kept nofun
  | startBlock =>
    change Outcome _ _ _ (onStartBlock a)
    unfold onStartBlock
    split_ifs
    · exact .done false
    · exact .entered
  | endBlock =>
    change Outcome _ _ _ (onEndBlock a)
    unfold onEndBlock
    split_ifs
    · exact .done false
    · cases hstack : a.config_stack with
      | nil => exact .popped hstack
      | cons top config_stack => exact .left hstack
  | eof =>
    change Outcome _ _ _ (onEof a)
    unfold onEof
    split_ifs
    · exact .done false
    · exact .done false
    · exact .done true

/-- An iteration reads a token, and what the token does decides on the iteration. -/
theorem parseStep_eq (hcounter : ¬ a.bracketCtr < 0)
    (htoken : parseToken a.config_file = .ok (token_type, v, t)) :
    parseStep a = onToken token_type v { a with config_file := t } := by
  rw [parseStep, if_neg hcounter, htoken]
  rfl

/-- A token that does not end the loop leaves the stream where it is, and one bracket is opened at
most. -/
theorem Outcome.next (h : Outcome a v token_type (.ok (.next b))) :
    b.config_file = a.config_file ∧ token_type ≠ .eof ∧ b.bracketCtr ≤ a.bracketCtr + 1 := by
  have hsame : a.bracketCtr ≤ a.bracketCtr + 1 := Int.le_add_one (Int.le_refl _)
  generalize hresult : (.ok (.next b) : Run Iteration) = result at h
  cases h with
  | done => cases hresult
  | kept hne =>
    cases hresult
    exact ⟨rfl, hne, hsame⟩
  | opened =>
    obtain ⟨opened, -, hnext⟩ := run_bind_eq_ok.mp hresult.symm
    obtain ⟨changed, -, hnext⟩ := run_bind_eq_ok.mp hnext
    cases hnext
    exact ⟨rfl, nofun, hsame⟩
  | extended hne =>
    obtain ⟨changed, -, hnext⟩ := run_bind_eq_ok.mp hresult.symm
    cases hnext
    exact ⟨rfl, hne, hsame⟩
  | entered =>
    obtain ⟨changed, -, hnext⟩ := run_bind_eq_ok.mp hresult.symm
    cases hnext
    exact ⟨rfl, nofun, Int.le_refl _⟩
  | left =>
    cases hresult
    refine ⟨rfl, nofun, ?_⟩
    change a.bracketCtr - 1 ≤ a.bracketCtr + 1
    omega
  | popped => cases hresult

/-- Whatever stops the change of a statement is undefined behaviour. -/
private theorem modifyBack_error {store : Store} {stack : List Addr}
    {f : NginxConfigStatement → NginxConfigStatement} (h : modifyBack store stack f = .error e) :
    ∃ fault, e = .fault fault := by
  unfold modifyBack top Store.deref at h
  cases stack with
  | nil => exact ⟨_, (Except.error.inj h).symm⟩
  | cons a stack =>
    simp only [run_ok_bind] at h
    split at h
    · exact ⟨_, (Except.error.inj h).symm⟩
    · simp only [run_ok_bind] at h
      split at h
      · exact ⟨_, (Except.error.inj h).symm⟩
      · cases h

/-- Whatever stops the opening of a statement is undefined behaviour. -/
private theorem emplaceBack_error {store : Store} {stack : List Addr}
    (h : emplaceBack store stack = .error e) : ∃ fault, e = .fault fault := by
  unfold emplaceBack top Store.deref at h
  cases stack with
  | nil => exact ⟨_, (Except.error.inj h).symm⟩
  | cons a stack =>
    simp only [run_ok_bind] at h
    split at h
    · exact ⟨_, (Except.error.inj h).symm⟩
    · cases h

/-- A computation that stops does so in its first part or behind it. -/
private theorem bind_error {A C : Type} {x : Run A} {f : A → Run C}
    (h : (x >>= f) = .error e) : x = .error e ∨ ∃ y, x = .ok y ∧ f y = .error e := by
  cases x with
  | error e' =>
    rw [run_error_bind] at h
    exact .inl (congrArg Except.error (Except.error.inj h))
  | ok y => exact .inr ⟨y, rfl, h⟩

/-- A token that stops the program does so by undefined behaviour. -/
theorem Outcome.fault (h : Outcome a v token_type (.error e)) : ∃ fault, e = .fault fault := by
  generalize hresult : (.error e : Run Iteration) = result at h
  cases h with
  | done => cases hresult
  | kept hne => cases hresult
  | opened =>
    cases bind_error hresult.symm with
    | inl hopen => exact emplaceBack_error hopen
    | inr hpush =>
      obtain ⟨opened, -, hpush⟩ := hpush
      cases bind_error hpush with
      | inl hpush => exact modifyBack_error hpush
      | inr hnext =>
        obtain ⟨changed, -, hnext⟩ := hnext
        cases hnext
  | extended hne =>
    cases bind_error hresult.symm with
    | inl hpush => exact modifyBack_error hpush
    | inr hnext =>
      obtain ⟨changed, -, hnext⟩ := hnext
      cases hnext
  | entered =>
    cases bind_error hresult.symm with
    | inl hreset => exact modifyBack_error hreset
    | inr hnext =>
      obtain ⟨changed, -, hnext⟩ := hnext
      cases hnext
  | left => cases hresult
  | popped => exact ⟨_, Except.error.inj hresult⟩

/-- On a stream that is not good an iteration leaves the loop. -/
theorem parseStep_of_not_good (h : a.config_file.good = false) :
    ∃ verdict, parseStep a = .ok (.done verdict a.store) := by
  by_cases hcounter : a.bracketCtr < 0
  · exact ⟨false, by rw [parseStep, if_pos hcounter]; rfl⟩
  · rw [parseStep_eq hcounter (parseToken_of_not_good h)]
    change ∃ verdict, onEof a = .ok (.done verdict a.store)
    unfold onEof
    split_ifs
    · exact ⟨false, rfl⟩
    · exact ⟨false, rfl⟩
    · exact ⟨true, rfl⟩

/-- An iteration that goes on has moved on in the stream. -/
theorem parseStep_advances (h : parseStep a = .ok (.next b)) :
    Advances a.config_file b.config_file ∧
      b.config_file.rest.length < a.config_file.rest.length := by
  by_cases hgood : a.config_file.good = true
  · by_cases hcounter : a.bracketCtr < 0
    · rw [parseStep, if_pos hcounter] at h
      cases h
    · obtain ⟨token_type, v, t, htoken, hadvances, hless⟩ := parseToken_advances hgood
      rw [parseStep_eq hcounter htoken] at h
      have houtcome := outcome_onToken { a with config_file := t } token_type v
      rw [h] at houtcome
      obtain ⟨hfile, hne, -⟩ := houtcome.next
      rw [hfile]
      exact ⟨hadvances, hless hne⟩
  · obtain ⟨verdict, hdone⟩ := parseStep_of_not_good (Bool.eq_false_iff.mpr hgood)
    cases hdone.symm.trans h

/-- An iteration goes on, leaves the loop or runs into undefined behaviour. -/
theorem parseStep_cases (a : ParseState) : (∃ b, parseStep a = .ok (.next b)) ∨
    (∃ verdict store, parseStep a = .ok (.done verdict store)) ∨
      ∃ fault, parseStep a = .error (.fault fault) := by
  cases hstep : parseStep a with
  | ok iteration =>
    cases iteration with
    | next b => exact .inl ⟨b, rfl⟩
    | done verdict store => exact .inr (.inl ⟨verdict, store, rfl⟩)
  | error e =>
    refine .inr (.inr ?_)
    by_cases hcounter : a.bracketCtr < 0
    · rw [parseStep, if_pos hcounter] at hstep
      cases hstep
    · obtain ⟨token_type, v, t, htoken⟩ := exists_parseToken a.config_file
      rw [parseStep_eq hcounter htoken] at hstep
      have houtcome := outcome_onToken { a with config_file := t } token_type v
      rw [hstep] at houtcome
      obtain ⟨fault, rfl⟩ := houtcome.fault
      exact ⟨fault, rfl⟩

/-! ## The loop of `Parse` -/

/-- Every iteration that goes on uses up a byte of the stream. -/
theorem Iterates.le (h : Iterates n a b) :
    n + b.config_file.rest.length ≤ a.config_file.rest.length := by
  induction h with
  | zero a => omega
  | succ hstep hrest ih =>
    have hless := (parseStep_advances hstep).2
    omega

/-- The loop ends behind the iterations that go on, within one more than there are bytes. -/
theorem exists_iterates (a : ParseState) : ∃ n b, Iterates n a b ∧
    (∀ fuel, n < fuel → parseLoop fuel a = parseLoop 1 b) ∧
      ((∃ verdict store, parseStep b = .ok (.done verdict store)) ∨
        ∃ fault, parseStep b = .error (.fault fault)) := by
  induction hlength : a.config_file.rest.length using Nat.strong_induction_on generalizing a with
  | _ length ih =>
    subst hlength
    have hlast (hend : (∃ verdict store, parseStep a = .ok (.done verdict store)) ∨
        ∃ fault, parseStep a = .error (.fault fault)) (fuel : ℕ) :
        parseLoop (fuel + 1) a = parseLoop 1 a := by
      unfold parseLoop
      cases hend with
      | inl hdone =>
        obtain ⟨verdict, store, hdone⟩ := hdone
        rw [hdone]
        rfl
      | inr hfault =>
        obtain ⟨fault, hfault⟩ := hfault
        rw [hfault]
        rfl
    cases parseStep_cases a with
    | inl hnext =>
      obtain ⟨b, hstep⟩ := hnext
      obtain ⟨n, c, hiterates, hloop, hend⟩ := ih _ (parseStep_advances hstep).2 b rfl
      refine ⟨n + 1, c, .succ hstep hiterates, fun fuel hfuel => ?_, hend⟩
      cases fuel with
      | zero => omega
      | succ fuel =>
        rw [← hloop fuel (Nat.lt_of_succ_lt_succ hfuel), parseLoop, hstep]
        rfl
    | inr hend =>
      refine ⟨0, a, .zero a, fun fuel hfuel => ?_, hend⟩
      cases fuel with
      | zero => omega
      | succ fuel => exact hlast hend fuel

/-- The result of the parser is that of the iteration at which its loop ends. -/
private theorem parse_ends (config_file : IStream) (store : Store) (config : Addr) :
    ∃ n b, n + 1 ≤ config_file.rest.length + 2 ∧
      Iterates n { config_file, store, config_stack := [config] } b ∧
      ((∃ verdict final, parseStep b = .ok (.done verdict final) ∧
          parse config_file store config = .ok (verdict, final)) ∨
        ∃ fault, parseStep b = .error (.fault fault) ∧
          parse config_file store config = .error (.fault fault)) := by
  obtain ⟨n, b, hiterates, hloop, hend⟩ :=
    exists_iterates { config_file, store, config_stack := [config] }
  have hle : n + b.config_file.rest.length ≤ config_file.rest.length := hiterates.le
  have hparse : parse config_file store config = parseLoop 1 b :=
    hloop (config_file.rest.length + 2) (by omega)
  refine ⟨n, b, by omega, hiterates, ?_⟩
  rw [hparse]
  unfold parseLoop
  cases hend with
  | inl hdone =>
    obtain ⟨verdict, final, hdone⟩ := hdone
    rw [hdone]
    exact .inl ⟨verdict, final, rfl, rfl⟩
  | inr hfault =>
    obtain ⟨fault, hfault⟩ := hfault
    rw [hfault]
    exact .inr ⟨fault, rfl, rfl⟩

/-- On every stream a call of the tokenizer ends, and fewer bytes are left unless it returns the
end of the file or an error; a stream whose end was hit stays there and ends the loop of the
parser; and the parser leaves its loop within as many iterations as there are bytes and two. -/
theorem parse_terminates :
    (∀ s : IStream, ∃ token_type value t, parseToken s = .ok (token_type, value, t) ∧
      t.contents = s.contents ∧ t.rest.length ≤ s.rest.length ∧
      (token_type ≠ .eof → token_type ≠ .error → t.rest.length < s.rest.length)) ∧
    (∀ (past : Text) (ops : List StreamOp),
      (ops.foldl IStream.apply ({ past, rest := [] } : IStream).get.2).good = false ∧
      (ops.foldl IStream.apply ({ past, rest := [] } : IStream).get.2).rest = []) ∧
    (∀ a : ParseState, a.config_file.good = false →
      ∃ verdict, parseStep a = .ok (.done verdict a.store)) ∧
    ∀ (config_file : IStream) (store : Store) (config : Addr),
      (∀ n b, Iterates n { config_file, store, config_stack := [config] } b →
        n + b.config_file.rest.length ≤ config_file.rest.length) ∧
      ∃ n b, n + 1 ≤ config_file.rest.length + 2 ∧
        Iterates n { config_file, store, config_stack := [config] } b ∧
        ((∃ verdict final, parseStep b = .ok (.done verdict final) ∧
            parse config_file store config = .ok (verdict, final)) ∨
          ∃ fault, parseStep b = .error (.fault fault) ∧
            parse config_file store config = .error (.fault fault)) := by
  refine ⟨fun s => ?_, fun past ops => ?_, fun a h => parseStep_of_not_good h,
    fun config_file store config => ⟨fun n b h => h.le, parse_ends config_file store config⟩⟩
  · by_cases hgood : s.good = true
    · obtain ⟨token_type, v, t, htoken, hadvances, hless⟩ := parseToken_advances hgood
      exact ⟨token_type, v, t, htoken, hadvances.contents, hadvances.le, fun hne _ => hless hne⟩
    · have htoken := parseToken_of_not_good (Bool.eq_false_iff.mpr hgood)
      exact ⟨.eof, [], s, htoken, rfl, Nat.le_refl _, fun hne => absurd rfl hne⟩
  · have hended := IStream.foldl_apply (s := ended past) rfl ops
    exact ⟨IStream.not_good hended.1, hended.2.2⟩

/-- The iterations on a file of two statements. -/
example : parse (.ofText (text "a b;c;")) [{}] 0 =
    .ok (true, [⟨[⟨[text "a", text "b"], none⟩, ⟨[text "c"], none⟩]⟩]) := by decide

end Aite.Config
