import Aite.Config.BlockStack

/-!
# A run of the config parser

The verdict of the parser is that of the automaton of blocks on the tokens of the file, and the
store holds the block that these tokens build when a quoted string never opens a statement.
The only undefined behaviour is the use of the last statement of a block without one.
-/

namespace Aite.Config

open BlockGrammar

/-- The tokens that open a statement when they come first in it. -/
def Token.starts (t : Token) : Bool := !t.quoted

/-- What the type of the last token says about the place in the file. -/
def Place : TokenType → Bool → ℕ → Prop
  | .start, inside, depth => inside = false ∧ depth = 0
  | .normal, inside, _ => inside = true
  | .quotedString, inside, _ => inside = true
  | .statementEnd, inside, _ => inside = false
  | .endBlock, inside, _ => inside = false
  | .startBlock, inside, depth => inside = false ∧ 0 < depth
  | _, _, _ => False

/-- The variables of the parser stand for a place in the file and a block under construction. -/
structure Tracks (root : Addr) (s : ParseState) (inside : Bool) (depth : ℕ)
    (b : Builder Text) : Prop where
  place : Place s.last_token_type inside depth
  counter : s.bracketCtr = depth
  depth : b.outer.length = depth
  started : inside = true → b.last ≠ none
  models : Models s.store s.config_stack b
  bottom : s.config_stack.getLast? = some root

/-- The result of the parser: a verdict and, if it is positive, the block that was built; or the
use of a statement that does not exist. -/
def Returns (root : Addr) (result : Run (Bool × Store)) (verdict : Bool)
    (built : Option (Builder Text)) : Prop :=
  (∃ store, result = .ok (verdict, store) ∧
    (verdict = true → ∃ b, built = some b ∧ Holds store root b.current)) ∨
  (result = .error (.fault .backOfEmpty) ∧ built = none)

variable {root : Addr} {s : ParseState} {inside : Bool} {depth fuel n : ℕ} {b : Builder Text}
  {token_type : TokenType} {v : Text} {behind : IStream} {toks : List (Sym Token)}
  {complete : Bool}

/-- One iteration of the loop on a token. -/
theorem parseLoop_token (h : Tracks root s inside depth b)
    (htoken : parseToken s.config_file = .ok (token_type, v, behind)) (hfuel : 0 < fuel) :
    parseLoop fuel s = (do
      match ← onToken token_type v { s with config_file := behind } with
      | .next s => parseLoop (fuel - 1) s
      | .done verdict store => return (verdict, store)) := by
  have hcounter : ¬ s.bracketCtr < 0 := by
    rw [h.counter]
    omega
  cases fuel with
  | zero => cases hfuel
  | succ fuel =>
    rw [parseLoop, parseStep, if_neg hcounter, htoken]
    rfl

/-- Reading on leaves the place in the file as it is. -/
theorem Tracks.withFile (h : Tracks root s inside depth b) (file : IStream) :
    Tracks root { s with config_file := file } inside depth b :=
  ⟨h.place, h.counter, h.depth, h.started, h.models, h.bottom⟩

/-- The last token was a word exactly inside a statement. -/
theorem Tracks.inside_iff (h : Tracks root s inside depth b) :
    (s.last_token_type ≠ .normal ∧ s.last_token_type ≠ .quotedString) ↔ inside = false := by
  have hplace := h.place
  cases hlast : s.last_token_type <;> rw [hlast] at hplace <;> simp_all [Place]

/-- A verdict without a block. -/
theorem Returns.refused {store : Store} {built : Option (Builder Text)} :
    Returns root (.ok (false, store)) false built :=
  .inl ⟨store, rfl, nofun⟩

/-- What a token does at a place in the file: it is read, it needs a statement that does not
exist, it is refused, or it closes a block that is not open. -/
inductive Handled (root : Addr) (inside : Bool) (depth : ℕ) (b : Builder Text) (file : IStream)
    (tok : Sym Token) : Run Iteration → Prop
  | read {s : ParseState} {deeper : ℕ} {next : Builder Text} :
      s.config_file = file → Builder.step Token.starts Token.value inside b tok = some next →
      Tracks root s tok.isWord deeper next →
      (∀ rest, accepts inside depth (tok :: rest) = accepts tok.isWord deeper rest) →
      Handled root inside depth b file tok (.ok (.next s))
  | missing {v : Token} : tok = .word v → b.last = none → v.starts = false →
      Handled root inside depth b file tok (.error (.fault .backOfEmpty))
  | refused {store : Store} : (∀ rest, accepts inside depth (tok :: rest) = false) →
      Handled root inside depth b file tok (.ok (.done false store))
  | unopened {s : ParseState} : s.bracketCtr < 0 →
      (∀ rest, accepts inside depth (tok :: rest) = false) →
      Handled root inside depth b file tok (.ok (.next s))

/-- A word that was appended is in the last statement of the same block. -/
private theorem last_of_addWord {next : Builder Text} (h : b.addWord v = some next) :
    next.outer = b.outer ∧ next.last ≠ none := by
  obtain ⟨last, -, rfl⟩ := Option.map_eq_some_iff.mp h
  exact ⟨rfl, nofun⟩

/-- A bare word opens a statement or extends the last one. -/
theorem handled_normal (h : Tracks root s inside depth b) (v : Text) :
    Handled root inside depth b s.config_file (.word ⟨false, v⟩) (onNormal s v) := by
  have hlast : s.last_token_type = .start ∨ s.last_token_type = .statementEnd ∨
      s.last_token_type = .startBlock ∨ s.last_token_type = .endBlock ∨
      s.last_token_type = .normal ∨ s.last_token_type = .quotedString := by
    have hplace := h.place
    cases hlast : s.last_token_type <;> rw [hlast] at hplace <;> simp_all [Place]
  rw [onNormal, if_pos hlast]
  cases inside with
  | false =>
    obtain ⟨opened, changed, hopen, hpush, hmodels⟩ := h.models.open v
    rw [if_pos (h.inside_iff.mpr rfl)]
    simp only [hopen, run_ok_bind, hpush]
    exact .read rfl rfl ⟨rfl, h.counter, h.depth, fun _ => Option.some_ne_none _, hmodels,
      h.bottom⟩ fun rest => rfl
  | true =>
    rw [if_neg (mt h.inside_iff.mp Bool.noConfusion)]
    obtain ⟨last, hlast⟩ := Option.ne_none_iff_exists'.mp (h.started rfl)
    have hnext : b.addWord v = some { b with last := some (last.1 ++ [v], last.2) } := by
      rw [Builder.addWord, hlast]
      rfl
    obtain ⟨changed, hpush, hmodels⟩ := h.models.push hnext
    change Handled _ _ _ _ _ _ (pushToken s.store s.config_stack v >>= _)
    rw [hpush]
    exact .read rfl hnext ⟨rfl, h.counter, h.depth, fun _ => Option.some_ne_none _, hmodels,
      h.bottom⟩ fun rest => rfl

/-- The bytes that may follow a quoted string are those that the parser compares with. -/
theorem followsQuoted_iff {c : UInt8} : followsQuoted c = true ↔
    c = ' '.toUInt8 ∨ c = '\t'.toUInt8 ∨ c = '\n'.toUInt8 ∨ c = '\r'.toUInt8 ∨
      c = ';'.toUInt8 ∨ c = '\x7b'.toUInt8 := by
  constructor
  · intro h
    unfold followsQuoted classify at h
    grind
  · intro h
    rcases h with rfl | rfl | rfl | rfl | rfl | rfl <;> rfl

/-- A quoted string extends the last statement. -/
theorem handled_quoted (h : Tracks root s inside depth b) (hfollowed : Followed s.config_file)
    (v : Text) :
    Handled root inside depth b s.config_file.get.2.unget (.word ⟨true, v⟩)
      (onQuotedString s v) := by
  have hstep : Builder.step Token.starts Token.value inside b (.word ⟨true, v⟩) = b.addWord v :=
    if_neg nofun
  have hallowed : ¬ (s.config_file.get.1 ≠ ' '.toUInt8 ∧ s.config_file.get.1 ≠ '\t'.toUInt8 ∧
      s.config_file.get.1 ≠ '\n'.toUInt8 ∧ s.config_file.get.1 ≠ '\r'.toUInt8 ∧
      s.config_file.get.1 ≠ ';'.toUInt8 ∧ s.config_file.get.1 ≠ '\x7b'.toUInt8) := by
    have hfollows := followsQuoted_iff.mp hfollowed.2
    grind
  rw [onQuotedString]
  simp only [hfollowed.1, Bool.not_true, Bool.false_eq_true, if_false, if_neg hallowed]
  cases hnext : b.addWord v with
  | none =>
    have hnone := Option.map_eq_none_iff.mp hnext
    rw [pushToken, modifyBack_of_none h.models hnone]
    exact .missing rfl hnone rfl
  | some next =>
    obtain ⟨changed, hpush, hmodels⟩ := h.models.push hnext
    obtain ⟨houter, hlast⟩ := last_of_addWord hnext
    rw [hpush]
    exact .read rfl (hstep.trans hnext)
      ⟨rfl, h.counter, houter ▸ h.depth, fun _ => hlast, hmodels, h.bottom⟩ fun rest => rfl

/-- A quoted string that is not followed as it has to be is refused. -/
theorem onQuotedString_of_not_followed (h : ¬ Followed s.config_file) (v : Text) :
    onQuotedString s v = .ok (.done false s.store) := by
  rw [onQuotedString]
  by_cases hgood : s.config_file.get.2.good = true
  · have hrefused : s.config_file.get.1 ≠ ' '.toUInt8 ∧ s.config_file.get.1 ≠ '\t'.toUInt8 ∧
        s.config_file.get.1 ≠ '\n'.toUInt8 ∧ s.config_file.get.1 ≠ '\r'.toUInt8 ∧
        s.config_file.get.1 ≠ ';'.toUInt8 ∧ s.config_file.get.1 ≠ '\x7b'.toUInt8 := by
      have hfollows : ¬ followsQuoted s.config_file.get.1 = true := fun h' => h ⟨hgood, h'⟩
      rw [followsQuoted_iff] at hfollows
      grind
    simp only [hgood, Bool.not_true, Bool.false_eq_true, if_false, if_pos hrefused]
    rfl
  · simp only [hgood, Bool.not_false, if_true]
    rfl

/-- A statement ends after a word. -/
theorem handled_stop (h : Tracks root s inside depth b) :
    Handled root inside depth b s.config_file .stop (onStatementEnd s) := by
  rw [onStatementEnd]
  cases inside with
  | false =>
    rw [if_pos (h.inside_iff.mpr rfl)]
    exact .refused fun rest => rfl
  | true =>
    rw [if_neg (mt h.inside_iff.mp Bool.noConfusion)]
    exact .read rfl rfl ⟨rfl, h.counter, h.depth, Bool.noConfusion, h.models, h.bottom⟩
      fun rest => rfl

/-- A block starts after a word. -/
theorem handled_enter (h : Tracks root s inside depth b) :
    Handled root inside depth b s.config_file .enter (onStartBlock s) := by
  rw [onStartBlock]
  cases inside with
  | false =>
    rw [if_pos (h.inside_iff.mpr rfl)]
    exact .refused fun rest => rfl
  | true =>
    rw [if_neg (mt h.inside_iff.mp Bool.noConfusion)]
    obtain ⟨last, hlast⟩ := Option.ne_none_iff_exists'.mp (h.started rfl)
    have hnext : b.enter = some ⟨(b.done, last.1) :: b.outer, .empty, none⟩ := by
      rw [Builder.enter, hlast]
      rfl
    obtain ⟨changed, hreset, hmodels⟩ := h.models.reset hnext
    simp only [hreset, run_ok_bind]
    have hbottom : (s.store.length :: s.config_stack).getLast? = some root := by
      rw [List.getLast?_cons, h.bottom]
      rfl
    have hcounter : s.bracketCtr + 1 = ((depth + 1 : ℕ) : ℤ) := by
      rw [h.counter]
      rfl
    exact .read rfl hnext ⟨⟨rfl, Nat.succ_pos depth⟩, hcounter, congrArg (· + 1) h.depth,
      Bool.noConfusion, hmodels, hbottom⟩ fun rest => rfl

/-- A block ends at its start or after a statement. -/
theorem handled_leave (h : Tracks root s inside depth b) :
    Handled root inside depth b s.config_file .leave (onEndBlock s) := by
  rw [onEndBlock]
  have hplace := h.place
  by_cases hlast : s.last_token_type ≠ .statementEnd ∧ s.last_token_type ≠ .endBlock ∧
      s.last_token_type ≠ .startBlock
  · rw [if_pos hlast]
    apply Handled.refused
    intro rest
    -- Either inside a statement or at the start of the file, where no block is open.
    cases depth with
    | zero => rfl
    | succ depth =>
      have hinside : inside = true := by
        cases htype : s.last_token_type <;> rw [htype] at hplace hlast <;> simp_all [Place]
      rw [hinside]
      rfl
  · rw [if_neg hlast]
    have hinside : inside = false := by
      cases htype : s.last_token_type <;> rw [htype] at hplace hlast <;> simp_all [Place]
    subst hinside
    have hmodels := h.models
    have hbottom := h.bottom
    cases hstack : s.config_stack with
    | nil => rw [hstack] at hbottom; cases hbottom
    | cons a stack =>
      rw [hstack] at hmodels hbottom
      cases depth with
      | zero =>
        refine .unopened ?_ fun rest => rfl
        change s.bracketCtr - 1 < 0
        rw [h.counter]
        omega
      | succ depth =>
        have hlength := h.depth
        cases houter : b.outer with
        | nil => rw [houter] at hlength; cases hlength
        | cons frame outer =>
          rw [houter] at hlength
          have hnext : b.leave =
              some ⟨outer, frame.1, some (frame.2, some b.current)⟩ := by
            rw [Builder.leave, houter]
          have hpop := hmodels.pop hnext
          obtain ⟨-, top, rest, -, rfl, -⟩ := hpop
          refine .read rfl hnext ⟨rfl, ?_, Nat.succ.inj hlength, Bool.noConfusion,
            hmodels.pop hnext, ?_⟩ fun rest => rfl
          · rw [h.counter]
            simp
          · rwa [List.getLast?_cons_cons] at hbottom

/-! ## The loop -/

/-- The result of an iteration and of those behind it. -/
theorem Handled.returns {tok : Sym Token} {file : IStream}
    (hhandled : Handled root inside depth b file tok
      (onToken token_type v { s with config_file := behind }))
    (h : Tracks root s inside depth b)
    (htoken : parseToken s.config_file = .ok (token_type, v, behind)) (hpos : 0 < n)
    (hfuel : n + 1 ≤ fuel)
    (hrest : ∀ {t : ParseState} {deeper : ℕ} {next : Builder Text}, t.config_file = file →
      Tracks root t tok.isWord deeper next →
      Returns root (parseLoop (fuel - 1) t) (complete && accepts tok.isWord deeper toks)
        (build Token.starts Token.value tok.isWord next toks)) :
    Returns root (parseLoop fuel s) (complete && accepts inside depth (tok :: toks))
      (build Token.starts Token.value inside b (tok :: toks)) := by
  rw [parseLoop_token h htoken (Nat.zero_lt_of_lt hfuel)]
  revert hhandled
  generalize onToken token_type v { s with config_file := behind } = result
  intro hhandled
  cases hhandled with
  | read hfile hstep htracks haccepts =>
    rw [haccepts, build, hstep]
    exact hrest hfile htracks
  | @missing v htok hlast hstarts =>
    have hstep : Builder.step Token.starts Token.value inside b (.word v) = none := by
      rw [Builder.step, if_neg (by simp [hstarts]), Builder.addWord, hlast]
      rfl
    rw [build, htok, hstep]
    exact .inr ⟨rfl, rfl⟩
  | refused haccepts =>
    rw [haccepts, Bool.and_false]
    exact .refused
  | @unopened t hcounter haccepts =>
    rw [haccepts, Bool.and_false]
    have hloop : parseLoop (fuel - 1) t = .ok (false, t.store) := by
      have hleft : 0 < fuel - 1 := hpos.trans_le (Nat.le_sub_one_of_lt hfuel)
      cases hleft' : fuel - 1 with
      | zero => omega
      | succ fuel =>
        rw [parseLoop, parseStep, if_pos hcounter]
        rfl
    change Returns root (parseLoop (fuel - 1) t) _ _
    rw [hloop]
    exact .refused

/-- At the end of the file the block that was built is returned. -/
private theorem returns_eof (h : Tracks root s inside depth b)
    (htoken : parseToken s.config_file = .ok (.eof, v, behind)) (hfuel : 0 < fuel) :
    Returns root (parseLoop fuel s) (accepts inside depth ([] : List (Sym Token)))
      (build Token.starts Token.value inside b []) := by
  rw [parseLoop_token h htoken hfuel]
  change Returns root ((onEof { s with config_file := behind } >>= _)) _ _
  rw [onEof]
  by_cases hcounter : s.bracketCtr ≠ 0
  · rw [if_pos hcounter]
    have hdepth : depth ≠ 0 := by
      intro hdepth
      rw [h.counter, hdepth] at hcounter
      exact hcounter rfl
    have hverdict : accepts inside depth ([] : List (Sym Token)) = false := by
      simp [accepts, hdepth]
    rw [hverdict]
    exact .refused
  · rw [if_neg hcounter]
    have hdepth : depth = 0 := by
      have hzero := h.counter.symm.trans (not_not.mp hcounter)
      exact Int.natCast_eq_zero.mp hzero
    subst hdepth
    by_cases hlast : s.last_token_type ≠ .statementEnd ∧ s.last_token_type ≠ .endBlock ∧
        s.last_token_type ≠ .start
    · rw [if_pos hlast]
      have hplace := h.place
      have hinside : inside = true := by
        cases htype : s.last_token_type <;> rw [htype] at hplace hlast <;> simp_all [Place]
      rw [hinside]
      exact .refused
    · rw [if_neg hlast]
      have hplace := h.place
      have hinside : inside = false := by
        cases htype : s.last_token_type <;> rw [htype] at hplace hlast <;> simp_all [Place]
      rw [hinside]
      exact .inl ⟨s.store, rfl, fun _ => ⟨b, rfl,
        h.models.holds (List.length_eq_zero_iff.mp h.depth) h.bottom⟩⟩

/-- On the tokens of a file the parser returns the verdict of the automaton and the block that
they build. -/
theorem parseLoop_returns {file : IStream} (hscan : Scan n file toks complete)
    (hfile : s.config_file = file) (hfuel : n ≤ fuel) (h : Tracks root s inside depth b) :
    Returns root (parseLoop fuel s) (complete && accepts inside depth toks)
      (build Token.starts Token.value inside b toks) := by
  induction hscan generalizing s fuel inside depth b with
  | eof htoken =>
    subst hfile
    exact returns_eof h htoken hfuel
  | error htoken =>
    subst hfile
    rw [parseLoop_token h htoken hfuel]
    exact .refused
  | unfollowed htoken hnot =>
    subst hfile
    rw [parseLoop_token h htoken hfuel]
    change Returns root (onQuotedString _ _ >>= _) _ _
    rw [onQuotedString_of_not_followed hnot]
    exact .refused
  | comment htoken hscan ih =>
    subst hfile
    rw [parseLoop_token h htoken (Nat.zero_lt_of_lt hfuel)]
    exact ih rfl (Nat.le_sub_one_of_lt hfuel) (h.withFile _)
  | normal htoken hscan ih =>
    subst hfile
    exact (handled_normal (h.withFile _) _).returns h htoken hscan.pos hfuel
      fun hfile htracks => ih hfile (Nat.le_sub_one_of_lt hfuel) htracks
  | quoted htoken hfollowed hscan ih =>
    subst hfile
    exact (handled_quoted (h.withFile _) hfollowed _).returns h htoken hscan.pos hfuel
      fun hfile htracks => ih hfile (Nat.le_sub_one_of_lt hfuel) htracks
  | stop htoken hscan ih =>
    subst hfile
    exact (handled_stop (h.withFile _)).returns h htoken hscan.pos hfuel
      fun hfile htracks => ih hfile (Nat.le_sub_one_of_lt hfuel) htracks
  | enter htoken hscan ih =>
    subst hfile
    exact (handled_enter (h.withFile _)).returns h htoken hscan.pos hfuel
      fun hfile htracks => ih hfile (Nat.le_sub_one_of_lt hfuel) htracks
  | leave htoken hscan ih =>
    subst hfile
    exact (handled_leave (h.withFile _)).returns h htoken hscan.pos hfuel
      fun hfile htracks => ih hfile (Nat.le_sub_one_of_lt hfuel) htracks

/-- At the start of a file the config is empty. -/
theorem tracks_start (file : Text) :
    Tracks 0 { config_file := .ofText file, store := [{}], config_stack := [0] } false 0 .start :=
  ⟨⟨rfl, rfl⟩, rfl, rfl, nofun, ⟨by simp, 0, [], [], rfl, rfl, ⟨rfl, rfl⟩, trivial⟩, rfl⟩

/-- A file is parsed into an empty config. -/
theorem parseText_returns {file : Text} (hscan : Scan n (.ofText file) toks complete)
    (hfuel : n ≤ file.length + 2) :
    Returns 0 (parseText file) (complete && accepts false 0 toks)
      (build Token.starts Token.value false .start toks) :=
  parseLoop_returns hscan rfl hfuel (tracks_start file)

/-- What the parser returns is decided by the items of the file, up to an error or a bare word of
one byte at the end. -/
theorem exists_read (file : Text) : ∃ n lexemes complete r,
    Scan n (.ofText file) (lexemes.map (BlockGrammar.Sym.map Word.token)) complete ∧
      LexesTo endsNormal file lexemes r ∧ Leaves complete r ∧
      Returns 0 (parseText file) (complete && accepts false 0 lexemes)
        (build Token.starts Token.value false .start
          (lexemes.map (BlockGrammar.Sym.map Word.token))) := by
  obtain ⟨n, hn, toks, complete, hscan, lexemes, r, hlex, rfl, hleaves⟩ :=
    exists_scan (s := .ofText file) (.inl ⟨[], rfl⟩)
  have hreturns := parseText_returns hscan (Nat.le_succ_of_le hn)
  rw [accepts_map] at hreturns
  exact ⟨n, lexemes, complete, r, hscan, hlex, hleaves, hreturns⟩

/-- The parser comes to a verdict or uses a statement that does not exist. -/
theorem parseText_cases (file : Text) :
    (∃ verdict store, parseText file = .ok (verdict, store)) ∨
      parseText file = .error (.fault .backOfEmpty) := by
  obtain ⟨n, lexemes, complete, r, -, -, -, hreturns⟩ := exists_read file
  cases hreturns with
  | inl hok =>
    obtain ⟨store, hok, -⟩ := hok
    exact .inl ⟨_, store, hok⟩
  | inr hfault => exact .inr hfault.1

end Aite.Config
