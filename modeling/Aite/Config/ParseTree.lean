import Aite.Config.ParseRun

/-!
# The tree of a config file

The statements that the parser builds are those of the token sequence as long as each begins
with a bare word. A quoted string never opens a statement: where it comes first, it and the
words behind it are appended to the statement before, whose block a later block replaces.
-/

namespace Aite.Config

open BlockGrammar

/-- The token sequence of a file. -/
def TokensOf (file : Text) (toks : List (Sym Token)) : Prop := ∃ n, Scan n (.ofText file) toks true

/-- The config of the caller is the parse tree of the token sequence of the file. -/
def TreeIsParseTree (file : Text) (store : Store) : Prop :=
  ∃ toks, TokensOf file toks ∧ ∃ b : Block Text, b.Proper ∧
    b.flatten = toks.map (BlockGrammar.Sym.map Token.value) ∧ Holds store 0 b

/-- No statement of the file begins with a quoted string. -/
def StatementsBeginBare (file : Text) : Prop :=
  ∃ toks, TokensOf file toks ∧ FirstWordsStart Token.starts false toks

variable {file : Text} {store : Store} {avoid others : List Addr} {toks : List (Sym Token)}
  {statements : List NginxConfigStatement} {block more : Block Text} {n : ℕ} {s : IStream}
  {complete : Bool} {a : Addr}

/-- The tokens ahead of a stream are determined. -/
theorem Scan.unique {m : ℕ} {toks' : List (Sym Token)} {complete' : Bool}
    (h : Scan n s toks complete) (h' : Scan m s toks' complete') :
    n = m ∧ toks = toks' ∧ complete = complete' := by
  induction h generalizing m toks' complete' with
  | eof h =>
    cases h' with
    | eof h' => exact ⟨rfl, rfl, rfl⟩
    | _ h' => cases h.symm.trans h'
  | error h =>
    cases h' with
    | error h' => exact ⟨rfl, rfl, rfl⟩
    | _ h' => cases h.symm.trans h'
  | unfollowed h hnot =>
    cases h' with
    | unfollowed h' _ => exact ⟨rfl, rfl, rfl⟩
    | quoted h' hfollowed _ =>
      cases h.symm.trans h'
      exact absurd hfollowed hnot
    | _ h' => cases h.symm.trans h'
  | quoted h hfollowed _ ih =>
    cases h' with
    | unfollowed h' hnot =>
      cases h.symm.trans h'
      exact absurd hfollowed hnot
    | quoted h' _ hrest =>
      cases h.symm.trans h'
      obtain ⟨rfl, rfl, rfl⟩ := ih hrest
      exact ⟨rfl, rfl, rfl⟩
    | _ h' => cases h.symm.trans h'
  | comment h _ ih =>
    cases h' with
    | comment h' hrest =>
      cases h.symm.trans h'
      obtain ⟨rfl, rfl, rfl⟩ := ih hrest
      exact ⟨rfl, rfl, rfl⟩
    | _ h' => cases h.symm.trans h'
  | normal h _ ih =>
    cases h' with
    | normal h' hrest =>
      cases h.symm.trans h'
      obtain ⟨rfl, rfl, rfl⟩ := ih hrest
      exact ⟨rfl, rfl, rfl⟩
    | _ h' => cases h.symm.trans h'
  | stop h _ ih =>
    cases h' with
    | stop h' hrest =>
      cases h.symm.trans h'
      obtain ⟨rfl, rfl, rfl⟩ := ih hrest
      exact ⟨rfl, rfl, rfl⟩
    | _ h' => cases h.symm.trans h'
  | enter h _ ih =>
    cases h' with
    | enter h' hrest =>
      cases h.symm.trans h'
      obtain ⟨rfl, rfl, rfl⟩ := ih hrest
      exact ⟨rfl, rfl, rfl⟩
    | _ h' => cases h.symm.trans h'
  | leave h _ ih =>
    cases h' with
    | leave h' hrest =>
      cases h.symm.trans h'
      obtain ⟨rfl, rfl, rfl⟩ := ih hrest
      exact ⟨rfl, rfl, rfl⟩
    | _ h' => cases h.symm.trans h'

/-- Statements stand for one block. -/
theorem Represents.unique (h : Represents store avoid statements block)
    (h' : Represents store others statements more) : block = more := by
  induction block generalizing statements more with
  | empty =>
    rw [show statements = [] from h] at h'
    cases more with
    | empty => rfl
    | simple words rest => obtain ⟨after, hsplit, -⟩ := h'; cases hsplit
    | nested words body rest => obtain ⟨a, config, after, hsplit, -⟩ := h'; cases hsplit
  | simple words rest ih =>
    obtain ⟨after, rfl, hrest⟩ := h
    cases more with
    | empty => cases h'
    | simple words' rest' =>
      obtain ⟨after', hsplit, hrest'⟩ := h'
      cases hsplit
      rw [ih hrest hrest']
    | nested words' body' rest' => obtain ⟨a, config, after', hsplit, -⟩ := h'; cases hsplit
  | nested words body rest ihbody ih =>
    obtain ⟨a, config, after, rfl, -, hconfig, hbody, hrest⟩ := h
    cases more with
    | empty => cases h'
    | simple words' rest' => obtain ⟨after', hsplit, -⟩ := h'; cases hsplit
    | nested words' body' rest' =>
      obtain ⟨a', config', after', hsplit, -, hconfig', hbody', hrest'⟩ := h'
      cases hsplit
      cases hconfig.symm.trans hconfig'
      rw [ihbody hbody hbody', ih hrest hrest']

/-- A config stands for one block. -/
theorem Holds.unique (h : Holds store a block) (h' : Holds store a more) : block = more := by
  obtain ⟨config, hconfig, hblock⟩ := h
  obtain ⟨config', hconfig', hmore⟩ := h'
  cases hconfig.symm.trans hconfig'
  exact hblock.unique hmore

/-- What the parser returns for the token sequence of a file. -/
theorem TokensOf.returns (h : TokensOf file toks) :
    Returns 0 (parseText file) (accepts false 0 toks)
      (build Token.starts Token.value false .start toks) := by
  obtain ⟨m, hscan⟩ := h
  obtain ⟨n, lexemes, complete, r, hread, -, -, hreturns⟩ := exists_read file
  obtain ⟨-, rfl, rfl⟩ := hscan.unique hread
  rw [accepts_map]
  exact hreturns

/-- The token sequence of a file is determined. -/
theorem TokensOf.unique {toks' : List (Sym Token)} (h : TokensOf file toks)
    (h' : TokensOf file toks') : toks = toks' := by
  obtain ⟨n, hscan⟩ := h
  obtain ⟨m, hscan'⟩ := h'
  exact (hscan.unique hscan').2.1

/-- An accepted file consists of the items of a config, and its config stands for what their tokens
build. -/
theorem exists_built (hparse : parseText file = .ok (true, store)) :
    ∃ lexemes r b, LexesTo endsNormal file lexemes r ∧ Leaves true r ∧
      TokensOf file (lexemes.map (BlockGrammar.Sym.map Word.token)) ∧
      accepts false 0 lexemes = true ∧
      build Token.starts Token.value false .start
        (lexemes.map (BlockGrammar.Sym.map Word.token)) = some b ∧ Holds store 0 b.current := by
  obtain ⟨n, lexemes, complete, r, hscan, hlex, hleaves, hreturns⟩ := exists_read file
  cases hreturns with
  | inr hfault =>
    rw [hfault.1] at hparse
    cases hparse
  | inl hok =>
    obtain ⟨store', hok, hbuilt⟩ := hok
    rw [hok] at hparse
    have hpair := Except.ok.inj hparse
    have hverdict : (complete && accepts false 0 lexemes) = true := congrArg Prod.fst hpair
    have hstore : store' = store := congrArg Prod.snd hpair
    obtain ⟨b, hb, hholds⟩ := hbuilt hverdict
    rw [Bool.and_eq_true] at hverdict
    rw [hverdict.1] at hscan hleaves
    exact ⟨lexemes, r, b, hlex, hleaves, ⟨n, hscan⟩, hverdict.2, hb, hstore ▸ hholds⟩

/-- A file is accepted, and its tree is the parse tree of its tokens, when these are those of a
config in which every statement begins with a bare word. -/
theorem parseText_of_firstWordsStart (htoks : TokensOf file toks)
    (haccepts : accepts false 0 toks = true) (hfirst : FirstWordsStart Token.starts false toks) :
    ∃ store config, parseText file = .ok (true, store) ∧ Holds store 0 config ∧ config.Proper ∧
      config.flatten = toks.map (BlockGrammar.Sym.map Token.value) := by
  obtain ⟨b, hbuild, -, -⟩ := build_follows haccepts hfirst follows_start rfl
  obtain ⟨hproper, hflatten⟩ := (build_flatten_iff haccepts hbuild).mpr hfirst
  cases htoks.returns with
  | inr hfault =>
    rw [hbuild] at hfault
    cases hfault.2
  | inl hok =>
    obtain ⟨store, hok, hbuilt⟩ := hok
    rw [haccepts] at hok hbuilt
    obtain ⟨built, hbuilt, hholds⟩ := hbuilt rfl
    obtain rfl : b = built := Option.some.inj (hbuild.symm.trans hbuilt)
    exact ⟨store, b.current, hok, hholds, hproper, hflatten⟩

/-- The tree of an accepted file is the parse tree of its tokens exactly when no statement begins
with a quoted string. -/
theorem treeIsParseTree_iff (hparse : parseText file = .ok (true, store)) :
    TreeIsParseTree file store ↔ StatementsBeginBare file := by
  obtain ⟨lexemes, r, b, -, -, htoks, haccepts, hbuild, hholds⟩ := exists_built hparse
  rw [← accepts_map Word.token] at haccepts
  have hiff := build_flatten_iff haccepts hbuild
  constructor
  · intro htree
    obtain ⟨toks, htoks', block, hproper, hflatten, hblock⟩ := htree
    obtain rfl := htoks.unique htoks'
    rw [hblock.unique hholds] at hproper hflatten
    exact ⟨_, htoks, hiff.mp ⟨hproper, hflatten⟩⟩
  · intro hbare
    obtain ⟨toks, htoks', hfirst⟩ := hbare
    obtain rfl := htoks.unique htoks'
    obtain ⟨hproper, hflatten⟩ := hiff.mpr hfirst
    exact ⟨_, htoks, b.current, hproper, hflatten, hholds⟩

/-- The tree of a block behind a quoted string is the parse tree. -/
theorem treeIsParseTree_quoted : TreeIsParseTree (text "foo \"bar\"{ b; }")
    [⟨[⟨[text "foo", text "\"bar\""], some 1⟩]⟩, ⟨[⟨[text "b"], none⟩]⟩] := by
  refine (treeIsParseTree_iff rfl).mpr ⟨[.word ⟨false, text "foo"⟩, .word ⟨true, text "\"bar\""⟩,
    .enter, .word ⟨false, text "b"⟩, .stop, .leave], ⟨7, ?_⟩, ?_⟩
  · exact .normal rfl (.quoted rfl ⟨rfl, rfl⟩ (.enter rfl (.normal rfl (.stop rfl (.leave rfl
      (.eof rfl))))))
  · simp [FirstWordsStart, Sym.isWord, Token.starts]

/-- A statement that begins with a quoted string is merged into the one before. -/
theorem not_treeIsParseTree_quoted : ∃ file store, parseText file = .ok (true, store) ∧
    ¬ TreeIsParseTree file store := by
  refine ⟨text "a;\"b\";", [⟨[⟨[text "a", text "\"b\""], none⟩]⟩], rfl, fun htree => ?_⟩
  obtain ⟨toks, htoks, block, -, hflatten, hblock⟩ := htree
  have htoks' : TokensOf (text "a;\"b\";")
      [.word ⟨false, text "a"⟩, .stop, .word ⟨true, text "\"b\""⟩, .stop] :=
    ⟨5, .normal rfl (.stop rfl (.quoted rfl ⟨rfl, rfl⟩ (.stop rfl (.eof rfl))))⟩
  obtain rfl := htoks.unique htoks'
  have hmerged : Holds [⟨[⟨[text "a", text "\"b\""], none⟩]⟩] 0
      (.simple [text "a", text "\"b\""] .empty) := ⟨_, rfl, [], rfl, rfl⟩
  rw [hblock.unique hmerged] at hflatten
  cases hflatten

end Aite.Config
