import Aite.Config.CarriageReturns
import Aite.Config.Tokens

/-!
# The tokens of a file

Calling the tokenizer until the end of the file or the first error gives the sequence of
tokens, less the comments. It ends after at most one call for each byte and one more, and it
gives the items of the lexical grammar, in which a bare word goes on past carriage returns.
Only a bare word of one byte at the very end of the file is left out.
-/

namespace Aite.Config

open BlockGrammar

/-- A word as the tokenizer returns it. -/
structure Token where
  quoted : Bool
  value : Text
  deriving DecidableEq, Repr

/-- What the tokenizer makes of a word. -/
def Word.token : Word → Token
  | .bare spelling => ⟨false, spelling⟩
  | .quoted quote body => ⟨true, [quote] ++ decode quote body ++ lead quote quote ++ [quote]⟩

/-- The next byte may stand behind a quoted string. -/
def Followed (s : IStream) : Prop := s.get.2.good = true ∧ followsQuoted s.get.1 = true

/-- The tokens that so many calls of the tokenizer give, and whether the file ends behind them.
A quoted string that is not followed as it has to be is an error. -/
inductive Scan : ℕ → IStream → List (Sym Token) → Bool → Prop
  | eof {s behind : IStream} {v : Text} : parseToken s = .ok (.eof, v, behind) → Scan 1 s [] true
  | error {s behind : IStream} {v : Text} : parseToken s = .ok (.error, v, behind) →
      Scan 1 s [] false
  | unfollowed {s behind : IStream} {v : Text} : parseToken s = .ok (.quotedString, v, behind) →
      ¬ Followed behind → Scan 1 s [] false
  | comment {s behind : IStream} {v : Text} {n : ℕ} {toks : List (Sym Token)} {complete : Bool} :
      parseToken s = .ok (.comment, v, behind) → Scan n behind toks complete →
      Scan (n + 1) s toks complete
  | normal {s behind : IStream} {v : Text} {n : ℕ} {toks : List (Sym Token)} {complete : Bool} :
      parseToken s = .ok (.normal, v, behind) → Scan n behind toks complete →
      Scan (n + 1) s (.word ⟨false, v⟩ :: toks) complete
  | quoted {s behind : IStream} {v : Text} {n : ℕ} {toks : List (Sym Token)} {complete : Bool} :
      parseToken s = .ok (.quotedString, v, behind) → Followed behind →
      Scan n behind.get.2.unget toks complete → Scan (n + 1) s (.word ⟨true, v⟩ :: toks) complete
  | stop {s behind : IStream} {v : Text} {n : ℕ} {toks : List (Sym Token)} {complete : Bool} :
      parseToken s = .ok (.statementEnd, v, behind) → Scan n behind toks complete →
      Scan (n + 1) s (.stop :: toks) complete
  | enter {s behind : IStream} {v : Text} {n : ℕ} {toks : List (Sym Token)} {complete : Bool} :
      parseToken s = .ok (.startBlock, v, behind) → Scan n behind toks complete →
      Scan (n + 1) s (.enter :: toks) complete
  | leave {s behind : IStream} {v : Text} {n : ℕ} {toks : List (Sym Token)} {complete : Bool} :
      parseToken s = .ok (.endBlock, v, behind) → Scan n behind toks complete →
      Scan (n + 1) s (.leave :: toks) complete

/-- The stream stands before a text; behind the end of the file it may not be good. -/
def Ahead (s : IStream) (t : Text) : Prop :=
  (∃ past, s = { past, rest := t }) ∨ (s.good = false ∧ t = [])

variable {s : IStream} {t r mid past : Text} {c : UInt8} {n : ℕ} {item lexemes : List (Sym Word)}
  {toks : List (Sym Token)} {complete : Bool}

/-- The first byte decides on what a call of the tokenizer does. -/
theorem parseToken_cons : parseToken { past, rest := c :: r } =
    match classify c with
    | .enter => .ok (.startBlock, [c], { past := c :: past, rest := r })
    | .leave => .ok (.endBlock, [c], { past := c :: past, rest := r })
    | .comment => parseTokenLoop (r.length + 1) .comment [c] { past := c :: past, rest := r }
    | .quote => parseTokenLoop (r.length + 1) (quoteState c) [c] { past := c :: past, rest := r }
    | .stop => .ok (.statementEnd, [c], { past := c :: past, rest := r })
    | .space => parseToken { past := c :: past, rest := r }
    | .bare => parseTokenLoop (r.length + 1) .normal [c] { past := c :: past, rest := r } :=
  loop_initial (r.length + 1)

/-- Nothing is ahead at the end of the file. -/
theorem parseToken_nil (hs : Ahead s []) : ∃ behind, parseToken s = .ok (.eof, [], behind) := by
  cases hs with
  | inl hs =>
    obtain ⟨past, rfl⟩ := hs
    have h : Finishes .initialWhitespace [] { past, rest := [] } _ := .atEnd
    exact ⟨_, h.parseToken⟩
  | inr hs =>
    have h : Finishes .initialWhitespace [] s _ := .notGood hs.1
    exact ⟨_, h.parseToken⟩

/-- A call that returns the same gives the same tokens. -/
theorem Scan.congr {other : IStream} (h : Scan n s toks complete)
    (heq : parseToken other = parseToken s) : Scan n other toks complete := by
  cases h with
  | eof h => exact .eof (heq.trans h)
  | error h => exact .error (heq.trans h)
  | unfollowed h hnot => exact .unfollowed (heq.trans h) hnot
  | comment h hscan => exact .comment (heq.trans h) hscan
  | normal h hscan => exact .normal (heq.trans h) hscan
  | quoted h hfollowed hscan => exact .quoted (heq.trans h) hfollowed hscan
  | stop h hscan => exact .stop (heq.trans h) hscan
  | enter h hscan => exact .enter (heq.trans h) hscan
  | leave h hscan => exact .leave (heq.trans h) hscan

/-- There is at least one call. -/
theorem Scan.pos (h : Scan n s toks complete) : 0 < n := by
  cases h with
  | eof => exact Nat.one_pos
  | error => exact Nat.one_pos
  | unfollowed => exact Nat.one_pos
  | _ => exact Nat.succ_pos _

/-- No tokens are ahead at the end of the file. -/
theorem Scan.eq_nil (h : Scan n s toks complete) (hs : Ahead s []) :
    toks = [] ∧ complete = true := by
  obtain ⟨behind, heof⟩ := parseToken_nil hs
  cases h with
  | eof h => exact ⟨rfl, rfl⟩
  | _ h => cases heof.symm.trans h

/-- A comment at the start of a text is skipped. -/
private theorem scan_comment (hc : classify c = .comment) :
    ∃ behind, Ahead behind (r.dropWhile (!isLineEnd ·)) ∧ ∀ n toks complete,
      n ≤ (r.dropWhile (!isLineEnd ·)).length + 1 → Scan n behind toks complete →
        ∃ m ≤ (c :: r).length + 1, Scan m { past, rest := c :: r } toks complete := by
  have hbody : ∀ d ∈ r.takeWhile (!isLineEnd ·), isLineEnd d = false := by
    intro d hd
    simpa using List.mem_takeWhile_imp hd
  have hsplit := List.takeWhile_append_dropWhile (p := (!isLineEnd ·)) (l := r)
  have hloop {result : TokenType × Text × IStream}
      (h : Finishes .comment ([c] ++ r.takeWhile (!isLineEnd ·))
        { past := (r.takeWhile (!isLineEnd ·)).reverse ++ c :: past,
          rest := r.dropWhile (!isLineEnd ·) } result) :
      parseToken { past, rest := c :: r } = .ok result := by
    have hfinishes := Finishes.append (fun c value past r hc => loop_comment hc) hbody h
    rw [hsplit] at hfinishes
    rw [parseToken_cons, hc]
    exact hfinishes _ (Nat.lt_succ_self _)
  cases hrest : r.dropWhile (!isLineEnd ·) with
  | nil =>
    rw [hrest] at hloop hsplit
    rw [List.append_nil] at hsplit
    rw [hsplit] at hloop
    cases r with
    | nil =>
      refine ⟨ended past, .inr ⟨rfl, rfl⟩, fun n toks complete _ hscan => ?_⟩
      obtain ⟨rfl, rfl⟩ := hscan.eq_nil (.inr ⟨rfl, rfl⟩)
      exact ⟨1, by simp, .eof (hloop .atEnd)⟩
    | cons d r =>
      refine ⟨(ended ((d :: r).reverse ++ c :: past)).unget, .inr ⟨rfl, rfl⟩,
        fun n toks complete hn hscan => ⟨n + 1, ?_, ?_⟩⟩
      · simp only [List.length_cons, List.length_nil] at hn ⊢
        omega
      · exact .comment (hloop .atEnd) hscan
  | cons d after =>
    rw [hrest] at hloop
    have hd : isLineEnd d = true := by
      have hends := List.head?_dropWhile_not (!isLineEnd ·) r
      rw [hrest] at hends
      simpa using hends
    have hspace : classify d = .space := by
      have hline : d = '\n'.toUInt8 ∨ d = '\r'.toUInt8 := by simpa [isLineEnd] using hd
      cases hline with
      | inl h => rw [h]; rfl
      | inr h => rw [h]; rfl
    refine ⟨_, .inl ⟨(r.takeWhile (!isLineEnd ·)).reverse ++ c :: past, rfl⟩,
      fun n toks complete hn hscan => ⟨n + 1, ?_, ?_⟩⟩
    · have hlength := congrArg List.length hsplit
      rw [hrest, List.length_append] at hlength
      simp only [List.length_cons] at hn hlength ⊢
      omega
    · refine .comment (hloop (.now fun fuel => loop_lineEnd hd fuel)) (hscan.congr ?_)
      rw [parseToken_cons, hspace]

/-- A bare word at the start of a text is a token, unless it is one byte at the end. -/
private theorem scan_bare (hc : classify c = .bare) (past : Text)
    (hlast : r.takeWhile (!endsNormal ·) = [] → r.dropWhile (!endsNormal ·) ≠ []) :
    ∃ behind, Ahead behind (r.dropWhile (!endsNormal ·)) ∧
      parseToken { past, rest := c :: r } =
        .ok (.normal, c :: r.takeWhile (!endsNormal ·), behind) := by
  have hbody : ∀ d ∈ r.takeWhile (!endsNormal ·), endsNormal d = false := by
    intro d hd
    simpa using List.mem_takeWhile_imp hd
  have hloop {result : TokenType × Text × IStream}
      (h : Finishes .normal ([c] ++ r.takeWhile (!endsNormal ·))
        { past := (r.takeWhile (!endsNormal ·)).reverse ++ c :: past,
          rest := r.dropWhile (!endsNormal ·) } result) :
      parseToken { past, rest := c :: r } = .ok result := by
    have hfinishes := Finishes.append (fun c value past r hc => loop_normal hc) hbody h
    rw [List.takeWhile_append_dropWhile] at hfinishes
    rw [parseToken_cons, hc]
    exact hfinishes _ (Nat.lt_succ_self _)
  cases hrest : r.dropWhile (!endsNormal ·) with
  | nil =>
    rw [hrest] at hloop
    have hlength : ([c] ++ r.takeWhile (!endsNormal ·)).length > 1 := by
      have hpos := List.length_pos_iff.mpr fun h => hlast h hrest
      simp only [List.length_append, List.length_singleton]
      omega
    have htoken := hloop .atEnd
    rw [tokenAtEnd, if_neg (by simp), if_pos hlength] at htoken
    exact ⟨(ended _).unget, .inr ⟨rfl, rfl⟩, htoken⟩
  | cons d after =>
    rw [hrest] at hloop
    have hd : endsNormal d = true := by
      have hends := List.head?_dropWhile_not (!endsNormal ·) r
      rw [hrest] at hends
      simpa using hends
    exact ⟨_, .inl ⟨_, rfl⟩, hloop (.now fun fuel => loop_delimiter hd fuel)⟩

/-- A quote is no backslash. -/
theorem ne_backslash_of_quote (hc : classify c = .quote) : c ≠ '\\'.toUInt8 := by
  intro h
  rw [h] at hc
  cases hc

/-- A quoted string at the start of a text is a token. -/
theorem parseToken_quoted {body : Text} (hc : classify c = .quote)
    (hbody : InsideQuotes c c body) (past after : Text) :
    ∃ behind, parseToken { past, rest := c :: (body ++ c :: after) } =
      .ok (.quotedString, (Word.quoted c body).token.value, { past := behind, rest := after }) := by
  obtain ⟨behind, h⟩ := finishes_quoted hc [c] (c :: past) (r := after) hbody
    (fun h => absurd h (ne_backslash_of_quote hc))
  refine ⟨behind, ?_⟩
  rw [parseToken_cons, hc]
  exact h _ (Nat.lt_succ_self _)

/-- A quoted string at the start of a text that is not closed is an error. -/
theorem parseToken_unclosed (hc : classify c = .quote)
    (hopen : ∀ body after, t = body ++ c :: after → ¬ InsideQuotes c c body) (past : Text) :
    ∃ v behind, parseToken { past, rest := c :: t } = .ok (.error, v, ended behind) := by
  obtain ⟨v, behind, h⟩ := finishes_unclosed hc [c] (c :: past) hopen
    (fun h => absurd h (ne_backslash_of_quote hc))
  refine ⟨v, behind, ?_⟩
  rw [parseToken_cons, hc]
  exact h _ (Nat.lt_succ_self _)

/-- An item at the start of a text is scanned, unless it is a bare word of one byte at the end. -/
theorem scan_item (hstep : LexStep endsNormal t item mid)
    (hlast : ∀ c, item = [.word (.bare [c])] → mid ≠ []) (hs : Ahead s t) :
    ∃ behind, Ahead behind mid ∧ ∀ n toks complete, n ≤ mid.length + 1 →
      Scan n behind toks complete →
        ∃ m ≤ t.length + 1,
          Scan m s (item.map (BlockGrammar.Sym.map Word.token) ++ toks) complete := by
  have hlength := hstep.length_lt
  cases hs with
  | inr hs =>
    rw [hs.2] at hlength
    cases hlength
  | inl hs =>
    obtain ⟨past, rfl⟩ := hs
    cases hstep with
    | @space c _ hc =>
      refine ⟨{ past := c :: past, rest := mid }, .inl ⟨_, rfl⟩, fun n toks complete hn h =>
        ⟨n, by omega, h.congr ?_⟩⟩
      rw [parseToken_cons, hc]
    | comment hc => exact scan_comment hc
    | @stop c _ hc =>
      refine ⟨{ past := c :: past, rest := mid }, .inl ⟨_, rfl⟩, fun n toks complete hn h =>
        ⟨n + 1, by omega, .stop (v := [c]) ?_ h⟩⟩
      rw [parseToken_cons, hc]
    | @enter c _ hc =>
      refine ⟨{ past := c :: past, rest := mid }, .inl ⟨_, rfl⟩, fun n toks complete hn h =>
        ⟨n + 1, by omega, .enter (v := [c]) ?_ h⟩⟩
      rw [parseToken_cons, hc]
    | @leave c _ hc =>
      refine ⟨{ past := c :: past, rest := mid }, .inl ⟨_, rfl⟩, fun n toks complete hn h =>
        ⟨n + 1, by omega, .leave (v := [c]) ?_ h⟩⟩
      rw [parseToken_cons, hc]
    | @bare c tail hc =>
      obtain ⟨behind, hahead, htoken⟩ := scan_bare hc past (r := tail)
        fun hempty => hlast c (by rw [hempty])
      exact ⟨behind, hahead, fun n toks complete hn h => ⟨n + 1, by omega, .normal htoken h⟩⟩
    | @quoted c d tail body after hc htail hbody hfollows =>
      subst htail
      obtain ⟨behind, htoken⟩ := parseToken_quoted hc hbody past (d :: after)
      refine ⟨{ past := behind, rest := d :: after }, .inl ⟨_, rfl⟩, fun n toks complete hn h =>
        ⟨n + 1, by omega, .quoted htoken ⟨rfl, hfollows⟩ h⟩⟩

/-- The items at the start of a text are scanned, when the text ends behind finished statements
or with a bare word of one byte behind them. -/
theorem scan_of_lexesTo (hlex : LexesTo endsNormal t lexemes r)
    (hends : (r = [] ∧ EndsStatement lexemes) ∨ ∃ c, classify c = .bare ∧ r = [c])
    (hs : Ahead s t) :
    ∃ n ≤ t.length + 1, Scan n s (lexemes.map (BlockGrammar.Sym.map Word.token)) true := by
  induction hlex generalizing s with
  | refl =>
    cases hends with
    | inl hends =>
      rw [hends.1] at hs
      obtain ⟨behind, heof⟩ := parseToken_nil hs
      exact ⟨1, by omega, .eof heof⟩
    | inr hends =>
      obtain ⟨c, hc, rfl⟩ := hends
      cases hs with
      | inr hs => cases hs.2
      | inl hs =>
        obtain ⟨past, rfl⟩ := hs
        have h : parseToken { past, rest := [c] } = .ok (.eof, [c], ended (c :: past)) := by
          rw [parseToken_cons, hc]
          rfl
        exact ⟨1, by simp, .eof h⟩
  | @head t mid rest item lexemes hstep htail ih =>
    have hlast : ∀ c, item = [.word (.bare [c])] → mid ≠ [] := by
      intro c hitem hmid
      rw [hmid] at htail
      obtain ⟨rfl, rfl⟩ := htail.eq_nil
      cases hends with
      | inl hends => exact hends.2 _ (by rw [hitem]; rfl)
      | inr hends =>
        obtain ⟨c, -, hc⟩ := hends
        cases hc
    have hends' : (rest = [] ∧ EndsStatement lexemes) ∨ ∃ c, classify c = .bare ∧ rest = [c] :=
      hends.imp_left fun h => ⟨h.1, h.2.behind⟩
    obtain ⟨behind, hahead, hscan⟩ := scan_item hstep hlast hs
    obtain ⟨n, hn, hrest⟩ := ih hends' hahead
    rw [List.map_append]
    exact hscan n _ true hn hrest

/-- What the tokenizer leaves of a file: nothing or a bare word of one byte at its end, and at an
error something that is no item. -/
def Leaves (complete : Bool) (r : Text) : Prop :=
  if complete then r = [] ∨ ∃ c, classify c = .bare ∧ r = [c]
  else ∀ item mid, ¬ LexStep endsNormal r item mid

/-- A quote begins no item when no quote that closes the string has behind it what may follow. -/
private theorem leaves_quote (hc : classify c = .quote)
    (hnone : ∀ body d after, t = body ++ c :: d :: after → InsideQuotes c c body →
      followsQuoted d ≠ true) : Leaves false (c :: t) := by
  intro item mid hstep
  cases hstep with
  | quoted _ htail hbody hfollows => exact hnone _ _ _ htail hbody hfollows
  | _ h => cases hc.symm.trans h

/-- Behind a quote an item is read, or there is an error. -/
private theorem item_or_error (hc : classify c = .quote) (past : Text) :
    (∃ item mid, LexStep endsNormal (c :: t) item mid ∧ ∀ w, item ≠ [.word (.bare w)]) ∨
      (Scan 1 { past, rest := c :: t } [] false ∧ Leaves false (c :: t)) := by
  by_cases hclosed : ∃ body after, t = body ++ c :: after ∧ InsideQuotes c c body
  · obtain ⟨body, after, rfl, hbody⟩ := hclosed
    obtain ⟨behind, htoken⟩ := parseToken_quoted hc hbody past after
    by_cases hfollowed : Followed { past := behind, rest := after }
    · cases after with
      | nil => cases hfollowed.1
      | cons d after => exact .inl ⟨_, _, .quoted hc rfl hbody hfollowed.2, nofun⟩
    · refine .inr ⟨.unfollowed htoken hfollowed, leaves_quote hc ?_⟩
      intro other d after' htail hother hfollows
      obtain ⟨-, rfl⟩ := insideQuotes_unique hbody hother htail
      exact hfollowed ⟨rfl, hfollows⟩
  · obtain ⟨v, behind, herror⟩ := parseToken_unclosed hc
      (fun body after htail hbody => hclosed ⟨body, after, htail, hbody⟩) past
    exact .inr ⟨.error herror, leaves_quote hc
      fun body d after htail hbody _ => hclosed ⟨body, _, htail, hbody⟩⟩

/-- A bare word is an item that is scanned, unless it is a single byte at the end of the file. -/
private theorem item_or_tail (hc : classify c = .bare) (past : Text) :
    (∃ item mid, LexStep endsNormal (c :: t) item mid ∧
      ∀ d, item = [.word (.bare [d])] → mid ≠ []) ∨
      (Scan 1 { past, rest := c :: t } [] true ∧ Leaves true (c :: t)) := by
  cases t with
  | nil =>
    have htoken : parseToken { past, rest := [c] } = .ok (.eof, [c], ended (c :: past)) := by
      rw [parseToken_cons, hc]
      rfl
    exact .inr ⟨.eof htoken, .inr ⟨c, hc, rfl⟩⟩
  | cons e tail =>
    refine .inl ⟨_, _, .bare hc, fun d hd hempty => ?_⟩
    have hword := Word.bare.inj (Sym.word.inj (List.cons.inj hd).1)
    have hsplit := List.takeWhile_append_dropWhile (p := (!endsNormal ·)) (l := e :: tail)
    rw [(List.cons.inj hword).2, hempty] at hsplit
    cases hsplit

/-- Every file has a sequence of tokens. It is that of the items of the file, up to an error or a
bare word of one byte at the end. -/
theorem exists_scan (hs : Ahead s t) :
    ∃ n ≤ t.length + 1, ∃ toks complete, Scan n s toks complete ∧
      ∃ lexemes r, LexesTo endsNormal t lexemes r ∧
        toks = lexemes.map (BlockGrammar.Sym.map Word.token) ∧ Leaves complete r := by
  induction hlength : t.length using Nat.strong_induction_on generalizing s t with
  | _ length ih =>
  subst hlength
  have hitem {item : List (Sym Word)} {mid : Text} (hstep : LexStep endsNormal t item mid)
      (hlast : ∀ c, item = [.word (.bare [c])] → mid ≠ []) :
      ∃ n ≤ t.length + 1, ∃ toks complete, Scan n s toks complete ∧
        ∃ lexemes r, LexesTo endsNormal t lexemes r ∧
          toks = lexemes.map (BlockGrammar.Sym.map Word.token) ∧ Leaves complete r := by
    obtain ⟨behind, hahead, hscan⟩ := scan_item hstep hlast hs
    obtain ⟨n, hn, toks, complete, hrest, lexemes, r, hlex, rfl, hr⟩ :=
      ih mid.length hstep.length_lt hahead rfl
    obtain ⟨m, hm, hall⟩ := hscan n _ complete hn hrest
    exact ⟨m, hm, _, complete, hall, item ++ lexemes, r, .head hstep hlex,
      by rw [List.map_append], hr⟩
  cases t with
  | nil =>
    obtain ⟨behind, heof⟩ := parseToken_nil hs
    exact ⟨1, by simp, [], true, .eof heof, [], [], .refl, rfl, .inl rfl⟩
  | cons c tail =>
    cases hs with
    | inr hs => cases hs.2
    | inl hs =>
      obtain ⟨past, rfl⟩ := hs
      cases hc : classify c with
      | space => exact hitem (.space hc) nofun
      | comment => exact hitem (.comment hc) nofun
      | stop => exact hitem (.stop hc) nofun
      | enter => exact hitem (.enter hc) nofun
      | leave => exact hitem (.leave hc) nofun
      | bare =>
        cases item_or_tail hc past with
        | inl hread =>
          obtain ⟨item, mid, hstep, hlast⟩ := hread
          exact hitem hstep hlast
        | inr htail => exact ⟨1, by simp, [], true, htail.1, [], _, .refl, rfl, htail.2⟩
      | quote =>
        cases item_or_error hc past with
        | inl hread =>
          obtain ⟨item, mid, hstep, hnot⟩ := hread
          exact hitem hstep fun d hd => absurd hd (hnot [d])
        | inr herror => exact ⟨1, by simp, [], false, herror.1, [], _, .refl, rfl, herror.2⟩

end Aite.Config
