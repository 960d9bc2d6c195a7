import Aite.Config.Lexemes
import Aite.Config.ParseToken

/-!
# What the tokenizer reads

One call of the tokenizer skips blanks and then reads one item of the lexical grammar. The
value of a quoted string is its decoded text between two quotes; in single quotes every byte
of the text, and the closing quote, is stored once more.

At the end of the file a bare word of one byte is not a token, an open comment is one only if
it has a text, and a quoted string that is not closed is an error.
-/

namespace Aite.Config

/-- The state of the tokenizer behind an opening quote. -/
def quoteState (quote : UInt8) : TokenParserState :=
  if quote = '"'.toUInt8 then .doubleQuote else .singleQuote

/-- What the state behind a single quote appends to the value before anything else. -/
def lead (quote c : UInt8) : Text := if quote = '"'.toUInt8 then [] else [c]

/-- The byte that an escape stands for. -/
def escaped (quote d : UInt8) : Option UInt8 :=
  if d = 't'.toUInt8 then some '\t'.toUInt8
  else if d = 'n'.toUInt8 then some '\n'.toUInt8
  else if d = 'r'.toUInt8 then some '\r'.toUInt8
  else if d = quote then some quote
  else none

/-- The value of the text between two quotes. -/
def decode (quote : UInt8) : Text → Text
  | [] => []
  | [c] => lead quote c ++ [c]
  | c :: d :: rest =>
    if c = '\\'.toUInt8 then
      match escaped quote d with
      | some e => lead quote c ++ e :: decode quote rest
      | none => lead quote c ++ c :: decode quote (d :: rest)
    else lead quote c ++ c :: decode quote (d :: rest)

/-- The loop ends with a result, given one iteration for each byte and one more. -/
def Finishes (state : TokenParserState) (value : Text) (input : IStream)
    (result : TokenType × Text × IStream) : Prop :=
  ∀ fuel, input.rest.length < fuel → parseTokenLoop fuel state value input = .ok result

/-- A stream after a failed `get` at its end. -/
def ended (past : Text) : IStream := { past, rest := [], eofbit := true, failbit := true }

variable {state next : TokenParserState} {value other past r : Text} {c : UInt8} {s : IStream}
  {result : TokenType × Text × IStream}

/-- The loop of a call of the tokenizer has enough iterations. -/
theorem Finishes.parseToken (h : Finishes .initialWhitespace [] s result) :
    parseToken s = .ok result :=
  h _ (Nat.lt_succ_self _)

/-- One iteration takes the loop to where it ends. -/
theorem Finishes.step {t : IStream} (h : Finishes next other t result)
    (ht : t.rest.length ≤ r.length)
    (hstep : ∀ fuel, parseTokenLoop (fuel + 1) state value { past, rest := c :: r } =
      parseTokenLoop fuel next other t) :
    Finishes state value { past, rest := c :: r } result := by
  intro fuel hfuel
  cases fuel with
  | zero => cases hfuel
  | succ fuel =>
    rw [hstep]
    apply h
    simp only [List.length_cons] at hfuel
    omega

/-- The loop returns in one iteration. -/
theorem Finishes.now
    (hstep : ∀ fuel, parseTokenLoop (fuel + 1) state value s = .ok result) :
    Finishes state value s result := by
  intro fuel hfuel
  cases fuel with
  | zero => cases hfuel
  | succ fuel => exact hstep fuel

/-- The loop ends at the end of the text. -/
theorem Finishes.atEnd :
    Finishes state value { past, rest := [] } (tokenAtEnd state value (ended past)) :=
  .now fun _ => rfl

/-- The loop does not start on a stream that is not good. -/
theorem Finishes.notGood (h : s.good = false) :
    Finishes state value s (tokenAtEnd state value s) := by
  apply Finishes.now
  intro fuel
  simp only [parseTokenLoop, h, Bool.not_false, if_true]

/-- A byte at the start of an item decides on the state. -/
theorem loop_initial (fuel : ℕ) :
    parseTokenLoop (fuel + 1) .initialWhitespace value { past, rest := c :: r } =
      match classify c with
      | .enter => .ok (.startBlock, [c], { past := c :: past, rest := r })
      | .leave => .ok (.endBlock, [c], { past := c :: past, rest := r })
      | .comment => parseTokenLoop fuel .comment [c] { past := c :: past, rest := r }
      | .quote => parseTokenLoop fuel (quoteState c) [c] { past := c :: past, rest := r }
      | .stop => .ok (.statementEnd, [c], { past := c :: past, rest := r })
      | .space => parseTokenLoop fuel .initialWhitespace value { past := c :: past, rest := r }
      | .bare => parseTokenLoop fuel .normal (value ++ [c]) { past := c :: past, rest := r } := by
  have hget : ({ past, rest := c :: r } : IStream).get = (c, { past := c :: past, rest := r }) := rfl
  have hgood (past rest : Text) : ({ past, rest } : IStream).good = true := rfl
  simp only [parseTokenLoop, hget, hgood, Bool.not_true, Bool.false_eq_true, if_false, classify,
    quoteState]
  by_cases hdouble : c = '"'.toUInt8
  · subst hdouble
    rfl
  · by_cases hsingle : c = '\''.toUInt8
    · subst hsingle
      rfl
    · simp only [hdouble, hsingle, or_self, if_false]
      split_ifs <;> rfl

/-- A byte behind an opening quote is handled alike for both quotes. -/
theorem loop_quoted {quote : UInt8} (hquote : classify quote = .quote) (fuel : ℕ) :
    parseTokenLoop (fuel + 1) (quoteState quote) value { past, rest := c :: r } =
      (let (closed, value, next) :=
        readQuoted quote c (value ++ lead quote c) { past := c :: past, rest := r }
      if closed then .ok (.quotedString, value, next)
      else parseTokenLoop fuel (quoteState quote) value next) := by
  cases classify_quote_iff.mp hquote with
  | inl hdouble =>
    rw [hdouble, lead, if_pos rfl, List.append_nil]
    rfl
  | inr hsingle =>
    rw [hsingle]
    rfl

/-- A comment goes on to the end of the line. -/
theorem loop_comment (hc : isLineEnd c = false) (fuel : ℕ) :
    parseTokenLoop (fuel + 1) .comment value { past, rest := c :: r } =
      parseTokenLoop fuel .comment (value ++ [c]) { past := c :: past, rest := r } := by
  have hline : ¬ (c = '\n'.toUInt8 ∨ c = '\r'.toUInt8) := by simpa [isLineEnd] using hc
  exact if_neg hline

/-- The end of the line ends a comment. -/
theorem loop_lineEnd (hc : isLineEnd c = true) (fuel : ℕ) :
    parseTokenLoop (fuel + 1) .comment value { past, rest := c :: r } =
      .ok (.comment, value, { past := c :: past, rest := r }) := by
  have hline : c = '\n'.toUInt8 ∨ c = '\r'.toUInt8 := by simpa [isLineEnd] using hc
  exact if_pos hline

/-- The bytes that end a bare word are those that the tokenizer compares with. -/
theorem endsNormal_iff : endsNormal c = true ↔
    c = ' '.toUInt8 ∨ c = '\t'.toUInt8 ∨ c = '\n'.toUInt8 ∨ c = '\t'.toUInt8 ∨
      c = ';'.toUInt8 ∨ c = '\x7b'.toUInt8 ∨ c = '\x7d'.toUInt8 := by
  constructor
  · intro h
    unfold endsNormal endsBare classify at h
    grind
  · intro h
    rcases h with rfl | rfl | rfl | rfl | rfl | rfl | rfl <;> rfl

/-- A bare word goes on to whitespace other than a carriage return, or to punctuation. -/
theorem loop_normal (hc : endsNormal c = false) (fuel : ℕ) :
    parseTokenLoop (fuel + 1) .normal value { past, rest := c :: r } =
      parseTokenLoop fuel .normal (value ++ [c]) { past := c :: past, rest := r } :=
  if_neg (mt endsNormal_iff.mpr (by simp [hc]))

/-- What ends a bare word is put back. -/
theorem loop_delimiter (hc : endsNormal c = true) (fuel : ℕ) :
    parseTokenLoop (fuel + 1) .normal value { past, rest := c :: r } =
      .ok (.normal, value, { past, rest := c :: r }) :=
  if_pos (endsNormal_iff.mp hc)

/-- Bytes that the state goes on with are appended to the value. -/
theorem Finishes.append {ends : UInt8 → Bool} {body : Text}
    (hstep : ∀ c value past r, ends c = false → ∀ fuel,
      parseTokenLoop (fuel + 1) state value { past, rest := c :: r } =
        parseTokenLoop fuel state (value ++ [c]) { past := c :: past, rest := r })
    (hbody : ∀ d ∈ body, ends d = false)
    (h : Finishes state (value ++ body) { past := body.reverse ++ past, rest := r } result) :
    Finishes state value { past, rest := body ++ r } result := by
  induction body generalizing value past with
  | nil => rwa [List.append_nil] at h
  | cons d body ih =>
    have h' : Finishes state (value ++ [d] ++ body)
        { past := body.reverse ++ d :: past, rest := r } result := by simpa using h
    have hrest := ih (fun e he => hbody e (List.mem_cons_of_mem d he)) h'
    exact hrest.step (Nat.le_refl _) (hstep d value past _ (hbody d List.mem_cons_self))

/-! ## Quoted strings -/

/-- A quote that is not escaped closes the string. -/
theorem loop_close {quote : UInt8} (hquote : classify quote = .quote) (fuel : ℕ) :
    parseTokenLoop (fuel + 1) (quoteState quote) value { past, rest := quote :: r } =
      .ok (.quotedString, value ++ lead quote quote ++ [quote],
        { past := quote :: past, rest := r }) := by
  have hne : quote ≠ '\\'.toUInt8 := by
    intro h
    rw [h] at hquote
    cases hquote
  rw [loop_quoted hquote, readQuoted, if_neg hne]
  simp

/-- A byte that is neither a quote nor a backslash is kept. -/
theorem loop_plain {quote : UInt8} (hquote : classify quote = .quote) (hc : c ≠ '\\'.toUInt8)
    (hne : c ≠ quote) (fuel : ℕ) :
    parseTokenLoop (fuel + 1) (quoteState quote) value { past, rest := c :: r } =
      parseTokenLoop fuel (quoteState quote) (value ++ (lead quote c ++ [c]))
        { past := c :: past, rest := r } := by
  rw [loop_quoted hquote, readQuoted, if_neg hc]
  simp [hne]

/-- A backslash and the byte behind it are one escape, or the backslash is kept. -/
theorem loop_backslash {quote d : UInt8} (hquote : classify quote = .quote) (fuel : ℕ) :
    parseTokenLoop (fuel + 1) (quoteState quote) value
        { past, rest := '\\'.toUInt8 :: d :: r } =
      match escaped quote d with
      | some e => parseTokenLoop fuel (quoteState quote)
          (value ++ (lead quote '\\'.toUInt8 ++ [e]))
          { past := d :: '\\'.toUInt8 :: past, rest := r }
      | none => parseTokenLoop fuel (quoteState quote)
          (value ++ (lead quote '\\'.toUInt8 ++ ['\\'.toUInt8]))
          { past := '\\'.toUInt8 :: past, rest := d :: r } := by
  have hget (past rest : Text) : ({ past, rest := d :: rest } : IStream).get =
      (d, { past := d :: past, rest }) := rfl
  have hgood (past rest : Text) : ({ past, rest } : IStream).good = true := rfl
  have hunget (past rest : Text) : ({ past := d :: past, rest } : IStream).unget =
      { past, rest := d :: rest } := rfl
  rw [loop_quoted hquote, readQuoted, if_pos rfl, hget]
  simp only [hgood, hunget, Bool.not_true, Bool.false_eq_true, if_false, escaped]
  split_ifs <;> first | contradiction | simp

/-- A backslash at the end of the file reads beyond it. -/
theorem loop_backslash_end {quote : UInt8} (hquote : classify quote = .quote) (fuel : ℕ) :
    parseTokenLoop (fuel + 1) (quoteState quote) value { past, rest := ['\\'.toUInt8] } =
      parseTokenLoop fuel (quoteState quote) (value ++ lead quote '\\'.toUInt8)
        (ended ('\\'.toUInt8 :: past)) := by
  rw [loop_quoted hquote]
  rfl

/-- A byte that makes an escape is not a backslash. -/
theorem escaped_backslash {quote : UInt8} (hquote : classify quote = .quote) :
    escaped quote '\\'.toUInt8 = none := by
  cases classify_quote_iff.mp hquote with
  | inl h => rw [h]; rfl
  | inr h => rw [h]; rfl

/-- A quote makes an escape. -/
theorem escaped_quote (quote : UInt8) : escaped quote quote ≠ none := by
  unfold escaped
  split_ifs <;> simp_all

/-- A quoted string ends at its closing quote, with the value of its text. -/
theorem finishes_quoted {quote before : UInt8} (hquote : classify quote = .quote) (value past : Text)
    {body : Text} (hbody : InsideQuotes quote before body)
    (hhead : before = '\\'.toUInt8 → body.head? ≠ some quote) :
    ∃ behind, Finishes (quoteState quote) value { past, rest := body ++ quote :: r }
      (.quotedString, value ++ decode quote body ++ lead quote quote ++ [quote],
        { past := behind, rest := r }) := by
  induction body using decode.induct quote generalizing before value past with
  | case1 =>
    refine ⟨quote :: past, .now fun fuel => ?_⟩
    rw [decode, List.append_nil]
    exact loop_close hquote fuel
  | case2 c =>
    have hne : c ≠ quote := fun h => hhead (hbody.1 h) (congrArg some h)
    refine ⟨quote :: c :: past, .step ?_ (Nat.le_refl _) (loop_plain hquote hbody.2 hne)⟩
    rw [decode]
    exact .now (loop_close hquote)
  | case3 d rest e he ih =>
    have hd : d ≠ '\\'.toUInt8 := by
      intro h
      rw [h, escaped_backslash hquote] at he
      cases he
    obtain ⟨behind, h⟩ := ih (value ++ (lead quote '\\'.toUInt8 ++ [e]))
      (d :: '\\'.toUInt8 :: past) hbody.2.2 (fun h => absurd h hd)
    have hstep : Finishes (quoteState quote) value
        { past, rest := '\\'.toUInt8 :: d :: (rest ++ quote :: r) } _ :=
      h.step (Nat.le_succ _) fun fuel => by rw [loop_backslash hquote, he]
    refine ⟨behind, ?_⟩
    rw [decode, if_pos rfl, he]
    simpa using hstep
  | case4 d rest he ih =>
    have hd : d ≠ quote := by
      intro h
      exact escaped_quote quote (h ▸ he)
    obtain ⟨behind, h⟩ := ih (value ++ (lead quote '\\'.toUInt8 ++ ['\\'.toUInt8]))
      ('\\'.toUInt8 :: past) hbody.2 (fun _ h => hd (Option.some.inj h))
    have hstep : Finishes (quoteState quote) value
        { past, rest := '\\'.toUInt8 :: d :: (rest ++ quote :: r) } _ :=
      h.step (Nat.le_refl _) fun fuel => by
        rw [loop_backslash hquote, he]
        rfl
    refine ⟨behind, ?_⟩
    rw [decode, if_pos rfl, he]
    simpa using hstep
  | case5 c d rest hc ih =>
    have hne : c ≠ quote := fun h => hhead (hbody.1 h) (congrArg some h)
    obtain ⟨behind, h⟩ := ih (value ++ (lead quote c ++ [c])) (c :: past) hbody.2
      (fun h => absurd h hc)
    have hstep : Finishes (quoteState quote) value
        { past, rest := c :: d :: (rest ++ quote :: r) } _ :=
      h.step (Nat.le_refl _) (loop_plain hquote hc hne)
    refine ⟨behind, ?_⟩
    rw [decode, if_neg hc]
    simpa using hstep

/-- A quoted string without a closing quote is an error at the end of the text. -/
theorem finishes_unclosed {quote before : UInt8} (hquote : classify quote = .quote)
    (value past : Text) {t : Text}
    (hopen : ∀ body after, t = body ++ quote :: after → ¬ InsideQuotes quote before body)
    (hhead : before = '\\'.toUInt8 → t.head? ≠ some quote) :
    ∃ v behind, Finishes (quoteState quote) value { past, rest := t } (.error, v, ended behind) := by
  have herror (value : Text) (s : IStream) :
      tokenAtEnd (quoteState quote) value s = (.error, value, s) := by
    unfold tokenAtEnd quoteState
    split_ifs <;> simp_all
  have hbehind {before c : UInt8} {rest : Text} (h : ∀ body after,
      c :: rest = body ++ quote :: after → ¬ InsideQuotes quote before body)
      (hc : c = quote → before = '\\'.toUInt8) :
      ∀ body after, rest = body ++ quote :: after → ¬ InsideQuotes quote c body :=
    fun body after hrest hbody => h (c :: body) after (by rw [hrest]; rfl) ⟨hc, hbody⟩
  have hplain {before c : UInt8} {rest : Text} (h : ∀ body after,
      c :: rest = body ++ quote :: after → ¬ InsideQuotes quote before body)
      (hhead : before = '\\'.toUInt8 → (c :: rest).head? ≠ some quote) : c ≠ quote := by
    intro hc
    subst hc
    exact h [] rest rfl fun hbefore => hhead hbefore rfl
  induction t using decode.induct quote generalizing before value past with
  | case1 => exact ⟨value, past, herror value (ended past) ▸ .atEnd⟩
  | case2 c =>
    by_cases hc : c = '\\'.toUInt8
    · subst hc
      have h : Finishes (quoteState quote) (value ++ lead quote '\\'.toUInt8)
          (ended ('\\'.toUInt8 :: past)) _ := .notGood rfl
      rw [herror] at h
      exact ⟨_, _, h.step (Nat.le_refl _) (loop_backslash_end hquote)⟩
    · have h : Finishes (quoteState quote) (value ++ (lead quote c ++ [c]))
          { past := c :: past, rest := [] } _ := .atEnd
      rw [herror] at h
      exact ⟨_, _, h.step (Nat.le_refl _) (loop_plain hquote hc (hplain hopen hhead))⟩
  | case3 d rest e he ih =>
    have hd : d ≠ '\\'.toUInt8 := by
      intro h
      rw [h, escaped_backslash hquote] at he
      cases he
    have hquote' : '\\'.toUInt8 ≠ quote := hplain hopen hhead
    obtain ⟨v, behind, h⟩ := ih (value ++ (lead quote '\\'.toUInt8 ++ [e]))
      (d :: '\\'.toUInt8 :: past)
      (hbehind (hbehind hopen fun h => absurd h hquote') fun _ => rfl) (fun h => absurd h hd)
    exact ⟨v, behind, h.step (Nat.le_succ _) fun fuel => by rw [loop_backslash hquote, he]⟩
  | case4 d rest he ih =>
    have hd : d ≠ quote := by
      intro h
      exact escaped_quote quote (h ▸ he)
    have hquote' : '\\'.toUInt8 ≠ quote := hplain hopen hhead
    obtain ⟨v, behind, h⟩ := ih (value ++ (lead quote '\\'.toUInt8 ++ ['\\'.toUInt8]))
      ('\\'.toUInt8 :: past) (hbehind hopen fun h => absurd h hquote')
      (fun _ h => hd (Option.some.inj h))
    exact ⟨v, behind, h.step (Nat.le_refl _) fun fuel => by rw [loop_backslash hquote, he]⟩
  | case5 c d rest hc ih =>
    have hne : c ≠ quote := hplain hopen hhead
    obtain ⟨v, behind, h⟩ := ih (value ++ (lead quote c ++ [c])) (c :: past)
      (hbehind hopen fun h => absurd h hne) (fun h => absurd h hc)
    exact ⟨v, behind, h.step (Nat.le_refl _) (loop_plain hquote hc hne)⟩

end Aite.Config
