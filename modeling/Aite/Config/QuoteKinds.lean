import Aite.Config.Scan

/-!
# Single and double quotes

The two kinds of quotes have the same escapes, but behind a single quote each byte is stored
before it is looked at, and so once more than behind a double quote. The stored texts differ
whenever both strings are closed, whatever is between the quotes. What remains are strings that
end in a backslash, which takes the closing quote into the string, with nothing behind it that
closes either of them.
-/

namespace Aite.Config

/-- Neither kind of quote is in the text. -/
def QuoteFree (s : Text) : Prop := ∀ c ∈ s, classify c ≠ .quote

instance (s : Text) : Decidable (QuoteFree s) := inferInstanceAs (Decidable (∀ c ∈ s, _))

/-- What is stored between the quote characters. -/
def contents (value : Text) : Text := value.tail.dropLast

/-- A text between quotes, with what is behind the closing one. -/
def quotedInput (quote : UInt8) (past s r : Text) : IStream :=
  { past, rest := quote :: (s ++ quote :: r) }

/-- Between single and double quotes, the tokenizer returns a quoted string both times with the
same contents, or an error both times, and stops at the same place. -/
def DecodesAlike (past s r : Text) : Prop :=
  ∃ type value behind type' value' behind',
    parseToken (quotedInput '\''.toUInt8 past s r) = .ok (type, value, behind) ∧
      parseToken (quotedInput '"'.toUInt8 past s r) = .ok (type', value', behind') ∧
      behind.rest = behind'.rest ∧
      (type = .quotedString ∧ type' = .quotedString ∧ contents value = contents value' ∨
        type = .error ∧ type' = .error)

/-- Within quotes, this spelling appends these bytes to the value. -/
def Contributes (quote : UInt8) (spelling stored : Text) : Prop :=
  ∀ fuel value past r,
    parseTokenLoop (fuel + 1) (quoteState quote) value { past, rest := spelling ++ r } =
      parseTokenLoop fuel (quoteState quote) (value ++ stored)
        { past := spelling.reverse ++ past, rest := r }

/-- An unescaped quote is in the text behind a quote. -/
def Closes (quote : UInt8) (r : Text) : Prop :=
  ∃ body after, r = body ++ quote :: after ∧ InsideQuotes quote quote body

variable {quote before : UInt8} {s r past body : Text}

/-- Behind its first byte, a text without quotes has none. -/
private theorem QuoteFree.behind {c : UInt8} (hs : QuoteFree (c :: s)) : QuoteFree s :=
  fun d hd => hs d (List.mem_cons_of_mem c hd)

/-! ## Where a string ends -/

/-- Text without quotes decides with its last byte alone on what is behind it. -/
private theorem insideQuotes_append (hquote : classify quote = .quote) (hs : QuoteFree s)
    (rest : Text) :
    InsideQuotes quote before (s ++ rest) ↔ InsideQuotes quote (s.getLast?.getD before) rest := by
  induction s generalizing before with
  | nil => rfl
  | cons c s ih =>
    have hne : c ≠ quote := by
      intro h
      exact hs c List.mem_cons_self (h ▸ hquote)
    rw [List.cons_append, InsideQuotes, ih hs.behind,
      List.getLast?_cons, Option.getD_some]
    exact and_iff_right fun h => absurd h hne

/-- The quote behind a text without quotes closes the string, unless a backslash is in front. -/
private theorem insideQuotes_iff (hquote : classify quote = .quote) (hs : QuoteFree s) :
    InsideQuotes quote quote s ↔ s.getLast? ≠ some '\\'.toUInt8 := by
  have happend : InsideQuotes quote quote (s ++ []) ↔ _ := insideQuotes_append hquote hs []
  rw [List.append_nil] at happend
  rw [happend]
  change s.getLast?.getD quote ≠ '\\'.toUInt8 ↔ _
  cases s.getLast? with
  | none => exact iff_of_true (ne_backslash_of_quote hquote) (Option.some_ne_none _).symm
  | some c => exact not_congr (Option.some_inj).symm

/-- A quote behind a backslash goes on with the string. -/
private theorem insideQuotes_escaped_iff (hquote : classify quote = .quote) (hs : QuoteFree s)
    (hlast : s.getLast? = some '\\'.toUInt8) :
    InsideQuotes quote quote (s ++ quote :: body) ↔ InsideQuotes quote quote body := by
  rw [insideQuotes_append hquote hs, hlast, Option.getD_some, InsideQuotes]
  exact and_iff_right fun _ => rfl

/-- A string that ends in a backslash is closed by what is behind its quote, or not at all. -/
private theorem not_insideQuotes_of_not_closes (hquote : classify quote = .quote)
    (hs : QuoteFree s) (hlast : s.getLast? = some '\\'.toUInt8) (hopen : ¬ Closes quote r) :
    ∀ body after, s ++ quote :: r = body ++ quote :: after → ¬ InsideQuotes quote quote body := by
  intro body after heq hbody
  cases List.append_eq_append_iff.mp heq with
  | inl h =>
    obtain ⟨more, rfl, hmore⟩ := h
    cases more with
    | nil =>
      rw [List.append_nil] at hbody
      exact (insideQuotes_iff hquote hs).mp hbody hlast
    | cons c more =>
      obtain ⟨rfl, hr⟩ := List.cons.inj hmore
      exact hopen ⟨more, after, hr, (insideQuotes_escaped_iff hquote hs hlast).mp hbody⟩
  | inr h =>
    obtain ⟨more, hsplit, hmore⟩ := h
    cases more with
    | nil =>
      rw [List.append_nil] at hsplit
      rw [← hsplit] at hbody
      exact (insideQuotes_iff hquote hs).mp hbody hlast
    | cons c more =>
      obtain ⟨rfl, -⟩ := List.cons.inj hmore
      refine hs quote ?_ hquote
      rw [hsplit]
      exact List.mem_append_right _ List.mem_cons_self

/-! ## What is stored -/

/-- A quote behind a backslash stands for the quote. -/
private theorem escaped_self (hquote : classify quote = .quote) :
    escaped quote quote = some quote := by
  cases classify_quote_iff.mp hquote with
  | inl h => rw [h]; rfl
  | inr h => rw [h]; rfl

/-- A byte in front of a backslash is kept. -/
private theorem decode_cons_backslash (hquote : classify quote = .quote) (c : UInt8)
    (rest : Text) :
    decode quote (c :: '\\'.toUInt8 :: rest) =
      lead quote c ++ c :: decode quote ('\\'.toUInt8 :: rest) := by
  rw [decode]
  split_ifs
  · rw [escaped_backslash hquote]
  · rfl

/-- An escaped quote is stored between what is in front of it and what is behind it. -/
private theorem decode_append (hquote : classify quote = .quote) (u v : Text) :
    decode quote (u ++ '\\'.toUInt8 :: quote :: v) =
      decode quote u ++ (lead quote '\\'.toUInt8 ++ quote :: decode quote v) := by
  have hnil : decode quote ('\\'.toUInt8 :: quote :: v) =
      lead quote '\\'.toUInt8 ++ quote :: decode quote v := by
    rw [decode, if_pos rfl, escaped_self hquote]
  induction u using decode.induct quote with
  | case1 => exact hnil
  | case2 c =>
    change decode quote (c :: '\\'.toUInt8 :: quote :: v) = _
    rw [decode_cons_backslash hquote, hnil, decode, List.append_assoc]
    rfl
  | case3 d rest e he ih =>
    change decode quote ('\\'.toUInt8 :: d :: (rest ++ '\\'.toUInt8 :: quote :: v)) = _
    rw [decode, if_pos rfl, he, decode, if_pos rfl, he, ih]
    simp only [List.append_assoc, List.cons_append]
  | case4 d rest he ih =>
    change decode quote ('\\'.toUInt8 :: d :: (rest ++ '\\'.toUInt8 :: quote :: v)) = _
    rw [List.cons_append] at ih
    rw [decode, if_pos rfl, he, decode, if_pos rfl, he, ih]
    simp only [List.append_assoc, List.cons_append]
  | case5 c d rest hc ih =>
    change decode quote (c :: d :: (rest ++ '\\'.toUInt8 :: quote :: v)) = _
    rw [List.cons_append] at ih
    rw [decode, if_neg hc, decode, if_neg hc, ih]
    simp only [List.append_assoc, List.cons_append]

/-- A byte that is no quote makes the same escape for both kinds. -/
private theorem escaped_single {d : UInt8} (hd : classify d ≠ .quote) :
    escaped '\''.toUInt8 d = escaped '"'.toUInt8 d := by
  have hne (quote : UInt8) (hquote : classify quote = .quote) : d ≠ quote := by
    intro h
    exact hd (h ▸ hquote)
  rw [escaped, escaped, if_neg (hne '\''.toUInt8 rfl), if_neg (hne '"'.toUInt8 rfl)]

/-- Between single quotes twice as much is stored. -/
private theorem length_decode_single (hs : QuoteFree s) :
    (decode '\''.toUInt8 s).length = 2 * (decode '"'.toUInt8 s).length := by
  induction s using decode.induct '"'.toUInt8 with
  | case1 => rfl
  | case2 c => rfl
  | case3 d rest e he ih =>
    have hsingle := escaped_single (hs d (List.mem_cons_of_mem _ List.mem_cons_self))
    have hrest := ih hs.behind.behind
    rw [decode, if_pos rfl, hsingle, he, decode, if_pos rfl, he]
    change (decode '\''.toUInt8 rest).length + 1 + 1 = 2 * ((decode '"'.toUInt8 rest).length + 1)
    omega
  | case4 d rest he ih =>
    have hsingle := escaped_single (hs d (List.mem_cons_of_mem _ List.mem_cons_self))
    have hrest := ih hs.behind
    rw [decode, if_pos rfl, hsingle, he, decode, if_pos rfl, he]
    change (decode '\''.toUInt8 (d :: rest)).length + 1 + 1 =
      2 * ((decode '"'.toUInt8 (d :: rest)).length + 1)
    omega
  | case5 c d rest hc ih =>
    have hrest := ih hs.behind
    rw [decode, if_neg hc, decode, if_neg hc]
    change (decode '\''.toUInt8 (d :: rest)).length + 1 + 1 =
      2 * ((decode '"'.toUInt8 (d :: rest)).length + 1)
    omega

/-- No escape between single quotes stands for a double quote. -/
private theorem escaped_single_ne {d e : UInt8} (he : escaped '\''.toUInt8 d = some e) :
    '"'.toUInt8 ≠ e := by
  intro h
  subst h
  unfold escaped at he
  split_ifs at he with htab hline hreturn hquote
  · exact absurd (Option.some.inj he) (by decide)
  · exact absurd (Option.some.inj he) (by decide)
  · exact absurd (Option.some.inj he) (by decide)
  · exact absurd (Option.some.inj he) (by decide)

/-- Without a double quote between single quotes, none is stored. -/
private theorem notMem_decode_single (hs : QuoteFree s) :
    '"'.toUInt8 ∉ decode '\''.toUInt8 s := by
  have hpair {c e : UInt8} {stored : Text} (hc : classify c ≠ .quote) (he : '"'.toUInt8 ≠ e)
      (h : '"'.toUInt8 ∉ stored) : '"'.toUInt8 ∉ lead '\''.toUInt8 c ++ e :: stored := by
    intro hmem
    cases List.mem_append.mp hmem with
    | inl hlead => exact hc (List.mem_singleton.mp hlead ▸ rfl)
    | inr hmem =>
      cases List.mem_cons.mp hmem with
      | inl heq => exact he heq
      | inr hmem => exact h hmem
  have hne {c : UInt8} (hc : classify c ≠ .quote) : '"'.toUInt8 ≠ c := fun h => hc (h ▸ rfl)
  induction s using decode.induct '\''.toUInt8 with
  | case1 => exact List.not_mem_nil
  | case2 c =>
    have hc := hs c List.mem_cons_self
    exact hpair hc (hne hc) List.not_mem_nil
  | case3 d rest e he ih =>
    rw [decode, if_pos rfl, he]
    exact hpair (hs _ List.mem_cons_self) (escaped_single_ne he) (ih hs.behind.behind)
  | case4 d rest he ih =>
    have hc := hs _ List.mem_cons_self
    rw [decode, if_pos rfl, he]
    exact hpair hc (hne hc) (ih hs.behind)
  | case5 c d rest hc ih =>
    have hclass := hs c List.mem_cons_self
    rw [decode, if_neg hc]
    exact hpair hclass (hne hclass) (ih hs.behind)

/-- What is stored between single quotes differs from what is stored between double quotes, also
when the strings go on behind an escaped quote. -/
private theorem stored_ne_of_escaped (hs : QuoteFree s) (single double : Text) :
    decode '\''.toUInt8 (s ++ '\\'.toUInt8 :: '\''.toUInt8 :: single) ++ ['\''.toUInt8] ≠
      decode '"'.toUInt8 (s ++ '\\'.toUInt8 :: '"'.toUInt8 :: double) := by
  have hlength := length_decode_single hs
  have hnone := notMem_decode_single hs
  have hne : '\\'.toUInt8 ≠ '"'.toUInt8 := by decide
  rw [decode_append rfl, decode_append rfl, List.append_assoc]
  intro heq
  cases List.append_eq_append_iff.mp heq with
  | inl h =>
    obtain ⟨more, hmore, hrest⟩ := h
    rw [hmore, List.length_append] at hlength
    obtain rfl : more = [] := List.length_eq_zero_iff.mp (by omega)
    exact hne (List.cons.inj hrest).1
  | inr h =>
    obtain ⟨more, hmore, hrest⟩ := h
    cases more with
    | nil => exact hne (List.cons.inj hrest).1.symm
    | cons c more =>
      apply hnone
      rw [hmore, ← (List.cons.inj hrest).1]
      exact List.mem_append_right _ List.mem_cons_self

/-! ## The two results -/

/-- The value of a quoted string has its contents between the quotes. -/
private theorem contents_token (quote : UInt8) (body : Text) :
    contents (Word.quoted quote body).token.value = decode quote body ++ lead quote quote := by
  rw [contents, Word.token, List.append_assoc, List.append_assoc, List.singleton_append,
    List.tail_cons, ← List.append_assoc, List.dropLast_concat]

/-- A text between quotes is read to the first quote that closes it, or to the end. -/
private theorem parseToken_quotedInput (quote : UInt8) (hquote : classify quote = .quote)
    (hs : QuoteFree s) (past r : Text) :
    (∃ v behind, s.getLast? = some '\\'.toUInt8 ∧ ¬ Closes quote r ∧
      parseToken (quotedInput quote past s r) = .ok (.error, v, ended behind)) ∨
    ∃ body after behind,
      (s.getLast? ≠ some '\\'.toUInt8 ∧ body = s ∨
        s.getLast? = some '\\'.toUInt8 ∧ ∃ more, body = s ++ quote :: more) ∧
      parseToken (quotedInput quote past s r) =
        .ok (.quotedString, (Word.quoted quote body).token.value,
          { past := behind, rest := after }) := by
  by_cases hlast : s.getLast? = some '\\'.toUInt8
  · by_cases hcloses : Closes quote r
    · obtain ⟨more, after, rfl, hmore⟩ := hcloses
      have hbody := (insideQuotes_escaped_iff hquote hs hlast).mpr hmore
      obtain ⟨behind, htoken⟩ := parseToken_quoted hquote hbody past after
      refine .inr ⟨_, after, behind, .inr ⟨hlast, more, rfl⟩, ?_⟩
      rw [← htoken, quotedInput, List.append_assoc]
      rfl
    · obtain ⟨v, behind, herror⟩ := parseToken_unclosed hquote
        (not_insideQuotes_of_not_closes hquote hs hlast hcloses) past
      exact .inl ⟨v, behind, hlast, hcloses, herror⟩
  · have hbody := (insideQuotes_iff hquote hs).mpr hlast
    obtain ⟨behind, htoken⟩ := parseToken_quoted hquote hbody past r
    exact .inr ⟨s, r, behind, .inl ⟨hlast, rfl⟩, htoken⟩

/-- Two closed strings have different contents. -/
private theorem contents_ne (hs : QuoteFree s) {single double : Text}
    (hsingle : s.getLast? ≠ some '\\'.toUInt8 ∧ single = s ∨
      s.getLast? = some '\\'.toUInt8 ∧ ∃ more, single = s ++ '\''.toUInt8 :: more)
    (hdouble : s.getLast? ≠ some '\\'.toUInt8 ∧ double = s ∨
      s.getLast? = some '\\'.toUInt8 ∧ ∃ more, double = s ++ '"'.toUInt8 :: more) :
    contents (Word.quoted '\''.toUInt8 single).token.value ≠
      contents (Word.quoted '"'.toUInt8 double).token.value := by
  rw [contents_token, contents_token]
  by_cases hlast : s.getLast? = some '\\'.toUInt8
  · obtain ⟨-, more, rfl⟩ := hsingle.resolve_left fun h => h.1 hlast
    obtain ⟨-, others, rfl⟩ := hdouble.resolve_left fun h => h.1 hlast
    obtain ⟨front, rfl⟩ := List.getLast?_eq_some_iff.mp hlast
    have hfront : QuoteFree front := fun c hc => hs c (List.mem_append_left _ hc)
    rw [List.append_assoc, List.append_assoc]
    intro heq
    apply stored_ne_of_escaped hfront more others
    rw [← List.append_nil (decode '"'.toUInt8 _)]
    exact heq
  · obtain ⟨-, rfl⟩ := hsingle.resolve_right fun h => hlast h.1
    obtain ⟨-, rfl⟩ := hdouble.resolve_right fun h => hlast h.1
    intro heq
    have hlength := congrArg List.length heq
    have hdoubled := length_decode_single hs
    rw [List.length_append, List.length_append, hdoubled] at hlength
    change 2 * _ + 1 = _ + 0 at hlength
    omega

/-- An escaped quote contributes itself, and between single quotes also the backslash. -/
private theorem contributes_escapedQuote (hquote : classify quote = .quote) :
    Contributes quote ['\\'.toUInt8, quote] (lead quote '\\'.toUInt8 ++ [quote]) := by
  intro fuel value past r
  have hstep : parseTokenLoop (fuel + 1) (quoteState quote) value
      { past, rest := '\\'.toUInt8 :: quote :: r } = _ := loop_backslash hquote fuel
  rw [escaped_self hquote] at hstep
  exact hstep

/-- Between single quotes, an escaped quote does not contribute just itself. -/
private theorem not_contributes_single :
    ¬ Contributes '\''.toUInt8 (text "\\'") (text "'") := by
  intro h
  exact absurd (h 1 [] [] (text "'")) (by decide)

/-- A string without quotes is decoded alike between single and double quotes exactly when it is
an error between both. An escaped quote contributes just itself only between double quotes. -/
theorem decodesAlike_iff (past r : Text) (hs : QuoteFree s) :
    (DecodesAlike past s r ↔ s.getLast? = some '\\'.toUInt8 ∧ ¬ Closes '\''.toUInt8 r ∧
      ¬ Closes '"'.toUInt8 r) ∧
    ∀ quote, classify quote = .quote →
      (Contributes quote ['\\'.toUInt8, quote] [quote] ↔ quote = '"'.toUInt8) := by
  have hsingle := parseToken_quotedInput '\''.toUInt8 rfl hs past r
  have hdouble := parseToken_quotedInput '"'.toUInt8 rfl hs past r
  refine ⟨⟨?_, ?_⟩, ?_⟩
  · rintro ⟨_, _, _, _, _, _, hread, hread', -, hsame⟩
    cases hsingle with
    | inl hsingle =>
      obtain ⟨_, _, hlast, hopen, herror⟩ := hsingle
      cases hread.symm.trans herror
      cases hdouble with
      | inl hdouble =>
        obtain ⟨_, _, -, hopen', -⟩ := hdouble
        exact ⟨hlast, hopen, hopen'⟩
      | inr hdouble =>
        obtain ⟨_, _, _, -, htoken⟩ := hdouble
        cases hread'.symm.trans htoken
        cases hsame with
        | inl hsame => cases hsame.1
        | inr hsame => cases hsame.2
    | inr hsingle =>
      obtain ⟨_, _, _, hbody, htoken⟩ := hsingle
      cases hread.symm.trans htoken
      cases hsame with
      | inr hsame => cases hsame.1
      | inl hsame =>
        cases hdouble with
        | inl hdouble =>
          obtain ⟨_, _, -, -, herror⟩ := hdouble
          cases hread'.symm.trans herror
          cases hsame.2.1
        | inr hdouble =>
          obtain ⟨_, _, _, hbody', htoken'⟩ := hdouble
          cases hread'.symm.trans htoken'
          exact absurd hsame.2.2 (contents_ne hs hbody hbody')
  · rintro ⟨hlast, hopen, hopen'⟩
    obtain ⟨v, behind, herror⟩ := parseToken_unclosed (c := '\''.toUInt8) rfl
      (not_insideQuotes_of_not_closes rfl hs hlast hopen) past
    obtain ⟨v', behind', herror'⟩ := parseToken_unclosed (c := '"'.toUInt8) rfl
      (not_insideQuotes_of_not_closes rfl hs hlast hopen') past
    exact ⟨_, v, _, _, v', _, herror, herror', rfl, .inr ⟨rfl, rfl⟩⟩
  · intro quote hquote
    constructor
    · intro h
      cases classify_quote_iff.mp hquote with
      | inl hdouble => exact hdouble
      | inr hsingle =>
        rw [hsingle] at h
        exact absurd h not_contributes_single
    · rintro rfl
      exact contributes_escapedQuote hquote

/-- Nothing closes a string at the end of the file. -/
private theorem not_closes_nil (quote : UInt8) : ¬ Closes quote [] := by
  rintro ⟨body, after, h, -⟩
  exact List.append_ne_nil_of_right_ne_nil body (List.cons_ne_nil quote after) h.symm

/-- A string that ends in a backslash at the end of the file is an error between both. -/
theorem decodesAlike_unclosed : DecodesAlike [] (text "a\\") [] :=
  (decodesAlike_iff [] [] (s := text "a\\") (by decide)).1.mpr
    ⟨rfl, not_closes_nil _, not_closes_nil _⟩

/-- One letter is stored twice between single quotes, and so is the closing quote. -/
theorem not_decodesAlike_letter : ¬ ∀ past s r : Text, QuoteFree s → DecodesAlike past s r := by
  intro h
  have hsingle : parseToken (quotedInput '\''.toUInt8 [] (text "a") []) =
      .ok (.quotedString, text "'aa''", { past := text "'a'", rest := [] }) := by decide
  have hdouble : parseToken (quotedInput '"'.toUInt8 [] (text "a") []) =
      .ok (.quotedString, text "\"a\"", { past := text "\"a\"", rest := [] }) := by decide
  obtain ⟨_, _, _, _, _, _, hread, hread', -, hsame⟩ := h [] (text "a") [] (by decide)
  cases hread.symm.trans hsingle
  cases hread'.symm.trans hdouble
  cases hsame with
  | inl hsame => exact absurd hsame.2.2 (by decide)
  | inr hsame => cases hsame.1

end Aite.Config
