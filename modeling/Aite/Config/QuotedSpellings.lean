import Aite.Config.Scan

/-!
# What can be written between double quotes

A backslash stands for itself in front of any byte but `t`, `n`, `r` and a quote, and there is no
escape for it. So a text with a backslash in front of one of these letters has no spelling, and
neither has one that ends in a backslash. Every other text is spelled by escaping its quotes; a
backslash in front of a quote is then followed by another one.
-/

namespace Aite.Config

/-- The content of a quoted string with its quotes escaped. -/
def escape (content : Text) : Text :=
  content.flatMap fun c => if c = '"'.toUInt8 then ['\\'.toUInt8, c] else [c]

/-- Every backslash is followed by a byte, and this is not the letter of an escape. -/
def Expressible (s : Text) : Prop :=
  ∀ before rest, s = before ++ '\\'.toUInt8 :: rest →
    ∃ d behind, rest = d :: behind ∧ d ∉ text "tnr"

/-- A text between double quotes is a token with these contents, whatever is behind it, and the
stream is left behind the closing quote. -/
def Spells (spelling s : Text) : Prop :=
  ∀ past r, ∃ behind,
    parseToken { past, rest := '"'.toUInt8 :: (spelling ++ '"'.toUInt8 :: r) } =
      .ok (.quotedString, '"'.toUInt8 :: (s ++ ['"'.toUInt8]), { past := behind, rest := r })

variable {c d before : UInt8} {s rest spelling content : Text}

/-- A byte in front of a text adds a condition only if it is a backslash. -/
theorem expressible_cons_iff : Expressible (c :: s) ↔
    (c = '\\'.toUInt8 → ∃ d behind, s = d :: behind ∧ d ∉ text "tnr") ∧ Expressible s := by
  constructor
  · intro h
    refine ⟨?_, ?_⟩
    · intro hc
      exact h [] s (by rw [hc]; rfl)
    · intro front rest hs
      exact h (c :: front) rest (by rw [hs]; rfl)
  · rintro ⟨hfirst, hrest⟩ front rest hs
    cases front with
    | nil =>
      obtain ⟨hc, rfl⟩ := List.cons.inj hs
      exact hfirst hc
    | cons b front => exact hrest front rest (List.cons.inj hs).2

/-- Without a backslash, any text can be written. -/
theorem expressible_of_notMem (h : '\\'.toUInt8 ∉ s) : Expressible s := by
  intro front rest hs
  rw [hs] at h
  exact absurd (List.mem_append_right front List.mem_cons_self) h

/-! ## Texts with a spelling -/

/-- The letters of the escapes and the quote make escapes, and no other bytes do. -/
private theorem escaped_double_eq_none (hd : d ∉ text "tnr") (hquote : d ≠ '"'.toUInt8) :
    escaped '"'.toUInt8 d = none := by
  have hall : d ≠ 't'.toUInt8 ∧ d ≠ 'n'.toUInt8 ∧ d ≠ 'r'.toUInt8 := by
    simpa [text] using hd
  rw [escaped, if_neg hall.1, if_neg hall.2.1, if_neg hall.2.2, if_neg hquote]

/-- A byte that is not a backslash stands for itself. -/
private theorem decode_cons (hc : c ≠ '\\'.toUInt8) (rest : Text) :
    decode '"'.toUInt8 (c :: rest) = c :: decode '"'.toUInt8 rest := by
  cases rest with
  | nil => rfl
  | cons d rest =>
    rw [decode, if_neg hc]
    rfl

/-- A backslash that makes no escape stands for itself. -/
private theorem decode_backslash (hd : escaped '"'.toUInt8 d = none) (rest : Text) :
    decode '"'.toUInt8 ('\\'.toUInt8 :: d :: rest) =
      '\\'.toUInt8 :: decode '"'.toUInt8 (d :: rest) := by
  rw [decode, if_pos rfl, hd]
  rfl

/-- A byte that is no quote is its own spelling. -/
private theorem escape_cons (hc : c ≠ '"'.toUInt8) (content : Text) :
    escape (c :: content) = c :: escape content := by
  simp [escape, hc]

/-- The first byte of an escaped text makes no escape behind a backslash, when the text does not
begin with the letter of one. -/
private theorem exists_escape_cons (hd : d ∉ text "tnr") (content : Text) :
    ∃ first more, escape (d :: content) = first :: more ∧ escaped '"'.toUInt8 first = none := by
  by_cases hquote : d = '"'.toUInt8
  · subst hquote
    exact ⟨'\\'.toUInt8, '"'.toUInt8 :: escape content, rfl, rfl⟩
  · exact ⟨d, escape content, escape_cons hquote content, escaped_double_eq_none hd hquote⟩

/-- The escaped content stands for the content. -/
theorem decode_escape (h : Expressible content) :
    decode '"'.toUInt8 (escape content) = content := by
  induction content with
  | nil => rfl
  | cons c content ih =>
    obtain ⟨hfirst, hrest⟩ := expressible_cons_iff.mp h
    have hcontent := ih hrest
    by_cases hquote : c = '"'.toUInt8
    · subst hquote
      change '"'.toUInt8 :: decode '"'.toUInt8 (escape content) = _
      rw [hcontent]
    · rw [escape_cons hquote]
      by_cases hbackslash : c = '\\'.toUInt8
      · obtain ⟨d, behind, rfl, hd⟩ := hfirst hbackslash
        obtain ⟨first, more, hmore, hnone⟩ := exists_escape_cons hd behind
        rw [hbackslash, hmore, decode_backslash hnone, ← hmore, hcontent]
      · rw [decode_cons hbackslash, hcontent]

/-- The escaped content is the text between two quotes. -/
theorem insideQuotes_escape (h : Expressible content)
    (hbefore : before = '\\'.toUInt8 → content ≠ []) :
    InsideQuotes '"'.toUInt8 before (escape content) := by
  induction content generalizing before with
  | nil => exact fun h => hbefore h rfl
  | cons c content ih =>
    obtain ⟨hfirst, hrest⟩ := expressible_cons_iff.mp h
    by_cases hquote : c = '"'.toUInt8
    · subst hquote
      exact ⟨nofun, fun _ => rfl, ih hrest nofun⟩
    · rw [escape_cons hquote]
      refine ⟨fun h => absurd h hquote, ih hrest fun hc hnil => ?_⟩
      obtain ⟨d, behind, hcontent, -⟩ := hfirst hc
      cases hcontent.symm.trans hnil

/-! ## Texts without one -/

/-- The letters of the escapes make escapes. -/
private theorem notMem_of_escaped_eq_none (he : escaped '"'.toUInt8 d = none) :
    d ∉ text "tnr" := by
  have hall : ∀ c ∈ text "tnr", escaped '"'.toUInt8 c ≠ none := by decide
  exact fun hd => hall d hd he

/-- What the escapes stand for. -/
private theorem mem_of_escaped_eq_some {e : UInt8} (he : escaped '"'.toUInt8 d = some e) :
    e ∈ text "\t\n\r\"" := by
  unfold escaped at he
  split_ifs at he with htab hline hreturn hquote
  · rw [← Option.some.inj he]; decide
  · rw [← Option.some.inj he]; decide
  · rw [← Option.some.inj he]; decide
  · rw [← Option.some.inj he]; decide

/-- An escape stands neither for a backslash nor for a letter of an escape. -/
private theorem mem_escapes : ∀ e ∈ text "\t\n\r\"", e ≠ '\\'.toUInt8 ∧ e ∉ text "tnr" := by
  decide

/-- Behind a backslash that makes no escape, no letter of an escape is stored. -/
private theorem exists_decode_cons (hd : escaped '"'.toUInt8 d = none) (rest : Text) :
    ∃ first more, decode '"'.toUInt8 (d :: rest) = first :: more ∧ first ∉ text "tnr" := by
  by_cases hbackslash : d = '\\'.toUInt8
  · subst hbackslash
    cases rest with
    | nil => exact ⟨'\\'.toUInt8, [], rfl, by decide⟩
    | cons b rest =>
      cases he : escaped '"'.toUInt8 b with
      | none => exact ⟨'\\'.toUInt8, _, decode_backslash he rest, by decide⟩
      | some e =>
        have hdecode : decode '"'.toUInt8 ('\\'.toUInt8 :: b :: rest) =
            e :: decode '"'.toUInt8 rest := by
          rw [decode, if_pos rfl, he]
          rfl
        exact ⟨e, _, hdecode, (mem_escapes e (mem_of_escaped_eq_some he)).2⟩
  · exact ⟨d, _, decode_cons hbackslash rest, notMem_of_escaped_eq_none hd⟩

/-- What is stored of a text between quotes can be written. -/
private theorem expressible_decode (h : InsideQuotes '"'.toUInt8 before spelling) :
    Expressible (decode '"'.toUInt8 spelling) := by
  induction spelling using decode.induct '"'.toUInt8 generalizing before with
  | case1 => exact expressible_of_notMem List.not_mem_nil
  | case2 c => exact expressible_of_notMem fun hmem => h.2 (List.mem_singleton.mp hmem).symm
  | case3 d rest e he ih =>
    have hne := (mem_escapes e (mem_of_escaped_eq_some he)).1
    rw [decode, if_pos rfl, he]
    exact expressible_cons_iff.mpr ⟨fun hc => absurd hc hne, ih h.2.2⟩
  | case4 d rest he ih =>
    rw [decode_backslash he]
    exact expressible_cons_iff.mpr ⟨fun _ => exists_decode_cons he rest, ih h.2⟩
  | case5 c d rest hc ih =>
    rw [decode_cons hc]
    exact expressible_cons_iff.mpr ⟨fun h => absurd h hc, ih h.2⟩

/-- The value of a text between double quotes. -/
theorem value_token (body : Text) : (Word.quoted '"'.toUInt8 body).token.value =
    '"'.toUInt8 :: (decode '"'.toUInt8 body ++ ['"'.toUInt8]) := by
  change ['"'.toUInt8] ++ decode '"'.toUInt8 body ++ [] ++ ['"'.toUInt8] = _
  rw [List.append_nil, List.append_assoc, List.singleton_append]

/-- A text that is spelled can be written. -/
private theorem Spells.expressible (h : Spells spelling s) : Expressible s := by
  obtain ⟨behind, hread⟩ := h [] []
  by_cases hclosed : ∃ body after, spelling ++ '"'.toUInt8 :: [] = body ++ '"'.toUInt8 :: after ∧
      InsideQuotes '"'.toUInt8 '"'.toUInt8 body
  · obtain ⟨body, after, hsplit, hbody⟩ := hclosed
    obtain ⟨other, htoken⟩ := parseToken_quoted rfl hbody [] after
    rw [hsplit, htoken, value_token] at hread
    have hvalue := (Prod.mk.inj (Prod.mk.inj (Except.ok.inj hread)).2).1
    rw [← List.append_cancel_right (List.cons.inj hvalue).2]
    exact expressible_decode hbody
  · obtain ⟨v, other, herror⟩ := parseToken_unclosed rfl
      (fun body after hsplit hbody => hclosed ⟨body, after, hsplit, hbody⟩) []
    cases hread.symm.trans herror

/-- Exactly the texts that can be written have a spelling between double quotes. -/
theorem exists_spells_iff (s : Text) : (∃ spelling, Spells spelling s) ↔ Expressible s := by
  constructor
  · rintro ⟨spelling, h⟩
    exact h.expressible
  · intro h
    refine ⟨escape s, fun past r => ?_⟩
    obtain ⟨behind, htoken⟩ := parseToken_quoted rfl (insideQuotes_escape h nofun) past r
    rw [value_token, decode_escape h] at htoken
    exact ⟨behind, htoken⟩

/-- A single backslash has no spelling. -/
theorem not_spells_backslash : ¬ ∀ s : Text, ∃ spelling, Spells spelling s := by
  intro h
  obtain ⟨spelling, hspells⟩ := h (text "\\")
  obtain ⟨d, behind, hrest, -⟩ := hspells.expressible [] [] rfl
  cases hrest

end Aite.Config
