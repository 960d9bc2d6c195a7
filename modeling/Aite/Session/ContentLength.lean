import Aite.Http.VersionNumbers
import Aite.Session.Exchange

/-!
# The declared length of a body

The length that a request declares is converted with `std::stoi`, which takes any text that
begins with a number, and a field without value counts as no field. What a session does with a
header that declares a length is compared here with what it should do: refuse every value that
is not a decimal numeral that fits an `int`, and go on with exactly the number otherwise.
-/

namespace Aite

open Http Routing

/-- The length that a value of the field declares: -1 when it is not a number. -/
def declaredLength (value : Text) : ℤ := if value = [] then 0 else (stoi value).getD (-1)

/-- The number of a decimal numeral that fits an `int`. -/
def numeral (value : Text) : Option ℕ :=
  if value ≠ [] ∧ (∀ c ∈ value, isDigit (charToInt c) = true) ∧ digitsValue value < 2 ^ 31 then
    some (digitsValue value)
  else none

/-- A value that is not a numeral and is taken for a number all the same: an empty one, or a number
that fits with a sign in front of it or with something behind it. -/
def Lenient (value : Text) : Prop :=
  value = [] ∨ ∃ sign digits rest negative, value = sign ++ (digits ++ rest) ∧
    IsSign sign negative ∧ IsLeadingDigits digits rest ∧ digits ≠ [] ∧
    digitsValue digits < 2 ^ 31 ∧ (negative = true → digitsValue digits = 0) ∧
    (sign ≠ [] ∨ rest ≠ [])

/-- A text of digits is the numeral of its number. -/
private theorem numeral_of_digits {value : Text} (hne : value ≠ []) (h : ∀ c ∈ value, IsDigit c)
    (hsmall : digitsValue value < 2 ^ 31) : numeral value = some (digitsValue value) :=
  if_pos ⟨hne, h, hsmall⟩

/-- The length that a numeral declares is its number. -/
theorem declaredLength_numeral {value : Text} {n : ℕ} (h : numeral value = some n) :
    declaredLength value = n := by
  unfold numeral at h
  split at h
  case isTrue hnumeral =>
    obtain ⟨hne, hdigits, hsmall⟩ := hnumeral
    rw [declaredLength, if_neg hne, stoi_decimal ⟨hne, hdigits, Option.some.inj h⟩
      (Option.some.inj h ▸ hsmall)]
    rfl
  case isFalse => simp at h

/-- The number that is read is not negative exactly when it has no minus sign or is zero. -/
private theorem signedValue_nonneg_iff (negative : Bool) (digits : Text) :
    0 ≤ signedValue (negative, digits) ↔ (negative = true → digitsValue digits = 0) := by
  cases negative <;> simp [signedValue]

/-- A number that is not negative is the value of its digits. -/
private theorem signedValue_of_nonneg {negative : Bool} {digits : Text}
    (h : negative = true → digitsValue digits = 0) :
    signedValue (negative, digits) = digitsValue digits := by
  cases negative with
  | false => rfl
  | true => simp [signedValue, h rfl]

/-- What is taken for a number declares a length. -/
private theorem declaredLength_lenient {value : Text} (h : Lenient value) :
    0 ≤ declaredLength value := by
  rcases h with rfl | ⟨sign, digits, rest, negative, rfl, hsign, hdigits, hne, hsmall, hzero, -⟩
  · exact le_rfl
  · have hvalue : sign ++ (digits ++ rest) ≠ [] := by simp [hne]
    have hfits : -2 ^ 31 ≤ (digitsValue digits : ℤ) ∧ (digitsValue digits : ℤ) < 2 ^ 31 := by
      omega
    rw [declaredLength, if_neg hvalue, stoi_eq, signedDigits_append hsign hdigits hne, if_neg hne,
      signedValue_of_nonneg hzero, if_pos hfits]
    exact Int.natCast_nonneg _

/-- What is taken for a number is not a numeral. -/
private theorem numeral_lenient {value : Text} (h : Lenient value) : numeral value = none := by
  apply if_neg
  rintro ⟨hvalue, hall, -⟩
  rcases h with rfl | ⟨sign, digits, rest, negative, rfl, hsign, hdigits, -, -, -, hmore⟩
  · exact hvalue rfl
  · have hsignEmpty : sign = [] := by
      rcases hsign with ⟨rfl, -⟩ | ⟨rfl, -⟩ | ⟨rfl, -⟩
      · rfl
      · exact absurd (hall '+'.toUInt8 (by simp [text])) (by decide)
      · exact absurd (hall '-'.toUInt8 (by simp [text])) (by decide)
    cases rest with
    | nil => exact hmore.elim (fun h => h hsignEmpty) fun h => h rfl
    | cons c rest => exact hdigits.longest c rfl (hall c (by simp))

/-- A value that declares a length begins with a number that fits. -/
private theorem read_of_declaredLength {value : Text} (hvalue : value ≠ [])
    (h : 0 ≤ declaredLength value) : (signedDigits value).2 ≠ [] ∧
      0 ≤ signedValue (signedDigits value) ∧ signedValue (signedDigits value) < 2 ^ 31 := by
  rw [declaredLength, if_neg hvalue, stoi_eq] at h
  by_cases hne : (signedDigits value).2 = []
  · rw [if_pos hne] at h
    exact absurd h (by decide)
  · rw [if_neg hne] at h
    by_cases hfits : -2 ^ 31 ≤ signedValue (signedDigits value) ∧
        signedValue (signedDigits value) < 2 ^ 31
    · rw [if_pos hfits] at h
      exact ⟨hne, h, hfits.2⟩
    · rw [if_neg hfits] at h
      exact absurd h (by decide)

/-- A value that declares a length is a numeral or is only taken for a number. -/
private theorem lenient_of_nonneg {value : Text} (hspace : ∀ c ∈ value.head?, isSpace c = false)
    (h : 0 ≤ declaredLength value) (hnumeral : numeral value = none) : Lenient value := by
  by_cases hvalue : value = []
  · exact .inl hvalue
  · obtain ⟨sign, rest, heq, hsign, hdigits⟩ := exists_of_signedDigits hspace
    obtain ⟨hne, hnonneg, hsmall⟩ := read_of_declaredLength hvalue h
    generalize signedDigits value = number at *
    obtain ⟨negative, digits⟩ := number
    have hzero := (signedValue_nonneg_iff negative digits).mp hnonneg
    rw [signedValue_of_nonneg hzero] at hsmall
    have hsmall : digitsValue digits < 2 ^ 31 := by omega
    refine .inr ⟨sign, digits, rest, negative, heq, hsign, hdigits, hne, hsmall, hzero, ?_⟩
    by_contra hmore
    obtain ⟨rfl, rfl⟩ : sign = [] ∧ rest = [] := by simpa only [not_or, not_not] using hmore
    rw [List.nil_append, List.append_nil] at heq
    subst heq
    exact absurd ((numeral_of_digits hvalue hdigits.digit hsmall).symm.trans hnumeral) (by simp)

/-- A trimmed value does not begin with a blank. -/
private theorem head_trim (v : Text) : ∀ c ∈ (trim v).head?, isBlank c = false := by
  obtain ⟨rest, hrest⟩ : trim v <+: v.dropWhile isBlank := by
    rw [← List.reverse_suffix, trim, List.reverse_reverse]
    exact List.dropWhile_suffix _
  have hstart := List.head?_dropWhile_not isBlank v
  rw [← hrest] at hstart
  cases htrim : trim v with
  | nil => simp
  | cons c value => simpa [htrim] using hstart

/-- The text of a value has no spaces but the blanks. -/
private theorem isSpace_of_text {c : UInt8} (htext : IsText c) (hblank : isBlank c = false) :
    isSpace c = false := by
  simp only [IsText, isCtl, charToInt_eq, isBlank, isSpace, ← UInt8.toNat_inj,
    UInt8.le_iff_toNat_le, Bool.or_eq_false_iff, decide_eq_false_iff_not,
    Bool.and_eq_false_imp, decide_eq_true_eq] at htext hblank ⊢
  refine ⟨hblank.1, ?_⟩
  change 9 ≤ c.toNat → ¬ c.toNat ≤ 13
  intro hnine hthirteen
  rw [if_pos (by omega)] at htext
  omega

/-- The trimmed value of a header line does not begin with a space. -/
private theorem head_trim_parsed (line : HeaderLine) :
    ∀ c ∈ (trim line.parsed.value).head?, isSpace c = false := by
  intro c hc
  have hblank := head_trim _ c hc
  have hmem : c ∈ line.value ++ line.continuations.flatMap ContinuationLine.content := by
    have hdrop := (List.dropWhile_suffix _).subset (List.mem_reverse.mp (List.mem_of_mem_head? hc))
    exact (List.dropWhile_suffix _).subset (List.mem_reverse.mp hdrop)
  have htext : IsText c := by
    cases List.mem_append.mp hmem with
    | inl hvalue => exact line.value_text c hvalue
    | inr hcontinued =>
      obtain ⟨continued, -, hcontent⟩ := List.mem_flatMap.mp hcontinued
      exact continued.content_text c hcontent
  exact isSpace_of_text htext hblank

/-- The name of the field is a token. -/
private theorem isToken_contentLength : ∀ c ∈ text "Content-Length", IsToken c := by
  simp only [IsToken]
  decide

section Header

variable {B : Beast}

namespace Session

/-- Answer a header that is refused. -/
def refuseHeader (w : World B) (s : Session B) : Run (Session B) := do
  s.logAddress
  let message := text "Invalid request headers or content length"
  write w { s with response := showErrorPage B 400 message }

/-- Go on with an accepted header whose body has the given length. -/
def acceptHeader (w : World B) (s : Session B) (data : Text) (consumed length : ℕ) :
    Run (Session B) := do
  s.logAddress
  let requestHandler ← w.server.getRequestHandler s.request.target
  let s := { s with requestHandler := some requestHandler }
  match requestHandler with
  | none =>
    s.logAddress
    let message := text "Error getting handler for uri " ++ s.request.target
    write w { s with response := showErrorPage B 400 message }
  | some handler =>
    if length = 0 then
      let s ← s.callHandler w handler
      s.logAddress
      s.write w
    else
      let requestBodyBytes := data.length - consumed
      s.logAddress
      if length ≤ requestBodyBytes then
        let s := s.appendBody ((data.drop consumed).take length)
        let s ← s.callHandler w handler
        s.logAddress
        s.write w
      else
        let s := s.appendBody (data.drop consumed)
        s.readBody (length - requestBodyBytes)

/-- What should be done with an accepted header that declares a length with this value. -/
def honourLength (w : World B) (s : Session B) (data : Text) (r : ParseResult B) (value : Text) :
    Run (Session B) :=
  let s := { s with parserState := r.state, request := r.req }
  match numeral value with
  | some length => s.acceptHeader w data r.consumed length
  | none => s.refuseHeader w

/-- An accepted header is refused when the declared length is negative, and otherwise the body has
that length. -/
private theorem handleReadHeader_accepted (w : World B) (s : Session B) {data : Text}
    {r : ParseResult B} (hparse : parse s.parserState s.request data = .ok r)
    (haccepted : r.verdict = .true) :
    s.handleReadHeader w data =
      if contentLength r.req.fields < 0 then
        refuseHeader w { s with parserState := r.state, request := r.req }
      else
        acceptHeader w { s with parserState := r.state, request := r.req } data r.consumed
          (contentLength r.req.fields).toNat := by
  unfold handleReadHeader
  rw [hparse, run_ok_bind]
  simp only [haccepted, reduceCtorEq, false_or, if_true]
  by_cases hnegative : contentLength r.req.fields < 0
  · rw [if_pos hnegative, if_pos hnegative]
    rfl
  · rw [if_neg hnegative, if_neg hnegative]
    obtain ⟨length, hlength⟩ := Int.eq_ofNat_of_zero_le (not_lt.mp hnegative)
    rw [hlength, Int.toNat_natCast]
    simp only [Nat.cast_eq_zero, Nat.cast_le]
    rfl

/-- Which handler is stored before an accepted header makes no difference. -/
private theorem acceptHeader_requestHandler (w : World B) (s : Session B)
    (requestHandler : Option (Option HandlerPtr)) (data : Text) (consumed length : ℕ) :
    acceptHeader w { s with requestHandler } data consumed length =
      acceptHeader w s data consumed length := rfl

/-- A header is accepted and refused with different outcomes, in some session. -/
private theorem exists_acceptHeader_ne (w : World B) (data : Text) (r : ParseResult B)
    (length : ℕ) : ∃ requestHandler,
      acceptHeader w { parserState := r.state, request := r.req, requestHandler } data r.consumed
          length ≠
        refuseHeader w { parserState := r.state, request := r.req, requestHandler } := by
  by_contra hsame
  simp only [not_exists, not_not] at hsame
  have hnull := hsame (some none)
  have hfirst := hsame (some (some 0))
  rw [acceptHeader_requestHandler w { parserState := r.state, request := r.req }] at hnull hfirst
  rw [hnull] at hfirst
  have hstored := congrArg (Except.map Session.requestHandler) hfirst
  cases hstored

/-- A header with one field for the length is accepted with the length of its value. -/
private theorem exists_accepted (head : RequestHead) (rest : Text) {line : HeaderLine}
    {verb : B.Verb} (hverb : B.stringToVerb head.method = some verb)
    (hline : head.headers.filter isContentLength = [line]) (req : Request B) :
    ∃ r, parse .methodStart req (head.render ++ rest) = .ok r ∧ r.verdict = .true ∧
      contentLength r.req.fields = declaredLength (trim line.parsed.value) := by
  refine ⟨_, parse_render head rest req hverb, rfl, ?_⟩
  change contentLength (head.fields req.fields) = _
  rw [contentLength, RequestHead.fields, get_contentLength, hline]
  rfl

/-- In every session, a header is accepted and then treated as the value of its length demands. -/
def HonoursLength (B : Beast) (data value : Text) : Prop :=
  ∀ (w : World B) (s : Session B), s.parserState = .methodStart →
    ∃ r, parse .methodStart s.request data = .ok r ∧ r.verdict = .true ∧
      s.handleReadHeader w data = s.honourLength w data r value

section Line

variable (head : RequestHead) (rest : Text) {line : HeaderLine} {verb : B.Verb}
  (hverb : B.stringToVerb head.method = some verb)
  (hline : head.headers.filter isContentLength = [line])

include hverb hline

/-- A value that is only taken for a number is not refused. -/
private theorem not_honoursLength (hlenient : Lenient (trim line.parsed.value)) :
    ¬ HonoursLength B (head.render ++ rest) (trim line.parsed.value) := by
  intro h
  let w : World B := ⟨{}, fun _ _ _ => .ok {}⟩
  obtain ⟨r, hparse, haccepted, hlength⟩ := exists_accepted head rest hverb hline {}
  obtain ⟨requestHandler, hne⟩ := exists_acceptHeader_ne w (head.render ++ rest) r
    (contentLength r.req.fields).toNat
  obtain ⟨r', hparse', -, hhonour⟩ := h w { requestHandler } rfl
  obtain rfl : r = r' := Except.ok.inj (hparse.symm.trans hparse')
  have hnonneg : ¬ contentLength r.req.fields < 0 := by
    rw [hlength]
    exact not_lt.mpr (declaredLength_lenient hlenient)
  rw [handleReadHeader_accepted w _ hparse haccepted, if_neg hnonneg, honourLength,
    numeral_lenient hlenient] at hhonour
  exact hne hhonour

/-- An accepted header with one field for the length is treated as the value of the field demands
exactly when the value is not one that is only taken for a number. -/
theorem honoursLength_iff :
    HonoursLength B (head.render ++ rest) (trim line.parsed.value) ↔
      ¬ Lenient (trim line.parsed.value) := by
  constructor
  · exact fun h hlenient => not_honoursLength head rest hverb hline hlenient h
  · intro hlenient w s hstate
    obtain ⟨r, hparse, haccepted, hlength⟩ := exists_accepted head rest hverb hline s.request
    refine ⟨r, hparse, haccepted, ?_⟩
    rw [handleReadHeader_accepted w s (hstate ▸ hparse) haccepted, hlength, honourLength]
    cases hnumeral : numeral (trim line.parsed.value) with
    | some length =>
      rw [declaredLength_numeral hnumeral, if_neg (by omega), Int.toNat_natCast]
    | none =>
      apply if_pos
      by_contra hnonneg
      exact hlenient (lenient_of_nonneg (head_trim_parsed line) (not_lt.mp hnonneg) hnumeral)

end Line

/-- A header with a field for the length with this value. -/
def headOfLength (value : Text) (h : ∀ c ∈ value, IsText c) : RequestHead :=
  { headOneOne with
    headers := [⟨text "Content-Length", value, [], List.cons_ne_nil _ _, isToken_contentLength, h⟩] }

/-- Some values of the field. -/
private theorem isText_lengths : (∀ c ∈ text "5", IsText c) ∧ ∀ c ∈ text "12abc", IsText c := by
  simp only [IsText]
  decide

/-- A header that declares a length of 5. -/
theorem honoursLength_five :
    HonoursLength Beast.lists ((headOfLength (text "5") isText_lengths.1).render ++ [])
        (text "5") ↔ ¬ Lenient (text "5") :=
  honoursLength_iff (headOfLength (text "5") isText_lengths.1) [] rfl rfl

/-- A value with letters behind its digits declares a length of 12. -/
theorem not_honoursLength_garbage :
    (headOfLength (text "12abc") isText_lengths.2).render =
        text "GET / HTTP/1.1\r\nContent-Length: 12abc\r\n\r\n" ∧
      ¬ HonoursLength Beast.lists
        ((headOfLength (text "12abc") isText_lengths.2).render ++ []) (text "12abc") := by
  refine ⟨by decide, ?_⟩
  have hlenient : Lenient (text "12abc") := by
    refine .inr ⟨[], text "12", text "abc", false, rfl, .inl ⟨rfl, rfl⟩, ⟨?_, ?_⟩, ?_⟩
    · simp only [IsDigit]
      decide
    · simp only [IsDigit]
      decide
    · decide
  exact not_honoursLength (headOfLength (text "12abc") isText_lengths.2) [] rfl rfl hlenient

end Session

end Header

end Aite
