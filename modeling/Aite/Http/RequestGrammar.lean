import Aite.Lib.StopMachine
import Aite.Http.RequestParser

/-!
# The grammar of a request header block

The grammar is a product of byte classes, stars of them and fixed words. Next to it stands
the control part of the parser: its state, and whether the request under construction has
a header yet. The language that remains to be read is written down for every such state,
and checked against one step of the control, so the control accepts exactly the grammar.
-/

namespace Aite.Http

open StopMachine
open Computability

/-- Bytes 0 to 127 that are neither control characters nor tspecials. -/
def IsToken (c : UInt8) : Prop := notToken c = false

/-- Bytes that are not control characters. -/
def IsText (c : UInt8) : Prop := isCtl (charToInt c) = false

/-- Bytes of a target. -/
def IsTarget (c : UInt8) : Prop := IsText c ∧ c ≠ ' '.toUInt8

/-- Decimal digits. -/
def IsDigit (c : UInt8) : Prop := isDigit (charToInt c) = true

/-- A space or a tab, as they start a continuation line. -/
def IsLws (c : UInt8) : Prop := c = ' '.toUInt8 ∨ c = '\t'.toUInt8

/-- One or more symbols of a class. -/
def oneOrMore (p : UInt8 → Prop) : Language UInt8 := symbol p * (symbol p)∗

/-- The end of a line. -/
def crlf : Language UInt8 := word (text "\r\n")

/-- A continuation line: blanks, optional text and the end of the line. -/
def continuation : Language UInt8 := symbol IsLws * ((symbol IsLws)∗ * ((symbol IsText)∗ * crlf))

/-- A header: a name, a colon, a space, a value and its continuation lines. -/
def headerGrammar : Language UInt8 :=
  oneOrMore IsToken * (word (text ": ") * ((symbol IsText)∗ * (crlf * continuation∗)))

/-- The request line. -/
def requestLine : Language UInt8 :=
  oneOrMore IsToken * (word (text " ") * ((symbol IsTarget)∗ * (word (text " HTTP/") *
    (oneOrMore IsDigit * (word (text ".") * (oneOrMore IsDigit * crlf))))))

/-- A header block: the request line, any number of headers and an empty line. -/
def headerBlock : Language UInt8 := requestLine * (headerGrammar∗ * crlf)

/-- The control state: the parser's state, and whether a header has been begun. -/
abbrev Control := State × Bool

/-- One step of the parser as far as its control is concerned. -/
def control : Control → UInt8 → Step Control
  | (.methodStart, h), c => if notToken c then .refuse else .next (.method, h)
  | (.method, h), c =>
    if c = ' '.toUInt8 then .next (.uri, h) else if notToken c then .refuse else .next (.method, h)
  | (.uri, h), c =>
    if c = ' '.toUInt8 then .next (.httpVersionH, h)
    else if isCtl (charToInt c) then .refuse else .next (.uri, h)
  | (.httpVersionH, h), c => if c = 'H'.toUInt8 then .next (.httpVersionT1, h) else .refuse
  | (.httpVersionT1, h), c => if c = 'T'.toUInt8 then .next (.httpVersionT2, h) else .refuse
  | (.httpVersionT2, h), c => if c = 'T'.toUInt8 then .next (.httpVersionP, h) else .refuse
  | (.httpVersionP, h), c => if c = 'P'.toUInt8 then .next (.httpVersionSlash, h) else .refuse
  | (.httpVersionSlash, h), c =>
    if c = '/'.toUInt8 then .next (.httpVersionMajorStart, h) else .refuse
  | (.httpVersionMajorStart, h), c =>
    if isDigit (charToInt c) then .next (.httpVersionMajor, h) else .refuse
  | (.httpVersionMajor, h), c =>
    if c = '.'.toUInt8 then .next (.httpVersionMinorStart, h)
    else if isDigit (charToInt c) then .next (.httpVersionMajor, h) else .refuse
  | (.httpVersionMinorStart, h), c =>
    if isDigit (charToInt c) then .next (.httpVersionMinor, h) else .refuse
  | (.httpVersionMinor, h), c =>
    if c = '\r'.toUInt8 then .next (.expectingNewline1, h)
    else if isDigit (charToInt c) then .next (.httpVersionMinor, h) else .refuse
  | (.expectingNewline1, h), c => if c = '\n'.toUInt8 then .next (.headerLineStart, h) else .refuse
  | (.headerLineStart, h), c =>
    if c = '\r'.toUInt8 then .next (.expectingNewline3, h)
    else if h && (c = ' '.toUInt8 || c = '\t'.toUInt8) then .next (.headerLws, h)
    else if notToken c then .refuse else .next (.headerName, true)
  | (.headerLws, h), c =>
    if c = '\r'.toUInt8 then .next (.expectingNewline2, h)
    else if c = ' '.toUInt8 || c = '\t'.toUInt8 then .next (.headerLws, h)
    else if isCtl (charToInt c) then .refuse else .next (.headerValue, h)
  | (.headerName, h), c =>
    if c = ':'.toUInt8 then .next (.spaceBeforeHeaderValue, h)
    else if notToken c then .refuse else .next (.headerName, h)
  | (.spaceBeforeHeaderValue, h), c =>
    if c = ' '.toUInt8 then .next (.headerValue, h) else .refuse
  | (.headerValue, h), c =>
    if c = '\r'.toUInt8 then .next (.expectingNewline2, h)
    else if isCtl (charToInt c) then .refuse else .next (.headerValue, h)
  | (.expectingNewline2, h), c => if c = '\n'.toUInt8 then .next (.headerLineStart, h) else .refuse
  | (.expectingNewline3, _), c => if c = '\n'.toUInt8 then .accept else .refuse

/-- What may follow a line end: continuation lines if there is a header, headers, the end. -/
def linesFrom (h : Bool) : Language UInt8 :=
  (if h then continuation∗ else 1) * (headerGrammar∗ * crlf)

/-- The rest of a request line within its minor version number, and the lines after it. -/
def minorFrom (h : Bool) : Language UInt8 := (symbol IsDigit)∗ * (crlf * linesFrom h)

/-- The rest within the major version number. -/
def majorFrom (h : Bool) : Language UInt8 :=
  (symbol IsDigit)∗ * (word (text ".") * (symbol IsDigit * minorFrom h))

/-- The rest within the target. -/
def targetFrom (h : Bool) : Language UInt8 :=
  (symbol IsTarget)∗ * (word (text " HTTP/") * (symbol IsDigit * majorFrom h))

/-- The rest within the value of a header. -/
def valueFrom (h : Bool) : Language UInt8 := (symbol IsText)∗ * (crlf * linesFrom h)

/-- The rest of a header block from a state on. -/
def remaining : Control → Language UInt8
  | (.methodStart, h) => symbol IsToken * ((symbol IsToken)∗ * (word (text " ") * targetFrom h))
  | (.method, h) => (symbol IsToken)∗ * (word (text " ") * targetFrom h)
  | (.uri, h) => targetFrom h
  | (.httpVersionH, h) => word (text "HTTP/") * (symbol IsDigit * majorFrom h)
  | (.httpVersionT1, h) => word (text "TTP/") * (symbol IsDigit * majorFrom h)
  | (.httpVersionT2, h) => word (text "TP/") * (symbol IsDigit * majorFrom h)
  | (.httpVersionP, h) => word (text "P/") * (symbol IsDigit * majorFrom h)
  | (.httpVersionSlash, h) => word (text "/") * (symbol IsDigit * majorFrom h)
  | (.httpVersionMajorStart, h) => symbol IsDigit * majorFrom h
  | (.httpVersionMajor, h) => majorFrom h
  | (.httpVersionMinorStart, h) => symbol IsDigit * minorFrom h
  | (.httpVersionMinor, h) => minorFrom h
  | (.expectingNewline1, h) => word (text "\n") * linesFrom h
  | (.headerLineStart, h) => linesFrom h
  | (.headerLws, h) => (symbol IsLws)∗ * valueFrom h
  | (.headerName, h) => (symbol IsToken)∗ * (word (text ": ") * valueFrom h)
  | (.spaceBeforeHeaderValue, h) => word (text " ") * valueFrom h
  | (.headerValue, h) => valueFrom h
  | (.expectingNewline2, h) => word (text "\n") * linesFrom h
  | (.expectingNewline3, _) => word (text "\n") * 1

/-- From the start, the rest of a header block is a header block. -/
theorem remaining_methodStart : remaining (.methodStart, false) = headerBlock := by
  simp only [remaining, headerBlock, requestLine, oneOrMore, targetFrom, majorFrom, minorFrom,
    linesFrom, Bool.false_eq_true, if_false, one_mul, mul_assoc]

/-- What one step of the control leaves to be read. -/
def remainingAfter (step : Step Control) (w : Text) : Prop :=
  match step with
  | .accept => w = []
  | .refuse => False
  | .next s => w ∈ remaining s

/-- A state that waits for one class of bytes. -/
private theorem ite_next_iff {p : Prop} [Decidable p] {s : Control} {w : Text} :
    remainingAfter (if p then .next s else .refuse) w ↔ p ∧ w ∈ remaining s := by
  by_cases h : p <;> simp [h, remainingAfter]

/-- A state that ends at one byte, refuses a class and stays otherwise. -/
private theorem ite_refuse_iff {p q : Prop} [Decidable p] [Decidable q] {s t : Control}
    {w : Text} : remainingAfter (if p then .next s else if q then .refuse else .next t) w ↔
      (p ∧ w ∈ remaining s) ∨ (¬ p ∧ ¬ q ∧ w ∈ remaining t) := by
  by_cases hp : p <;> by_cases hq : q <;> simp [hp, hq, remainingAfter]

/-- A state that ends at one byte, stays on a class and refuses otherwise. -/
private theorem ite_stay_iff {p q : Prop} [Decidable p] [Decidable q] {s t : Control}
    {w : Text} : remainingAfter (if p then .next s else if q then .next t else .refuse) w ↔
      (p ∧ w ∈ remaining s) ∨ (¬ p ∧ q ∧ w ∈ remaining t) := by
  by_cases hp : p <;> by_cases hq : q <;> simp [hp, hq, remainingAfter]

/-- The bytes that end a part of a header block are outside of the class of that part. -/
theorem delimiters :
    ¬ IsToken ' '.toUInt8 ∧ ¬ IsToken ':'.toUInt8 ∧ ¬ IsToken '\r'.toUInt8 ∧
      ¬ IsTarget ' '.toUInt8 ∧ ¬ IsText '\r'.toUInt8 ∧ ¬ IsText '\t'.toUInt8 ∧
      ¬ IsDigit '.'.toUInt8 ∧ ¬ IsDigit '\r'.toUInt8 ∧ ¬ IsLws '\r'.toUInt8 := by
  refine ⟨?_, ?_, ?_, ?_, ?_, ?_, ?_, ?_, ?_⟩ <;>
    simp only [IsToken, IsTarget, IsText, IsDigit, IsLws] <;> decide

/-- Behind a line end come a header, when there is one already a continuation line, or the
end of the block. -/
private theorem cons_mem_linesFrom {h : Bool} {a : UInt8} {w : Text} :
    a :: w ∈ linesFrom h ↔
      (h = true ∧ IsLws a ∧ w ∈ remaining (.headerLws, h)) ∨
        (IsToken a ∧ w ∈ remaining (.headerName, true)) ∨
          (a = '\r'.toUInt8 ∧ w ∈ remaining (.expectingNewline3, h)) := by
  have hheaders : a :: w ∈ headerGrammar∗ * crlf ↔
      (IsToken a ∧ w ∈ remaining (.headerName, true)) ∨
        (a = '\r'.toUInt8 ∧ w ∈ remaining (.expectingNewline3, h)) := by
    have hend : a :: w ∈ crlf ↔ a = '\r'.toUInt8 ∧ w ∈ word (text "\n") * 1 := by
      rw [← mul_one crlf]
      simp only [crlf, text, String.reduceToList, List.map_cons, List.map_nil, cons_mem_word_mul]
    rw [mem_kstar_mul, hend, or_comm]
    simp only [headerGrammar, oneOrMore, mul_assoc, cons_mem_symbol_mul, remaining, valueFrom,
      linesFrom, if_true]
  cases h with
  | false => simp only [linesFrom, Bool.false_eq_true, if_false, one_mul, hheaders, false_and,
      false_or]
  | true =>
    have hline (L : Language UInt8) : a :: w ∈ continuation * L ↔
        IsLws a ∧ w ∈ (symbol IsLws)∗ * ((symbol IsText)∗ * (crlf * L)) := by
      simp only [continuation, mul_assoc, cons_mem_symbol_mul]
    simp only [linesFrom, if_true, true_and]
    rw [mem_kstar_mul, hheaders, hline, or_comm]
    simp only [remaining, valueFrom, linesFrom, if_true]

/-- Within the blanks of a continuation line the text may begin at any byte. -/
private theorem cons_mem_lws {h : Bool} {a : UInt8} {w : Text} :
    a :: w ∈ (symbol IsLws)∗ * valueFrom h ↔
      (IsLws a ∧ w ∈ (symbol IsLws)∗ * valueFrom h) ∨ a :: w ∈ valueFrom h :=
  cons_mem_kstar_symbol_mul

/-- A value ends at a carriage return and consists of text before it. -/
private theorem cons_mem_valueFrom {h : Bool} {a : UInt8} {w : Text} :
    a :: w ∈ valueFrom h ↔
      (a = '\r'.toUInt8 ∧ w ∈ word (text "\n") * linesFrom h) ∨
        (a ≠ '\r'.toUInt8 ∧ IsText a ∧ w ∈ valueFrom h) := by
  obtain ⟨-, -, -, -, htext, -⟩ := delimiters
  simp only [valueFrom, crlf, text, String.reduceToList, List.map_cons, List.map_nil]
  exact cons_mem_kstar_symbol_word htext

/-- The rest of a header block after one byte is the rest from the control's next state. -/
theorem cons_mem_remaining (c : Control) (a : UInt8) (w : Text) :
    a :: w ∈ remaining c ↔ remainingAfter (control c a) w := by
  obtain ⟨s, h⟩ := c
  obtain ⟨hspace, hcolon, hcr, htarget, htext, htab, hdot, hdigit, hlws⟩ := delimiters
  cases s
  case headerLineStart =>
    rw [remaining, cons_mem_linesFrom]
    simp only [control]
    by_cases hend : a = '\r'.toUInt8
    · subst hend
      simp [hcr, hlws, remainingAfter]
    · by_cases hblank : h = true ∧ IsLws a
      · have htoken : ¬ IsToken a := by
          rcases hblank.2 with rfl | rfl <;> simp only [IsToken] <;> decide
        obtain ⟨rfl, hblank⟩ := hblank
        simp [hend, htoken, hblank, remainingAfter, show _ ∨ _ from hblank]
      · have hstart : (h && (a = ' '.toUInt8 || a = '\t'.toUInt8)) = false := by
          simpa [IsLws] using hblank
        have hno : ¬ (h = true ∧ IsLws a ∧ w ∈ remaining (.headerLws, h)) :=
          fun hh => hblank ⟨hh.1, hh.2.1⟩
        simp only [hend, hno, hstart, false_or, false_and, or_false, if_false, Bool.false_eq_true]
        by_cases htoken : notToken a <;> simp [htoken, IsToken, remainingAfter]
  case headerLws =>
    simp only [control, remaining]
    rw [cons_mem_lws, cons_mem_valueFrom]
    by_cases hend : a = '\r'.toUInt8
    · subst hend
      simp [hlws, remainingAfter, remaining]
    · by_cases hblank : IsLws a
      · have hstart : (a = ' '.toUInt8 || a = '\t'.toUInt8) = true := by
          simpa [IsLws] using hblank
        -- text that starts with a blank is also read as one more blank
        have hmore : w ∈ valueFrom h → w ∈ (symbol IsLws)∗ * valueFrom h := mem_kstar_mul_of_mem
        simp only [hend, hblank, hstart, if_true, if_false, remainingAfter, remaining]
        tauto
      · have hstart : (a = ' '.toUInt8 || a = '\t'.toUInt8) = false := by
          simpa [IsLws] using hblank
        simp only [hend, hblank, hstart, Bool.false_eq_true, if_false]
        by_cases hctl : isCtl (charToInt a) <;>
          simp [hctl, hend, IsText, remainingAfter, remaining]
  case headerValue =>
    simp only [control, remaining, ite_refuse_iff]
    rw [cons_mem_valueFrom]
    simp only [IsText, ne_eq, Bool.not_eq_true]
  case expectingNewline3 =>
    simp only [control, remaining, text, String.reduceToList, List.map_cons, List.map_nil]
    by_cases hend : a = '\n'.toUInt8 <;> simp [hend, remainingAfter]
  case methodStart =>
    simp only [control, remaining, cons_mem_symbol_mul]
    by_cases htoken : notToken a <;> simp [htoken, IsToken, remainingAfter, remaining]
  all_goals
    simp only [control, ite_next_iff, ite_refuse_iff, ite_stay_iff, remaining, targetFrom,
      majorFrom, minorFrom, crlf, text, String.reduceToList, List.map_cons, List.map_nil,
      cons_mem_word_mul, cons_mem_symbol_mul, word_nil, one_mul,
      cons_mem_kstar_symbol_word hspace, cons_mem_kstar_symbol_word hcolon,
      cons_mem_kstar_symbol_word htarget, cons_mem_kstar_symbol_word hdot,
      cons_mem_kstar_symbol_word hdigit, IsDigit, IsToken, IsTarget, IsText, ne_eq,
      Bool.not_eq_true]
  by_cases hend : a = ' '.toUInt8 <;> simp [hend]

/-- A shortest completion of a header block from every state. -/
def completion : State → Text
  | .methodStart => text "X  HTTP/1.1\r\n\r\n"
  | .method => text "  HTTP/1.1\r\n\r\n"
  | .uri => text " HTTP/1.1\r\n\r\n"
  | .httpVersionH => text "HTTP/1.1\r\n\r\n"
  | .httpVersionT1 => text "TTP/1.1\r\n\r\n"
  | .httpVersionT2 => text "TP/1.1\r\n\r\n"
  | .httpVersionP => text "P/1.1\r\n\r\n"
  | .httpVersionSlash => text "/1.1\r\n\r\n"
  | .httpVersionMajorStart => text "1.1\r\n\r\n"
  | .httpVersionMajor => text ".1\r\n\r\n"
  | .httpVersionMinorStart => text "1\r\n\r\n"
  | .httpVersionMinor => text "\r\n\r\n"
  | .expectingNewline1 => text "\n\r\n"
  | .headerLineStart => text "\r\n"
  | .headerLws => text "\r\n\r\n"
  | .headerName => text ": \r\n\r\n"
  | .spaceBeforeHeaderValue => text " \r\n\r\n"
  | .headerValue => text "\r\n\r\n"
  | .expectingNewline2 => text "\n\r\n"
  | .expectingNewline3 => text "\n"

/-- Each state's completion is accepted. -/
theorem run_completion (c : Control) : run control c (completion c.1) = .accepted [] := by
  obtain ⟨s, h⟩ := c
  cases s <;> cases h <;> decide

/-- No state has read all of a header block. -/
theorem nil_notMem_remaining (c : Control) : [] ∉ remaining c := by
  obtain ⟨s, h⟩ := c
  cases s <;> cases h <;>
    simp [remaining, targetFrom, majorFrom, minorFrom, valueFrom, linesFrom, crlf, text]

/-- The control of the parser recognises what remains of a header block in each state. -/
theorem control_recognises : Recognises control remaining := by
  refine Recognises.of_completion nil_notMem_remaining ?_ (fun c => completion c.1) run_completion
  intro c a w
  rw [cons_mem_remaining]
  cases hstep : control c a <;> simp [remainingAfter]

end Aite.Http
