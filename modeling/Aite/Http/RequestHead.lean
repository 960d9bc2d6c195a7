import Aite.Http.ParserVerdict
import Mathlib.Tactic.IntervalCases

/-!
# Request heads and their text

A request head is the structured form of a header block: the parts of the request line, and
header lines with their continuation lines. Each part carries the class of its bytes. Its text
is a word of the grammar, every word of the grammar is the text of a head, and parsing the text
gives the parts back, whatever follows it in the buffer.
-/

namespace Aite.Http

open StopMachine
open Computability

/-- A continuation line: blanks, and text that does not begin with a blank. -/
structure ContinuationLine where
  blank : UInt8
  blanks : Text
  content : Text
  blank_lws : IsLws blank
  blanks_lws : ∀ c ∈ blanks, IsLws c
  content_text : ∀ c ∈ content, IsText c
  content_start : content.head? ≠ some ' '.toUInt8

/-- The bytes of a continuation line. -/
def ContinuationLine.render (line : ContinuationLine) : Text :=
  line.blank :: line.blanks ++ (line.content ++ text "\r\n")

/-- A header with its continuation lines. -/
structure HeaderLine where
  name : Text
  value : Text
  continuations : List ContinuationLine
  name_ne_nil : name ≠ []
  name_token : ∀ c ∈ name, IsToken c
  value_text : ∀ c ∈ value, IsText c

/-- The bytes of a header with its continuation lines. -/
def HeaderLine.render (line : HeaderLine) : Text :=
  line.name ++ (text ": " ++ (line.value ++ (text "\r\n" ++
    line.continuations.flatMap ContinuationLine.render)))

/-- What the parser keeps of a header: the blanks that begin continuation lines are dropped. -/
def HeaderLine.parsed (line : HeaderLine) : Header :=
  ⟨line.name, line.value ++ line.continuations.flatMap ContinuationLine.content⟩

/-- The head of a request. -/
structure RequestHead where
  method : Text
  target : Text
  major : Text
  minor : Text
  headers : List HeaderLine
  method_ne_nil : method ≠ []
  method_token : ∀ c ∈ method, IsToken c
  target_text : ∀ c ∈ target, IsTarget c
  major_ne_nil : major ≠ []
  major_digit : ∀ c ∈ major, IsDigit c
  minor_ne_nil : minor ≠ []
  minor_digit : ∀ c ∈ minor, IsDigit c

/-- The bytes of a request head. -/
def RequestHead.render (head : RequestHead) : Text :=
  head.method ++ (text " " ++ (head.target ++ (text " HTTP/" ++ (head.major ++ (text "." ++
    (head.minor ++ (text "\r\n" ++ (head.headers.flatMap HeaderLine.render ++ text "\r\n"))))))))

/-- The number that the parser computes from the digits of a version. -/
def versionNumber (digits : Text) : Int32 :=
  digits.foldl (fun n c => n * 10 + c.toInt8.toInt32 - '0'.toUInt8.toInt8.toInt32) 0

/-- The request that the parser makes of a head. -/
def RequestHead.parsed (head : RequestHead) : ParserRequest where
  method := head.method
  uri := head.target
  httpVersionMajor := some (versionNumber head.major)
  httpVersionMinor := some (versionNumber head.minor)
  headers := head.headers.map HeaderLine.parsed

/-- The loop passes over a piece of the buffer without a verdict. -/
def Passes (state : State) (req : ParserRequest) (piece : Text) (state' : State)
    (req' : ParserRequest) : Prop :=
  ∀ rest, parseLoop state req (piece ++ rest) =
    (parseLoop state' req' rest).map fun p => { p with consumed := p.consumed + piece.length }

/-- Nothing is passed over without a step. -/
theorem Passes.nil (state : State) (req : ParserRequest) : Passes state req [] state req := by
  intro rest
  rw [List.nil_append]
  cases parseLoop state req rest <;> rfl

/-- Two pieces are passed over one after the other. -/
theorem Passes.append {s₁ s₂ s₃ : State} {req₁ req₂ req₃ : ParserRequest} {u v : Text}
    (hu : Passes s₁ req₁ u s₂ req₂) (hv : Passes s₂ req₂ v s₃ req₃) :
    Passes s₁ req₁ (u ++ v) s₃ req₃ := by
  intro rest
  rw [List.append_assoc, hu, hv]
  cases parseLoop s₃ req₃ rest with
  | error e => rfl
  | ok p =>
    simp only [Except.map, List.length_append, Except.ok.injEq, Parsed.mk.injEq, and_true,
      true_and]
    omega

/-- One byte is passed over by an undecided step. -/
theorem Passes.cons {s₁ s₃ : State} {req₁ req₃ : ParserRequest} {c : UInt8} {v : Text}
    (s₂ : State) (req₂ : ParserRequest)
    (hc : consume s₁ req₁ c = .ok (.indeterminate, s₂, req₂)) (hv : Passes s₂ req₂ v s₃ req₃) :
    Passes s₁ req₁ (c :: v) s₃ req₃ := by
  intro rest
  rw [List.cons_append]
  simp only [parseLoop, hc, hv rest]
  cases parseLoop s₃ req₃ rest <;> rfl

/-- A state that collects the bytes of a class passes over any number of them. -/
theorem Passes.collect (state : State) (p : UInt8 → Prop) (build : Text → ParserRequest)
    (hstep : ∀ seen c, p c →
      consume state (build seen) c = .ok (.indeterminate, state, build (seen ++ [c])))
    {piece : Text} (hpiece : ∀ c ∈ piece, p c) (seen : Text) :
    Passes state (build seen) piece state (build (seen ++ piece)) := by
  induction piece generalizing seen with
  | nil =>
    rw [List.append_nil]
    exact Passes.nil _ _
  | cons c piece ih =>
    apply Passes.cons _ _ (hstep seen c (hpiece c (by simp)))
    have hrest := ih (fun d hd => hpiece d (by simp [hd])) (seen ++ [c])
    rwa [List.append_assoc, List.singleton_append] at hrest

/-- A change of the last header, when it is known. -/
private theorem modifyBack_append (req : ParserRequest) (headers : List Header) (back : Header)
    (f : Header → Header) :
    ParserRequest.modifyBack { req with headers := headers ++ [back] } f =
      .ok { req with headers := headers ++ [f back] } := by
  simp [ParserRequest.modifyBack]

/-- The method is collected up to the space. -/
theorem passes_method {method : Text} (hne : method ≠ [])
    (h : ∀ c ∈ method, IsToken c) (req : ParserRequest) (hreq : req.method = []) :
    Passes .methodStart req (method ++ text " ") .uri { req with method := method } := by
  cases method with
  | nil => exact absurd rfl hne
  | cons c method =>
    have hcollect := Passes.collect .method IsToken (fun seen => { req with method := seen })
      (fun seen d (hd : notToken d = false) => by
        simp [consume, hd, ne_space_of_token (by simp [hd] : ¬ notToken d = true)])
      (show ∀ d ∈ method, IsToken d from fun d hd => h d (by simp [hd])) [c]
    have hc : notToken c = false := h c (by simp)
    apply Passes.cons .method { req with method := [c] }
    · simp [consume, hc, hreq]
    · apply hcollect.append
      exact Passes.cons _ _ rfl (Passes.nil _ _)

/-- The target is collected up to the space, and the name of the protocol is checked. -/
theorem passes_target {target : Text} (h : ∀ c ∈ target, IsTarget c)
    (req : ParserRequest) (hreq : req.uri = []) :
    Passes .uri req (target ++ text " HTTP/") .httpVersionMajorStart
      { req with uri := target, httpVersionMajor := some 0, httpVersionMinor := some 0 } := by
  have hcollect := Passes.collect .uri IsTarget (fun seen => { req with uri := seen })
    (fun seen d hd => by
      have htext : isCtl (charToInt d) = false := hd.1
      simp [consume, hd.2, htext])
    h []
  have hstart : { req with uri := [] } = req := by rw [← hreq]
  rw [hstart] at hcollect
  apply hcollect.append
  exact Passes.cons _ _ rfl (Passes.cons _ _ rfl (Passes.cons _ _ rfl (Passes.cons _ _ rfl
    (Passes.cons _ _ rfl (Passes.cons _ _ rfl (Passes.nil _ _))))))

/-- The digits of a version are collected up to the byte behind them. -/
private theorem versionNumber_append (digits : Text) (c : UInt8) :
    versionNumber (digits ++ [c]) =
      versionNumber digits * 10 + c.toInt8.toInt32 - '0'.toUInt8.toInt8.toInt32 := by
  simp [versionNumber]

/-- The codes of the decimal digits. -/
theorem isDigit_iff {c : UInt8} : IsDigit c ↔ 48 ≤ c.toNat ∧ c.toNat ≤ 57 := by
  have hzero : charToInt '0'.toUInt8 = 48 := by decide
  have hnine : charToInt '9'.toUInt8 = 57 := by decide
  have hc : c.toNat < 256 := c.toNat_lt
  simp only [IsDigit, isDigit, hzero, hnine, charToInt_eq, Bool.and_eq_true, decide_eq_true_eq]
  split <;> omega

/-- The decimal digits. -/
theorem mem_digits_of_isDigit {c : UInt8} (h : IsDigit c) : c ∈ text "0123456789" := by
  obtain ⟨hlow, hhigh⟩ := isDigit_iff.mp h
  rw [← UInt8.ofNat_toNat (x := c)]
  interval_cases c.toNat <;> decide

/-- A digit is neither a point nor a carriage return. -/
theorem digit_ne {c : UInt8} (h : IsDigit c) : c ≠ '.'.toUInt8 ∧ c ≠ '\r'.toUInt8 := by
  obtain ⟨-, -, -, -, -, -, hdot, hcr, -⟩ := delimiters
  exact ⟨fun heq => hdot (heq ▸ h), fun heq => hcr (heq ▸ h)⟩

/-- The major version number is collected up to the point. -/
private theorem passes_major {digits : Text} (hne : digits ≠ []) (h : ∀ c ∈ digits, IsDigit c)
    (req : ParserRequest) (hreq : req.httpVersionMajor = some 0) :
    Passes .httpVersionMajorStart req (digits ++ text ".") .httpVersionMinorStart
      { req with httpVersionMajor := some (versionNumber digits) } := by
  cases digits with
  | nil => exact absurd rfl hne
  | cons c digits =>
    have hcollect := Passes.collect .httpVersionMajor IsDigit
      (fun seen => { req with httpVersionMajor := some (versionNumber seen) })
      (fun seen d hd => by
        have hdigit : isDigit (charToInt d) = true := hd
        simp [consume, digit_ne hd, hdigit, appendDigit, versionNumber_append, bind, Except.bind])
      (show ∀ d ∈ digits, IsDigit d from fun d hd => h d (by simp [hd])) [c]
    have hc : isDigit (charToInt c) = true := h c (by simp)
    apply Passes.cons .httpVersionMajor { req with httpVersionMajor := some (versionNumber [c]) }
    · simp [consume, hc, hreq, appendDigit, versionNumber, bind, Except.bind]
    · apply hcollect.append
      exact Passes.cons _ _ rfl (Passes.nil _ _)

/-- The minor version number is collected up to the end of the line. -/
private theorem passes_minor {digits : Text} (hne : digits ≠ []) (h : ∀ c ∈ digits, IsDigit c)
    (req : ParserRequest) (hreq : req.httpVersionMinor = some 0) :
    Passes .httpVersionMinorStart req (digits ++ text "\r\n") .headerLineStart
      { req with httpVersionMinor := some (versionNumber digits) } := by
  cases digits with
  | nil => exact absurd rfl hne
  | cons c digits =>
    have hcollect := Passes.collect .httpVersionMinor IsDigit
      (fun seen => { req with httpVersionMinor := some (versionNumber seen) })
      (fun seen d hd => by
        have hdigit : isDigit (charToInt d) = true := hd
        simp [consume, digit_ne hd, hdigit, appendDigit, versionNumber_append, bind, Except.bind])
      (show ∀ d ∈ digits, IsDigit d from fun d hd => h d (by simp [hd])) [c]
    have hc : isDigit (charToInt c) = true := h c (by simp)
    apply Passes.cons .httpVersionMinor { req with httpVersionMinor := some (versionNumber [c]) }
    · simp [consume, hc, hreq, appendDigit, versionNumber, bind, Except.bind]
    · apply hcollect.append
      exact Passes.cons _ _ rfl (Passes.cons _ _ rfl (Passes.nil _ _))

/-- Bytes of a name do not end it. -/
private theorem token_ne_colon {c : UInt8} (h : IsToken c) : c ≠ ':'.toUInt8 := by
  obtain ⟨-, hcolon, -⟩ := delimiters
  exact fun heq => hcolon (heq ▸ h)

/-- Bytes of a name neither end the header block nor begin a continuation line. -/
private theorem token_ne_line {c : UInt8} (h : IsToken c) :
    c ≠ '\r'.toUInt8 ∧ c ≠ ' '.toUInt8 ∧ c ≠ '\t'.toUInt8 := by
  have htab : ¬ IsToken '\t'.toUInt8 := by
    simp only [IsToken]
    decide
  obtain ⟨hspace, -, hcr, -⟩ := delimiters
  exact ⟨fun heq => hcr (heq ▸ h), fun heq => hspace (heq ▸ h), fun heq => htab (heq ▸ h)⟩

/-- Bytes of a value are neither a carriage return nor a tab. -/
private theorem text_ne {c : UInt8} (h : IsText c) : c ≠ '\r'.toUInt8 ∧ c ≠ '\t'.toUInt8 := by
  obtain ⟨-, -, -, -, hcr, htab, -⟩ := delimiters
  exact ⟨fun heq => hcr (heq ▸ h), fun heq => htab (heq ▸ h)⟩

section Headers

variable (req : ParserRequest) (headers : List Header)

/-- The name of a header is collected up to the colon and the space. -/
private theorem passes_name {name : Text} (hne : name ≠ []) (h : ∀ c ∈ name, IsToken c) :
    Passes .headerLineStart { req with headers := headers } (name ++ text ": ") .headerValue
      { req with headers := headers ++ [⟨name, []⟩] } := by
  cases name with
  | nil => exact absurd rfl hne
  | cons c name =>
    have hcollect := Passes.collect .headerName IsToken
      (fun seen => { req with headers := headers ++ [⟨seen, []⟩] })
      (fun seen d hd => by
        have htoken : notToken d = false := hd
        simp [consume, token_ne_colon hd, htoken, ParserRequest.pushName, modifyBack_append,
          bind, Except.bind])
      (show ∀ d ∈ name, IsToken d from fun d hd => h d (by simp [hd])) [c]
    have hc : IsToken c := h c (by simp)
    apply Passes.cons .headerName { req with headers := headers ++ [⟨[c], []⟩] }
    · have htoken : notToken c = false := hc
      simp [consume, token_ne_line hc, htoken, ParserRequest.pushName, modifyBack_append, bind,
        Except.bind]
    · apply hcollect.append
      exact Passes.cons _ _ rfl (Passes.cons _ _ rfl (Passes.nil _ _))

/-- The text of a value is collected. -/
private theorem passes_value {value : Text} (h : ∀ c ∈ value, IsText c) (name seen : Text) :
    Passes .headerValue { req with headers := headers ++ [⟨name, seen⟩] } value .headerValue
      { req with headers := headers ++ [⟨name, seen ++ value⟩] } := by
  apply Passes.collect .headerValue IsText
    (fun seen => { req with headers := headers ++ [⟨name, seen⟩] }) _ h
  intro seen d hd
  have htext : isCtl (charToInt d) = false := hd
  simp [consume, text_ne hd, htext, ParserRequest.pushValue, modifyBack_append, bind, Except.bind]

/-- The end of a line within a value. -/
private theorem passes_crlf (name value : Text) :
    Passes .headerValue { req with headers := headers ++ [⟨name, value⟩] } (text "\r\n")
      .headerLineStart { req with headers := headers ++ [⟨name, value⟩] } :=
  Passes.cons _ _ rfl (Passes.cons _ _ rfl (Passes.nil _ _))

/-- The text of a continuation line is appended to the value of the last header. -/
private theorem passes_continuation (line : ContinuationLine) (name value : Text) :
    Passes .headerLineStart { req with headers := headers ++ [⟨name, value⟩] } line.render
      .headerLineStart { req with headers := headers ++ [⟨name, value ++ line.content⟩] } := by
  obtain ⟨blank, blanks, content, hblank, hblanks, htext, hstart⟩ := line
  have hblanks' := Passes.collect .headerLws IsLws
    (fun _ => { req with headers := headers ++ [⟨name, value⟩] })
    (fun seen d hd => by rcases hd with rfl | rfl <;> rfl) hblanks []
  apply Passes.cons .headerLws { req with headers := headers ++ [⟨name, value⟩] }
  · have hcr : blank ≠ '\r'.toUInt8 := by
      rcases hblank with rfl | rfl <;> decide
    have hlws : (blank = ' '.toUInt8 || blank = '\t'.toUInt8) = true := by
      simpa [IsLws] using hblank
    simp [consume, hcr, hlws]
  · apply hblanks'.append
    cases content with
    | nil =>
      simp only [List.append_nil]
      exact Passes.cons _ _ rfl (Passes.cons _ _ rfl (Passes.nil _ _))
    | cons c content =>
      have hc : IsText c := htext c (by simp)
      have hctl : isCtl (charToInt c) = false := hc
      have hspace : c ≠ ' '.toUInt8 := by simpa using hstart
      have hrest := passes_value req headers
        (show ∀ d ∈ content, IsText d from fun d hd => htext d (by simp [hd])) name (value ++ [c])
      rw [List.append_assoc, List.singleton_append] at hrest
      apply Passes.cons .headerValue { req with headers := headers ++ [⟨name, value ++ [c]⟩] }
      · simp [consume, text_ne hc, hspace, hctl, ParserRequest.pushValue, modifyBack_append, bind,
          Except.bind]
      · exact hrest.append (passes_crlf req headers name _)

/-- All continuation lines are appended to the value of the last header. -/
private theorem passes_continuations (lines : List ContinuationLine) (name value : Text) :
    Passes .headerLineStart { req with headers := headers ++ [⟨name, value⟩] }
      (lines.flatMap ContinuationLine.render) .headerLineStart
      { req with headers := headers ++ [⟨name, value ++ lines.flatMap ContinuationLine.content⟩] }
      := by
  induction lines generalizing value with
  | nil =>
    rw [List.flatMap_nil, List.flatMap_nil, List.append_nil]
    exact Passes.nil _ _
  | cons line lines ih =>
    rw [List.flatMap_cons, List.flatMap_cons, ← List.append_assoc]
    exact (passes_continuation req headers line name value).append (ih _)

/-- A header line adds its header. -/
private theorem passes_header (line : HeaderLine) :
    Passes .headerLineStart { req with headers := headers } line.render .headerLineStart
      { req with headers := headers ++ [line.parsed] } := by
  unfold HeaderLine.render
  rw [← List.append_assoc]
  apply (passes_name req headers line.name_ne_nil line.name_token).append
  apply (passes_value req headers line.value_text line.name []).append
  rw [List.nil_append]
  apply (passes_crlf req headers line.name line.value).append
  exact passes_continuations req headers line.continuations line.name line.value

/-- Header lines add their headers in order. -/
private theorem passes_headers (lines : List HeaderLine) :
    Passes .headerLineStart { req with headers := headers } (lines.flatMap HeaderLine.render)
      .headerLineStart { req with headers := headers ++ lines.map HeaderLine.parsed } := by
  induction lines generalizing headers with
  | nil =>
    rw [List.flatMap_nil, List.map_nil, List.append_nil]
    exact Passes.nil _ _
  | cons line lines ih =>
    rw [List.flatMap_cons, List.map_cons, List.append_cons]
    exact (passes_header req headers line).append (ih _)

end Headers

/-- The text of a head is accepted with the parts of the head, whatever follows it. -/
theorem parseLoop_render (head : RequestHead) (rest : Text) :
    parseLoop .methodStart {} (head.render ++ rest) =
      .ok ⟨.true, head.render.length, .expectingNewline3, head.parsed⟩ := by
  have hline : Passes .methodStart {} (head.method ++ text " " ++ (head.target ++ text " HTTP/" ++
      (head.major ++ text "." ++ (head.minor ++ text "\r\n")))) .headerLineStart
      { head.parsed with headers := [] } := by
    apply (passes_method head.method_ne_nil head.method_token {} rfl).append
    apply (passes_target head.target_text _ rfl).append
    apply (passes_major head.major_ne_nil head.major_digit _ rfl).append
    exact passes_minor head.minor_ne_nil head.minor_digit _ rfl
  have hblock := hline.append (passes_headers { head.parsed with headers := [] } [] head.headers)
  have hrender : head.render = (head.method ++ text " " ++ (head.target ++ text " HTTP/" ++
      (head.major ++ text "." ++ (head.minor ++ text "\r\n"))) ++
      head.headers.flatMap HeaderLine.render) ++ text "\r\n" := by
    simp only [RequestHead.render, List.append_assoc]
  have hend (req : ParserRequest) : parseLoop .headerLineStart req (text "\r\n" ++ rest) =
      .ok ⟨.true, 2, .expectingNewline3, req⟩ := rfl
  have hlength := congrArg List.length hrender
  rw [List.length_append, show (text "\r\n").length = 2 from rfl, Nat.add_comm] at hlength
  rw [hlength, hrender, List.append_assoc, hblock, hend]
  rfl

/-- The fields of a head, set one by one in a container. -/
def RequestHead.fields (head : RequestHead) {B : Beast} (start : B.Fields) : B.Fields :=
  head.headers.foldl (fun fields line => B.set fields line.parsed.name line.parsed.value) start

/-- Parsing the text of a head stores its parts in the caller's request. -/
theorem parse_render {B : Beast} (head : RequestHead) (rest : Text) (req : Request B) {verb : B.Verb}
    (hverb : B.stringToVerb head.method = some verb) :
    parse .methodStart req (head.render ++ rest) =
      .ok ⟨.true, head.render.length, .expectingNewline3, { req with
        method := some verb
        version := (versionNumber head.major * 10 + versionNumber head.minor).toUInt32
        target := head.target
        fields := head.fields req.fields }⟩ := by
  simp only [parse, parseLoop_render, bind, Except.bind, if_true, translate, RequestHead.parsed,
    hverb, List.foldl_map, RequestHead.fields]

/-- One or more bytes of a class. -/
private theorem mem_oneOrMore {p : UInt8 → Prop} {w : Text} :
    w ∈ oneOrMore p ↔ w ≠ [] ∧ ∀ c ∈ w, p c := by
  cases w with
  | nil => simp [oneOrMore]
  | cons c w =>
    rw [oneOrMore, cons_mem_symbol_mul, mem_kstar_symbol, List.forall_mem_cons]
    simp

/-- Every continuation line of the grammar is the text of one. -/
private theorem exists_continuationLine {w : Text} (h : w ∈ continuation) :
    ∃ line : ContinuationLine, line.render = w := by
  obtain ⟨_, ⟨blank, hblank, rfl⟩, u, hu, rfl⟩ := Language.mem_mul.mp h
  obtain ⟨blanks, hblanks, v, hv, rfl⟩ := Language.mem_mul.mp hu
  obtain ⟨content, hcontent, _, rfl, rfl⟩ := Language.mem_mul.mp hv
  rw [mem_kstar_symbol] at hblanks hcontent
  -- spaces at the start of the text are blanks as well
  refine ⟨⟨blank, blanks ++ content.takeWhile (· = ' '.toUInt8),
    content.dropWhile (· = ' '.toUInt8), hblank, ?_, ?_, ?_⟩, ?_⟩
  · intro c hc
    cases List.mem_append.mp hc with
    | inl hc => exact hblanks c hc
    | inr hc => exact Or.inl (by simpa using (List.all_eq_true.mp List.all_takeWhile) c hc)
  · exact fun c hc => hcontent c ((List.dropWhile_suffix _).subset hc)
  · intro hhead
    have hdrop := List.head?_dropWhile_not (· = ' '.toUInt8) content
    rw [hhead] at hdrop
    simp at hdrop
  · simp only [ContinuationLine.render, List.cons_append, List.append_assoc, List.nil_append]
    rw [← List.append_assoc (content.takeWhile _), List.takeWhile_append_dropWhile]

/-- Every header of the grammar is the text of a header line. -/
private theorem exists_headerLine {w : Text} (h : w ∈ headerGrammar) :
    ∃ line : HeaderLine, line.render = w := by
  obtain ⟨name, hname, u, hu, rfl⟩ := Language.mem_mul.mp h
  obtain ⟨_, rfl, v, hv, rfl⟩ := Language.mem_mul.mp hu
  obtain ⟨value, hvalue, t, ht, rfl⟩ := Language.mem_mul.mp hv
  obtain ⟨_, rfl, lines, hlines, rfl⟩ := Language.mem_mul.mp ht
  obtain ⟨continuations, rfl⟩ :=
    exists_flatMap_of_mem_kstar (fun _ => exists_continuationLine) hlines
  obtain ⟨hne, htoken⟩ := mem_oneOrMore.mp hname
  exact ⟨⟨name, value, continuations, hne, htoken, mem_kstar_symbol.mp hvalue⟩, rfl⟩

/-- The words of the grammar are exactly the texts of request heads. -/
theorem mem_headerBlock_iff (w : Text) :
    w ∈ headerBlock ↔ ∃ head : RequestHead, head.render = w := by
  constructor
  · intro h
    obtain ⟨line, hline, u, hu, rfl⟩ := Language.mem_mul.mp h
    obtain ⟨headers, hheaders, _, rfl, rfl⟩ := Language.mem_mul.mp hu
    obtain ⟨method, hmethod, u₁, hu₁, rfl⟩ := Language.mem_mul.mp hline
    obtain ⟨_, rfl, u₂, hu₂, rfl⟩ := Language.mem_mul.mp hu₁
    obtain ⟨target, htarget, u₃, hu₃, rfl⟩ := Language.mem_mul.mp hu₂
    obtain ⟨_, rfl, u₄, hu₄, rfl⟩ := Language.mem_mul.mp hu₃
    obtain ⟨major, hmajor, u₅, hu₅, rfl⟩ := Language.mem_mul.mp hu₄
    obtain ⟨_, rfl, u₆, hu₆, rfl⟩ := Language.mem_mul.mp hu₅
    obtain ⟨minor, hminor, _, rfl, rfl⟩ := Language.mem_mul.mp hu₆
    obtain ⟨lines, rfl⟩ := exists_flatMap_of_mem_kstar (fun _ => exists_headerLine) hheaders
    obtain ⟨hmethod, hmethod'⟩ := mem_oneOrMore.mp hmethod
    obtain ⟨hmajor, hmajor'⟩ := mem_oneOrMore.mp hmajor
    obtain ⟨hminor, hminor'⟩ := mem_oneOrMore.mp hminor
    refine ⟨⟨method, target, major, minor, lines, hmethod, hmethod', mem_kstar_symbol.mp htarget,
      hmajor, hmajor', hminor, hminor'⟩, ?_⟩
    simp only [RequestHead.render, List.append_assoc]
  · rintro ⟨head, rfl⟩
    have hloop := parseLoop_start head.render
    have hrender := parseLoop_render head []
    rw [List.append_nil] at hrender
    rw [hrender] at hloop
    cases hrun : run control (.methodStart, false) head.render with
    | accepted rest =>
      rw [hrun] at hloop
      obtain ⟨n, b, parsed, hn, -, hok, -⟩ := hloop
      obtain ⟨w, hw, hwr⟩ := (accepted_iff_headerBlock _ rest).mp hrun
      simp only [Except.ok.injEq, Parsed.mk.injEq] at hok
      obtain rfl : rest = [] := List.eq_nil_of_length_eq_zero (by omega)
      rw [hwr, List.append_nil]
      exact hw
    | refused rest =>
      rw [hrun] at hloop
      obtain ⟨n, s, parsed, -, hok⟩ := hloop
      cases hok
    | pending s =>
      rw [hrun] at hloop
      obtain ⟨parsed, hok, -⟩ := hloop
      cases hok

end Aite.Http
