import Aite.Http.Beast

/-!
# The request parser

The parser is an automaton that is fed one byte at a time. Its state survives between
calls of `parse`, while the request under construction is a local variable of each call:
its version numbers have no value until the slash of the version is read, and its last
header exists only once a header line was begun in the same call.

Version numbers are 32-bit integers that wrap around.
-/

namespace Aite.Http

/-- Check if a byte is an HTTP character. -/
def isChar (c : ℤ) : Bool := 0 ≤ c && c ≤ 127

/-- Check if a byte is an HTTP control character. -/
def isCtl (c : ℤ) : Bool := (0 ≤ c && c ≤ 31) || c = 127

/-- Check if a byte is defined as an HTTP tspecial character. -/
def isTspecial (c : ℤ) : Bool := (text "()<>@,;:\\\"/[]?=\x7b\x7d \t").any fun d => c = charToInt d

/-- Check if a byte is a digit. -/
def isDigit (c : ℤ) : Bool := charToInt '0'.toUInt8 ≤ c && c ≤ charToInt '9'.toUInt8

/-- The current state of the parser. -/
inductive State where
  | methodStart
  | method
  | uri
  | httpVersionH
  | httpVersionT1
  | httpVersionT2
  | httpVersionP
  | httpVersionSlash
  | httpVersionMajorStart
  | httpVersionMajor
  | httpVersionMinorStart
  | httpVersionMinor
  | expectingNewline1
  | headerLineStart
  | headerLws
  | headerName
  | spaceBeforeHeaderValue
  | headerValue
  | expectingNewline2
  | expectingNewline3
  deriving DecidableEq, Repr

/-- A header under construction. -/
structure Header where
  name : Text := []
  value : Text := []
  deriving DecidableEq, Repr

/-- The request under construction; a version number without value is uninitialised. -/
structure ParserRequest where
  method : Text := []
  uri : Text := []
  httpVersionMajor : Option Int32 := none
  httpVersionMinor : Option Int32 := none
  headers : List Header := []
  deriving DecidableEq, Repr

/-- Change `headers.back()`. -/
def ParserRequest.modifyBack (req : ParserRequest) (f : Header → Header) : Run ParserRequest :=
  match req.headers.getLast? with
  | none => .error (.fault .backOfEmpty)
  | some back => .ok { req with headers := req.headers.dropLast ++ [f back] }

/-- `headers.back().name.push_back(input)` -/
def ParserRequest.pushName (req : ParserRequest) (input : UInt8) : Run ParserRequest :=
  req.modifyBack fun back => { back with name := back.name ++ [input] }

/-- `headers.back().value.push_back(input)` -/
def ParserRequest.pushValue (req : ParserRequest) (input : UInt8) : Run ParserRequest :=
  req.modifyBack fun back => { back with value := back.value ++ [input] }

/-- `number * 10 + input - '0'`. An overflow of this `int`, which is undefined, wraps around here; the
state and the verdict of the parser do not depend on the number. -/
def appendDigit (number : Option Int32) (input : UInt8) : Run (Option Int32) :=
  match number with
  | none => .error (.fault .uninitialised)
  | some n => .ok (some (n * 10 + input.toInt8.toInt32 - '0'.toUInt8.toInt8.toInt32))

/-- A byte that may not stand in a method or a header name. -/
def notToken (input : UInt8) : Bool :=
  !isChar (charToInt input) || isCtl (charToInt input) || isTspecial (charToInt input)

/-- Handle the next character of input. -/
def consume (state : State) (req : ParserRequest) (input : UInt8) :
    Run (Tribool × State × ParserRequest) :=
  match state with
  | .methodStart =>
    if notToken input then .ok (.false, state, req)
    else .ok (.indeterminate, .method, { req with method := req.method ++ [input] })
  | .method =>
    if input = ' '.toUInt8 then .ok (.indeterminate, .uri, req)
    else if notToken input then .ok (.false, state, req)
    else .ok (.indeterminate, state, { req with method := req.method ++ [input] })
  | .uri =>
    if input = ' '.toUInt8 then .ok (.indeterminate, .httpVersionH, req)
    else if isCtl (charToInt input) then .ok (.false, state, req)
    else .ok (.indeterminate, state, { req with uri := req.uri ++ [input] })
  | .httpVersionH =>
    if input = 'H'.toUInt8 then .ok (.indeterminate, .httpVersionT1, req)
    else .ok (.false, state, req)
  | .httpVersionT1 =>
    if input = 'T'.toUInt8 then .ok (.indeterminate, .httpVersionT2, req)
    else .ok (.false, state, req)
  | .httpVersionT2 =>
    if input = 'T'.toUInt8 then .ok (.indeterminate, .httpVersionP, req)
    else .ok (.false, state, req)
  | .httpVersionP =>
    if input = 'P'.toUInt8 then .ok (.indeterminate, .httpVersionSlash, req)
    else .ok (.false, state, req)
  | .httpVersionSlash =>
    if input = '/'.toUInt8 then
      .ok (.indeterminate, .httpVersionMajorStart,
        { req with httpVersionMajor := some 0, httpVersionMinor := some 0 })
    else .ok (.false, state, req)
  | .httpVersionMajorStart =>
    if isDigit (charToInt input) then do
      let major ← appendDigit req.httpVersionMajor input
      .ok (.indeterminate, .httpVersionMajor, { req with httpVersionMajor := major })
    else .ok (.false, state, req)
  | .httpVersionMajor =>
    if input = '.'.toUInt8 then .ok (.indeterminate, .httpVersionMinorStart, req)
    else if isDigit (charToInt input) then do
      let major ← appendDigit req.httpVersionMajor input
      .ok (.indeterminate, state, { req with httpVersionMajor := major })
    else .ok (.false, state, req)
  | .httpVersionMinorStart =>
    if isDigit (charToInt input) then do
      let minor ← appendDigit req.httpVersionMinor input
      .ok (.indeterminate, .httpVersionMinor, { req with httpVersionMinor := minor })
    else .ok (.false, state, req)
  | .httpVersionMinor =>
    if input = '\r'.toUInt8 then .ok (.indeterminate, .expectingNewline1, req)
    else if isDigit (charToInt input) then do
      let minor ← appendDigit req.httpVersionMinor input
      .ok (.indeterminate, state, { req with httpVersionMinor := minor })
    else .ok (.false, state, req)
  | .expectingNewline1 =>
    if input = '\n'.toUInt8 then .ok (.indeterminate, .headerLineStart, req)
    else .ok (.false, state, req)
  | .headerLineStart =>
    if input = '\r'.toUInt8 then .ok (.indeterminate, .expectingNewline3, req)
    else if !req.headers.isEmpty && (input = ' '.toUInt8 || input = '\t'.toUInt8) then
      .ok (.indeterminate, .headerLws, req)
    else if notToken input then .ok (.false, state, req)
    else do
      let req ← { req with headers := req.headers ++ [Header.mk [] []] }.pushName input
      .ok (.indeterminate, .headerName, req)
  | .headerLws =>
    if input = '\r'.toUInt8 then .ok (.indeterminate, .expectingNewline2, req)
    else if input = ' '.toUInt8 || input = '\t'.toUInt8 then .ok (.indeterminate, state, req)
    else if isCtl (charToInt input) then .ok (.false, state, req)
    else do
      let req ← req.pushValue input
      .ok (.indeterminate, .headerValue, req)
  | .headerName =>
    if input = ':'.toUInt8 then .ok (.indeterminate, .spaceBeforeHeaderValue, req)
    else if notToken input then .ok (.false, state, req)
    else do
      let req ← req.pushName input
      .ok (.indeterminate, state, req)
  | .spaceBeforeHeaderValue =>
    if input = ' '.toUInt8 then .ok (.indeterminate, .headerValue, req)
    else .ok (.false, state, req)
  | .headerValue =>
    if input = '\r'.toUInt8 then .ok (.indeterminate, .expectingNewline2, req)
    else if isCtl (charToInt input) then .ok (.false, state, req)
    else do
      let req ← req.pushValue input
      .ok (.indeterminate, state, req)
  | .expectingNewline2 =>
    if input = '\n'.toUInt8 then .ok (.indeterminate, .headerLineStart, req)
    else .ok (.false, state, req)
  | .expectingNewline3 =>
    .ok (if input = '\n'.toUInt8 then .true else .false, state, req)

/-- What the loop of `parse` leaves behind. -/
structure Parsed where
  verdict : Tribool
  consumed : ℕ
  state : State
  parsed : ParserRequest
  deriving DecidableEq, Repr

/-- Count one more consumed byte. -/
def Parsed.advance (p : Parsed) : Parsed := { p with consumed := p.consumed + 1 }

/-- Feed the bytes of a buffer to the automaton until it gives a verdict. -/
def parseLoop : State → ParserRequest → Text → Run Parsed
  | state, req, [] => .ok ⟨.indeterminate, 0, state, req⟩
  | state, req, input :: rest =>
    match consume state req input with
    | .error e => .error e
    | .ok (.indeterminate, state', req') => (parseLoop state' req' rest).map Parsed.advance
    | .ok (verdict, state', req') => .ok ⟨verdict, 1, state', req'⟩

/-- Store the parsed request in the library's request, whose fields are set one by one. -/
def translate {B : Beast} (req : Request B) (parsed : ParserRequest) : Run (Request B) :=
  match B.stringToVerb parsed.method with
  | none => .error (.thrown .invalidArgument)
  | some verb =>
    match parsed.httpVersionMajor, parsed.httpVersionMinor with
    | some major, some minor =>
      .ok { req with
        method := some verb
        version := (major * 10 + minor).toUInt32
        target := parsed.uri
        fields := parsed.headers.foldl (fun fields h => B.set fields h.name h.value) req.fields }
    | _, _ => .error (.fault .uninitialised)

/-- The result of `parse`, with the state the parser object keeps and the caller's request. -/
structure ParseResult (B : Beast) where
  verdict : Tribool
  consumed : ℕ
  state : State
  req : Request B

/-- Parse some data: a verdict and how much of the buffer has been consumed. -/
def parse {B : Beast} (state : State) (req : Request B) (buffer : Text) : Run (ParseResult B) := do
  let p ← parseLoop state {} buffer
  if p.verdict = .true then
    let req ← translate req p.parsed
    .ok ⟨p.verdict, p.consumed, p.state, req⟩
  else
    .ok ⟨p.verdict, p.consumed, p.state, req⟩

/-- A translated request has the parsed target. -/
private theorem target_of_translate {B : Beast} {req req' : Request B} {parsed : ParserRequest}
    (h : translate req parsed = .ok req') : req'.target = parsed.uri := by
  unfold translate at h
  cases hverb : B.stringToVerb parsed.method with
  | none => simp [hverb] at h
  | some verb =>
    cases hmajor : parsed.httpVersionMajor with
    | none => simp [hverb, hmajor] at h
    | some major =>
      cases hminor : parsed.httpVersionMinor with
      | none => simp [hverb, hmajor, hminor] at h
      | some minor =>
        simp only [hverb, hmajor, hminor, Except.ok.injEq] at h
        rw [← h]

/-- What is parsed does not depend on the caller's request, whose target is replaced with a header
that is accepted and which is kept with any other. -/
theorem parse_eq_ok {B : Beast} {state : State} {req : Request B} {buffer : Text}
    {r : ParseResult B} (h : parse state req buffer = .ok r) :
    ∃ p, parseLoop state {} buffer = .ok p ∧ r.verdict = p.verdict ∧ r.state = p.state ∧
      (p.verdict = .true → r.req.target = p.parsed.uri) ∧ (p.verdict ≠ .true → r.req = req) := by
  obtain ⟨p, hloop, h⟩ := run_bind_eq_ok.mp h
  by_cases hverdict : p.verdict = .true
  · rw [if_pos hverdict] at h
    obtain ⟨req', htranslate, h⟩ := run_bind_eq_ok.mp h
    rw [← Except.ok.inj h]
    exact ⟨p, hloop, rfl, rfl, fun _ => target_of_translate htranslate, absurd hverdict⟩
  · rw [if_neg hverdict] at h
    rw [← Except.ok.inj h]
    exact ⟨p, hloop, rfl, rfl, fun htrue => absurd htrue hverdict, fun _ => rfl⟩

/-- A request without headers is accepted at its last byte. -/
example : (parseLoop .methodStart {} (text "GET / HTTP/1.1\r\n\r\nx")).map Parsed.consumed =
    .ok 18 := by decide

end Aite.Http
