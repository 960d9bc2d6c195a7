import Aite.Http.FieldList

/-!
# The echo handler

A request in canonical form has one spelling of everything that the parser would also accept
otherwise: versions of one digit, one space in front of a value, no continuation lines, and one
header line of a name. The request that is parsed from its text is written as the same text,
and this is what the echo handler answers with.
-/

namespace Aite.Handlers

open Http

variable {B : Beast}

/-- The names of the methods that the library registers. -/
structure MethodNames (B : Beast) where
  /-- `http::to_string(verb)` -/
  name : B.Verb → Text
  name_of : ∀ method verb, B.stringToVerb method = some verb → name verb = method
  token : ∀ method verb, B.stringToVerb method = some verb →
    method ≠ [] ∧ ∀ c ∈ method, IsToken c

/-- The registered names are tokens. -/
private theorem registeredMethods_token :
    ∀ method ∈ registeredMethods, method ≠ [] ∧ ∀ c ∈ method, notToken c = false := by
  decide

/-- The names themselves. -/
def MethodNames.lists : MethodNames Beast.lists where
  name := id
  name_of := by
    intro method verb h
    change (if method ∈ registeredMethods then some method else none) = some verb at h
    split_ifs at h
    exact (Option.some.inj h).symm
  token := by
    intro method verb h
    change (if method ∈ registeredMethods then some method else none) = some verb at h
    split_ifs at h with hmem
    exact registeredMethods_token method hmem

/-- A field as it is written. -/
def writeField (field : Text × Text) : Text := field.1 ++ (text ": " ++ (field.2 ++ text "\r\n"))

/-- `ss << req`, with no method name when there is no method, and with the parts of the version in
decimal. The library writes one byte for each part (`serialize`), so it does this below 100. -/
def writeRequest (L : FieldList B) (names : MethodNames B) (req : Request B) : Text :=
  (req.method.map names.name).getD [] ++ (text " " ++ (req.target ++ (text " HTTP/" ++
    (text (toString (req.version / 10).toNat) ++ (text "." ++
      (text (toString (req.version % 10).toNat) ++ (text "\r\n" ++
        ((L.list req.fields).flatMap writeField ++ (text "\r\n" ++ req.body)))))))))

/-- A part of the version as the library writes it. -/
def versionByte (part : UInt32) : UInt8 := '0'.toUInt8 + part.toUInt8

/-- `ss << req` for a request with a target, whatever its version. -/
def serialize (L : FieldList B) (names : MethodNames B) (req : Request B) : Text :=
  (req.method.map names.name).getD [] ++ (text " " ++ (req.target ++ (text " HTTP/" ++
    (versionByte (req.version / 10) :: (text "." ++ (versionByte (req.version % 10) ::
      (text "\r\n" ++ ((L.list req.fields).flatMap writeField ++ (text "\r\n" ++ req.body)))))))))

/-- A part of one digit is written in decimal. -/
private theorem text_toString_digit {part : UInt32} (h : part < 10) :
    text (toString part.toNat) = [versionByte part] := by
  have hdigits : ∀ n < 10,
      text (toString (UInt32.ofNat n).toNat) = [versionByte (UInt32.ofNat n)] := by decide
  have hdigit := hdigits part.toNat h
  rwa [UInt32.ofNat_toNat] at hdigit

/-- Versions with one digit in each part are written in decimal. -/
theorem serialize_eq (L : FieldList B) (names : MethodNames B) {req : Request B}
    (hversion : req.version < 100) : serialize L names req = writeRequest L names req := by
  have hnat : req.version.toNat < 100 := hversion
  have hmajor : req.version / 10 < 10 := by
    rw [UInt32.lt_iff_toNat_lt, UInt32.toNat_div]
    change req.version.toNat / 10 < 10
    omega
  have hminor : req.version % 10 < 10 := by
    rw [UInt32.lt_iff_toNat_lt, UInt32.toNat_mod]
    change req.version.toNat % 10 < 10
    omega
  rw [serialize, writeRequest, text_toString_digit hmajor, text_toString_digit hminor]
  rfl

/-- `EchoRequestHandler::handle_request`, with what writes a request. -/
def EchoRequestHandler.handleRequest (write : Request B → Text) (req : Request B) : Response B :=
  let requestContent := write req
  { result := 200
    fields := B.set (B.set B.empty (text "Content-Type") (text "text/plain"))
      (text "Content-Length") (text (toString requestContent.length))
    body := requestContent }

/-- A request in canonical form. -/
structure CanonicalRequest (B : Beast) where
  method : Text
  verb : B.Verb
  target : Text
  major : UInt8
  minor : UInt8
  headers : List (Text × Text)
  body : Text
  method_known : B.stringToVerb method = some verb
  target_ne_nil : target ≠ []
  target_text : ∀ c ∈ target, IsTarget c
  major_digit : IsDigit major
  minor_digit : IsDigit minor
  name_token : ∀ header ∈ headers, header.1 ≠ [] ∧ ∀ c ∈ header.1, IsToken c
  value_text : ∀ header ∈ headers, ∀ c ∈ header.2, IsText c
  value_start : ∀ header ∈ headers, ∀ c ∈ header.2.head?, isBlank c = false
  value_end : ∀ header ∈ headers, ∀ c ∈ header.2.getLast?, isBlank c = false
  distinct : DistinctNames headers

/-- The header block of a canonical request. -/
def CanonicalRequest.headerBlock (request : CanonicalRequest B) : Text :=
  request.method ++ (text " " ++ (request.target ++ (text " HTTP/" ++ ([request.major] ++ (text "." ++
    ([request.minor] ++ (text "\r\n" ++ (request.headers.flatMap writeField ++ text "\r\n"))))))))

/-- The text of a canonical request. -/
def CanonicalRequest.render (request : CanonicalRequest B) : Text :=
  request.headerBlock ++ request.body

/-- Header lines in canonical form are header lines of the parser. -/
theorem exists_headerLines {headers : List (Text × Text)}
    (hname : ∀ header ∈ headers, header.1 ≠ [] ∧ ∀ c ∈ header.1, IsToken c)
    (hvalue : ∀ header ∈ headers, ∀ c ∈ header.2, IsText c) :
    ∃ lines : List HeaderLine, lines.flatMap HeaderLine.render = headers.flatMap writeField ∧
      lines.map (fun line => (line.name, line.parsed.value)) = headers := by
  induction headers with
  | nil => exact ⟨[], rfl, rfl⟩
  | cons header headers ih =>
    obtain ⟨hname, hnames⟩ := List.forall_mem_cons.mp hname
    obtain ⟨hvalue, hvalues⟩ := List.forall_mem_cons.mp hvalue
    obtain ⟨lines, hrender, hparsed⟩ := ih hnames hvalues
    let line : HeaderLine := ⟨header.1, header.2, [], hname.1, hname.2, hvalue⟩
    have hline : line.render = writeField header := by
      simp only [line, HeaderLine.render, writeField, List.flatMap_nil, List.append_nil]
    have hfield : (line.name, line.parsed.value) = header := by
      simp only [line, HeaderLine.parsed, List.flatMap_nil, List.append_nil]
    refine ⟨line :: lines, ?_, ?_⟩
    · rw [List.flatMap_cons, List.flatMap_cons, hline, hrender]
    · rw [List.map_cons, hfield, hparsed]

/-- The digits of a version are written as they were read. -/
private theorem write_version {major minor : UInt8} (hmajor : IsDigit major)
    (hminor : IsDigit minor) :
    let version := (versionNumber [major] * 10 + versionNumber [minor]).toUInt32
    text (toString (version / 10).toNat) = [major] ∧
      text (toString (version % 10).toNat) = [minor] := by
  have hnumbers : ∀ major ∈ text "0123456789", ∀ minor ∈ text "0123456789",
      let version := (versionNumber [major] * 10 + versionNumber [minor]).toUInt32
      (version / 10).toNat = major.toNat - 48 ∧ (version % 10).toNat = minor.toNat - 48 := by
    decide
  have hwritten : ∀ digit ∈ text "0123456789", text (toString (digit.toNat - 48)) = [digit] := by
    decide
  have hmajor' := mem_digits_of_isDigit hmajor
  have hminor' := mem_digits_of_isDigit hminor
  intro version
  obtain ⟨hten, hone⟩ := hnumbers major hmajor' minor hminor'
  rw [hten, hone, hwritten major hmajor', hwritten minor hminor']
  exact ⟨rfl, rfl⟩

/-- A canonical request is the text of a head whose header lines are its headers. -/
private theorem CanonicalRequest.exists_head (names : MethodNames B)
    (request : CanonicalRequest B) :
    ∃ head : RequestHead, head.render = request.headerBlock ∧ head.method = request.method ∧
      head.target = request.target ∧ head.major = [request.major] ∧
        head.minor = [request.minor] ∧ head.lines = request.headers := by
  obtain ⟨lines, hrender, hparsed⟩ := exists_headerLines request.name_token request.value_text
  obtain ⟨hmethod, htoken⟩ := names.token _ _ request.method_known
  have htrimmed : lines.map (fun line => (line.name, trim line.parsed.value)) = request.headers := by
    have hmap : lines.map (fun line => (line.name, trim line.parsed.value)) =
        (lines.map fun line => (line.name, line.parsed.value)).map
          fun field => (field.1, trim field.2) := by
      rw [List.map_map]
      rfl
    have hkept (header : Text × Text) (hheader : header ∈ request.headers) :
        (header.1, trim header.2) = id header := by
      rw [trim_eq_self (request.value_start header hheader) (request.value_end header hheader)]
      rfl
    rw [hmap, hparsed, List.map_congr_left hkept, List.map_id]
  let head : RequestHead :=
    { method := request.method
      target := request.target
      major := [request.major]
      minor := [request.minor]
      headers := lines
      method_ne_nil := hmethod
      method_token := htoken
      target_text := request.target_text
      major_ne_nil := List.cons_ne_nil _ _
      major_digit := by simpa using request.major_digit
      minor_ne_nil := List.cons_ne_nil _ _
      minor_digit := by simpa using request.minor_digit }
  refine ⟨head, ?_, rfl, rfl, rfl, rfl, htrimmed⟩
  rw [CanonicalRequest.headerBlock, ← hrender]
  rfl

/-- A canonical request is accepted with its header block, whatever the method, target, version
and body of the caller's request were, and the echo handler answers with its text. -/
theorem echo_canonical (L : FieldList B) (names : MethodNames B) (request : CanonicalRequest B)
    (req : Request B) :
    ∃ stored : Request B,
      parse .methodStart { req with fields := B.empty } request.render =
          .ok ⟨.true, request.headerBlock.length, .expectingNewline3, stored⟩ ∧
        (EchoRequestHandler.handleRequest (writeRequest L names)
          { stored with body := request.body }).body = request.render := by
  obtain ⟨head, hrender, hmethod, htarget, hmajor, hminor, hlines⟩ := request.exists_head names
  have hverb : B.stringToVerb head.method = some request.verb := hmethod ▸ request.method_known
  have hparse := parse_render head request.body { req with fields := B.empty } hverb
  rw [hrender] at hparse
  refine ⟨_, hparse, ?_⟩
  have hfields : L.list (head.fields B.empty) = request.headers := by
    rw [RequestHead.list_fields L (hlines ▸ request.distinct), hlines]
  obtain ⟨hwmajor, hwminor⟩ := write_version request.major_digit request.minor_digit
  have hname := names.name_of _ _ request.method_known
  simp only [EchoRequestHandler.handleRequest, writeRequest, Option.map_some, Option.getD_some, hname,
    hfields, hmajor, hminor, hwmajor, hwminor, htarget, CanonicalRequest.render,
    CanonicalRequest.headerBlock, List.append_assoc]

/-- A canonical request with a body. -/
def canonicalPost : CanonicalRequest Beast.lists where
  method := text "POST"
  verb := text "POST"
  target := text "/echo/a"
  major := '1'.toUInt8
  minor := '0'.toUInt8
  headers := [(text "Host", text "a:80"), (text "content-length", text "2")]
  body := text "hi"
  method_known := rfl
  target_ne_nil := by decide
  target_text := by simp only [IsTarget, IsText]; decide
  major_digit := by simp only [IsDigit]; decide
  minor_digit := by simp only [IsDigit]; decide
  name_token := by simp only [IsToken]; decide
  value_text := by simp only [IsText]; decide
  value_start := by decide
  value_end := by decide
  distinct := by simp only [DistinctNames]; decide

/-- The text of this request. -/
example : canonicalPost.render =
    text "POST /echo/a HTTP/1.0\r\nHost: a:80\r\ncontent-length: 2\r\n\r\nhi" := by decide

end Aite.Handlers
