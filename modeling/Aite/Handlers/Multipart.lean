import Aite.Handlers.Construct
import Aite.Http.Beast
import Aite.Lib.Sections
import Aite.Strings

/-!
# Reading a multipart form

An upload is a form of four parts between delimiter lines. The form is read line by line from
a stream; what is left of the stream is the list of its remaining lines. A delimiter line is
the opening one of the form or the closing one, and the reader does not tell them apart.
-/

namespace Aite.Handlers

open Http

/-- The lines that `std::getline` takes from a stream. A last line may lack its newline. -/
def linesOf (s : Text) : List Text :=
  let parts := s.splitOn '\n'.toUInt8
  if parts.getLast? = some [] then parts.dropLast else parts

/-- What is read of a part. -/
structure Part where
  header : Text := []
  body : Text := []
  deriving DecidableEq, Repr

/-- The state while a part is read, but for the end. -/
inductive PartState where
  | readingHeader
  | readingBody
  deriving DecidableEq, Repr

namespace MemeHandler

/-- A delimiter line of either kind. -/
def isBoundary (boundary line : Text) : Bool :=
  line = text "--" ++ boundary ++ text "--\r" || line = text "--" ++ boundary ++ text "\r"

/-- The line ends in a carriage return. -/
def crlfEnd (line : Text) : Bool := line ≠ [] && line.getLast? = some '\r'.toUInt8

/-- Read a part up to a delimiter line: whether there was one, the part, and the lines left. -/
def parseLoop (boundary : Text) : PartState → Bool → Part → List Text → Bool × Part × List Text
  | _, _, part, [] => (false, part, [])
  | .readingHeader, crlf, part, line :: rest =>
    if isBoundary boundary line then (true, part, rest)
    else if line = text "\r" ∧ crlf = true then
      -- two CRLFs transition to the body
      parseLoop boundary .readingBody (crlfEnd line) part rest
    else
      let part := { part with header := part.header ++ line ++ text "\n" }
      parseLoop boundary .readingHeader (crlfEnd line) part rest
  | .readingBody, _, part, line :: rest =>
    if isBoundary boundary line then (true, part, rest)
    else
      let part := { part with body := part.body ++ line ++ text "\n" }
      parseLoop boundary .readingBody (crlfEnd line) part rest

/-- Read the next part of a form. -/
def parse (boundary : Text) (lines : List Text) : Bool × Part × List Text :=
  parseLoop boundary .readingHeader false {} lines

end MemeHandler

/-- The status and the message of an error page. -/
structure Refusal where
  status : ℕ
  message : Text
  deriving DecidableEq, Repr

/-- The parts of an upload, in order. -/
structure Form where
  style : Part
  image : Part
  top : Part
  bottom : Part
  deriving DecidableEq, Repr

/-- Read the next part, or refuse the form with this message. -/
def parseField (boundary message : Text) (lines : List Text) : Except Refusal (Part × List Text) :=
  match MemeHandler.parse boundary lines with
  | (true, part, rest) => .ok (part, rest)
  | (false, _, _) => .error ⟨400, message⟩

/-- Parse the multipart form. It has to consist of exactly four parts sectioned off by the
boundaries, with no content outside of the boundaries. -/
def parseForm (boundary body : Text) : Except Refusal Form :=
  match linesOf body with
  | [] => .error ⟨400, text "Invalid meme request: no boundary"⟩
  | line :: rest =>
    if line ≠ text "--" ++ boundary ++ text "\r" then
      .error ⟨400, text "Invalid meme request: no boundary"⟩
    else do
      let (style, rest) ←
        parseField boundary (text "Invalid meme request: error in template selection") rest
      let (image, rest) ← parseField boundary (text "Invalid meme request: error in image") rest
      let (top, rest) ← parseField boundary (text "Invalid meme request: error in top caption") rest
      let (bottom, rest) ←
        parseField boundary (text "Invalid meme request: error in bottom caption") rest
      match rest with
      | [] => .ok ⟨style, image, top, bottom⟩
      | _ :: _ => .error ⟨400, text "Invalid meme request: too many fields"⟩

/-! ## The boundary of a request -/

/-- The class `[a-zA-Z0-9]`. -/
def isAlnum (c : UInt8) : Bool := (48 ≤ c && c ≤ 57) || (65 ≤ c && c ≤ 90) || (97 ≤ c && c ≤ 122)

/-- The text begins with a match of `boundary=([-]{4,}[a-zA-Z0-9]{10,})`, of which the part from
the first dash on is the boundary. -/
def matchBoundary (s : Text) : Option Text :=
  if (text "boundary=").isPrefixOf s then
    let rest := s.drop (text "boundary=").length
    let dashes := rest.takeWhile (· = '-'.toUInt8)
    let word := (rest.dropWhile (· = '-'.toUInt8)).takeWhile isAlnum
    if 4 ≤ dashes.length ∧ 10 ≤ word.length then some (dashes ++ word) else none
  else none

/-- The boundary of the first match in a text. -/
def findBoundary : Text → Option Text
  | [] => none
  | c :: rest => (matchBoundary (c :: rest)).or (findBoundary rest)

/-- What the upload asks of the request container beyond its common interface. -/
structure RequestIO (B : Beast) where
  /-- `ss << req` -/
  write : Request B → Text
  /-- `req.find(name) != req.end()` -/
  contains : B.Fields → Text → Bool
  /-- `req.method() == http::verb::post` -/
  isPost : Option B.Verb → Bool

variable {B : Beast}

/-- Find the boundary provided by the request. -/
def uploadBoundary (io : RequestIO B) (req : Request B) : Except Refusal Text :=
  if !io.isPost req.method || !io.contains req.fields (text "Content-Type") then
    .error ⟨400, text "Invalid upload request"⟩
  else if find (B.get req.fields (text "Content-Type")) (text "multipart/form-data") 0 = none then
    .error ⟨415, text "Invalid upload content type"⟩
  else
    match findBoundary (io.write req) with
    | none => .error ⟨400, text "Invalid multipart form"⟩
    | some boundary => .ok boundary

/-- The form of an upload. -/
def uploadForm (io : RequestIO B) (req : Request B) : Except Refusal Form := do
  let boundary ← uploadBoundary io req
  parseForm boundary req.body

/-! ## The content type of a part -/

/-- The class `\w`. -/
def isWordChar (c : UInt8) : Bool := isAlnum c || c = '_'.toUInt8

/-- The first match of `\b(Content-Type: )(.*)` behind the given byte, empty without one. -/
def findContentType (before : Option UInt8) : Text → Text
  | [] => []
  | c :: rest =>
    if (text "Content-Type: ").isPrefixOf (c :: rest) ∧ before.any isWordChar = false then
      (c :: rest).takeWhile fun d => d ≠ '\n'.toUInt8 ∧ d ≠ '\r'.toUInt8
    else findContentType (some c) rest

/-- The text behind `image/` in the content type of a part, none when it is not an image. -/
def imageExtension (header : Text) : Option Text :=
  let currContentType := trimSpaces (findContentType none header)
  (find currContentType (text "image/") 0).map fun i =>
    currContentType.drop (i + (text "image/").length)

end Aite.Handlers
