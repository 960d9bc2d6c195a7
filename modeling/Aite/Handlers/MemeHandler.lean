import Aite.Handlers.Multipart
import Aite.Http.ErrorPage
import Aite.Lib.KeyedList
import Mathlib.Data.List.Sort

/-!
# The meme handler

An upload is parsed, its image is written to a file under a fresh name, the meme is entered in
the gallery of the server and a page with the meme is answered. Browsing shows all memes of the
gallery. The gallery outlives an exception, so the effects of a request stand next to its
response.
-/

namespace Aite.Handlers

open Http KeyedList Routing

/-- The memes of the server: the address of the image, and the captions and the style chosen. -/
abbrev Memes := List (Text × List Text)

/-- `server::log_meme` -/
def logMeme (imgUrl : Text) (selections : List Text) (memes : Memes) : Memes :=
  if (memes.lookup imgUrl).isSome then memes else assign imgUrl selections memes

/-- The lexicographic order of `std::string`. -/
def precedes : Text → Text → Bool
  | [], _ => true
  | _ :: _, [] => false
  | a :: s, b :: t => a < b || (a == b && precedes s t)

/-- The entries in the order in which a `std::map` is iterated. -/
def inOrder (memes : Memes) : Memes := memes.insertionSort fun a b => precedes a.1 b.1 = true

/-- `path /= s` -/
def appendPath (path s : Text) : Text :=
  if s.head? = some '/'.toUInt8 then s
  else if path ≠ [] ∧ path.getLast? ≠ some '/'.toUInt8 then path ++ text "/" ++ s
  else path ++ s

/-- The exception of `std::stoi` for a text without a number in range. -/
def stoiExn (value : Text) : Exn :=
  let rest := value.dropWhile isSpace
  let digits := if rest.head? = some '-'.toUInt8 ∨ rest.head? = some '+'.toUInt8 then rest.tail
    else rest
  if (digits.takeWhile fun c => isDigit (charToInt c)) = [] then .invalidArgument else .outOfRange

/-- `std::stoi(value)` -/
def stoiRun (value : Text) : Run ℤ :=
  match stoi value with
  | some n => .ok n
  | none => .error (.thrown (stoiExn value))

/-- What one upload meets outside of the program. -/
structure Outside where
  /-- The random uuid, as a string. -/
  uuid : Text
  /-- Whether `create_directories` succeeds on the directory of a path. -/
  createsDirectories : Text → Bool
  /-- Whether the file can be opened for writing. -/
  opens : Text → Bool

/-- What a request to the meme handler leaves behind, and its response unless it ends
without one. -/
structure Outcome (B : Beast) where
  memes : Memes
  /-- The file that is opened for writing, once there are directories for it. -/
  opened : Option Text := none
  /-- The file that was written. -/
  file : Option (Text × Text) := none
  response : Run (Response B)

/-- A page that is sent. -/
def htmlPage (B : Beast) (content : Text) : Response B where
  result := 200
  fields := B.set (B.set B.empty (text "Content-Type") (text "text/html"))
    (text "Content-Length") (text (toString content.length))
  body := content

/-! ## The pages -/

/-- The page of a new meme, up to the rules of its style. -/
def memePage (top bottom imgUrl : Text) : Text :=
  (text "<!DOCTYPE html><html><head><link rel='preconnect' " ++
    text "href='https://fonts.gstatic.com'><link " ++
    text "href='https://fonts.googleapis.com/css2?family=Odibee+Sans&family=Oswald:wght@700&family=Sigmar+One&display=swap' " ++
    text "rel='stylesheet'></head><body style=\"background-color:lightblue; font-family: " ++
    text "'Sigmar One', cursive;color: navy\"><div class='page-layout'><div " ++
    text "class=column></div><div class='page-content column'><h1>Generated Meme</h1><div " ++
    text "class=template><div class='top-text captions'>") ++
    top ++ (text "</div><div class='bottom-text captions'>") ++
    bottom ++ (text "</div></div><form method='post' action='/meme/browse'><button style='position: " ++
    text "absolute; left: 0'>Browse Memes</button></form><form method='post' " ++
    text "action='/meme/create'><button style='position: absolute; right: 0'>Create a new " ++
    text "Meme</button></form></div><div " ++
    text "class=column></div></div></body><style>button\x7bwidth: 30px; border-radius: " ++
    text "5px;background-color: navy;color: white;font-family: 'Sigmar One', " ++
    text "cursive;width:50%;font-size: 1vw;\x7d.template\x7bbackground-color: white; " ++
    text "margin: auto; width: 40vw;height: 40vw;word-break: " ++
    text "normal;margin:1vw;font-family: 'Oswald', sans-serif;text-transform: " ++
    text "uppercase;background-image:url(") ++
    imgUrl ++ (text ");background-position: center; background-size:cover; color: white;font-size: " ++
    text "2vw;-webkit-text-stroke: 1px black;position: relative;align-content: " ++
    text "center;\x7d.top-text\x7bfont-size: 130%;padding: 2% 0% 2% 0%; font-weight: " ++
    text "bold; width: 100%;position: absolute;top:0;text-align: " ++
    text "center;\x7d.bottom-text\x7bfont-size: 130%;padding: 2% 0% 2% " ++
    text "0%;font-weight:bold;width:100%;position: absolute;bottom: 0;text-align: " ++
    text "center;\x7d.page-layout\x7bwidth: 100%;height: 100%;display: " ++
    text "grid;grid-template-rows:100%;grid-template-columns: 15% 70% 15%; position: " ++
    text "relative;\x7d.page-content\x7bpadding-left:5%;padding-right:5%;text-align: " ++
    text "center;font-size: 1.5vw;\x7d.column \x7bdisplay: " ++
    text "grid;justify-content:center;align-content:center;text-align:center;position: " ++
    text "relative\x7d")

/-- The rules of a style on the page of a new meme, none when there is no such style. -/
def memeRules (chosenStyle : ℤ) : Option Text :=
  if chosenStyle = 1 then some []
  else if chosenStyle = 2 then some (text ".captions\x7bbackground-color:black\x7d")
  else if chosenStyle = 3 then
    some (text ".captions\x7bcolor:black; -webkit-text-stroke: 1px white\x7d")
  else none

/-- The beginning of the page that shows all memes. -/
def browseHead : Text :=
  text "<!DOCTYPE html><html><head><link rel='preconnect' " ++
    text "href='https://fonts.gstatic.com'><link " ++
    text "href='https://fonts.googleapis.com/css2?family=Odibee+Sans&family=Oswald:wght@700&family=Sigmar+One&display=swap' " ++
    text "rel='stylesheet'></head><style>.template\x7bbackground-color: white; margin: " ++
    text "auto; width: 300px;height: 300px;word-break: normal;margin:14px;font-family: " ++
    text "'Oswald', sans-serif;text-transform: uppercase;background-position: center; " ++
    text "background-size:cover; color: white;font-size: 20px;-webkit-text-stroke: 1px " ++
    text "black;position: relative;align-content: center;\x7d.top-text\x7bfont-size: " ++
    text "20px;padding: 2% 0% 2% 0%; font-weight: bold; width: 100%;position: " ++
    text "absolute;top:0;text-align: center;\x7d.bottom-text\x7bfont-size: 20px;padding: " ++
    text "2% 0% 2% 0%;font-weight:bold;width:100%;position: absolute;bottom: " ++
    text "0;text-align: center;\x7dbutton\x7bpadding-left: 2% width: 30px; border-radius: " ++
    text "5px;background-color: navy;color: white;font-family: 'Sigmar One', " ++
    text "cursive;width:50%;font-size: 1vw;\x7d</style><body " ++
    text "style=\"background-color:lightblue; font-family: 'Sigmar One', cursive;color: " ++
    text "navy\"><h1 style='padding-left: 2%'>Browse Memes</h1><form method='post' " ++
    text "action='/meme/create'><button style='position: absolute; left: 0'>Create a new " ++
    text "Meme</button></form><br><br><div style='display:flex; flex-wrap: wrap'>"

/-- The style of captions among all memes, none when there is no such style. -/
def browseStyle (chosenStyle : ℤ) : Option Text :=
  if chosenStyle = 1 then some (text "color:white; -webkit-text-stroke: 1px black")
  else if chosenStyle = 2 then some (text "background-color:black")
  else if chosenStyle = 3 then some (text "color:black; -webkit-text-stroke: 1px white")
  else none

/-- One of all memes. -/
def browseEntry (imgUrl style top bottom : Text) : Text :=
  text "<div class=template style=\"background-image:url('" ++ imgUrl ++
    text "')\"><div class='top-text captions' style='" ++ style ++ text "'>" ++ top ++
    text "</div><div class='bottom-text captions' style='" ++ style ++ text "'>" ++ bottom ++
    text "</div></div>"

/-- The loop over the memes: their part of the page, none when a style does not exist. -/
def browseLoop : Memes → Run (Option Text)
  | [] => .ok (some [])
  | (imgUrl, selections) :: rest =>
    match selections with
    | top :: bottom :: style :: _ => do
      let chosenStyle ← stoiRun style
      match browseStyle chosenStyle with
      | none => .ok none
      | some css => do
        let page ← browseLoop rest
        .ok (page.map fun page => browseEntry imgUrl css top bottom ++ page)
    | _ => .error (.fault .indexOutOfRange)

/-! ## The handler -/

variable {B : Beast}

namespace MemeHandler

/-- The path of the file for an uploaded image. -/
def uploadPath (outside : Outside) (h : MemeHandler) (extension : Text) : Text :=
  appendPath h.root (outside.uuid ++ text "." ++ extension)

/-- Generate a meme from an upload. -/
def generateMeme (io : RequestIO B) (outside : Outside) (h : MemeHandler) (memes : Memes)
    (req : Request B) : Outcome B :=
  match uploadForm io req with
  | .error refusal =>
    { memes, response := .ok (showErrorPage B refusal.status refusal.message) }
  | .ok form =>
    match imageExtension form.image.header with
    | none => { memes, response := .ok (showErrorPage B 400 (text "Bad file type")) }
    | some extension =>
      let path := h.uploadPath outside extension
      if outside.createsDirectories path then
        let style := form.style.body.filter fun c => !isSpace c
        let imgUrl := text "." ++ path
        { memes := logMeme imgUrl [form.top.body, form.bottom.body, style] memes
          opened := some path
          file := if outside.opens path then some (path, form.image.body) else none
          response := do
            -- the meme is in the gallery by now
            let chosenStyle ← stoiRun style
            match memeRules chosenStyle with
            | none => .ok (showErrorPage B 400 (text "Invalid meme request"))
            | some rules =>
              .ok (htmlPage B (memePage form.top.body form.bottom.body imgUrl ++ rules ++
                text "</style></body></html>")) }
      else
        { memes, response := .ok (showErrorPage B 500
            (text "Could not write meme to configured filesystem")) }

/-- Show all memes. -/
def browseMemes (memes : Memes) : Run (Response B) := do
  match ← browseLoop (inOrder memes) with
  | none => .ok (showErrorPage B 400 (text "Invalid meme request"))
  | some page => .ok (htmlPage B (browseHead ++ page ++ text "</body></html>"))

/-- Show the form for a new meme. -/
def createMeme (fs : FileSystem) (cwd : Text) : Run (Response B) := do
  let path ← convertToAbsolutePath cwd (text "./memes/meme_creation.html")
  match fs.contents path with
  | none => .ok (showErrorPage B 500 (text "error getting meme creation form"))
  | some content => .ok (htmlPage B content)

/-- What the handler does with a request. -/
def handleRequest (io : RequestIO B) (fs : FileSystem) (cwd : Text) (outside : Outside)
    (h : MemeHandler) (memes : Memes) (req : Request B) : Outcome B :=
  if !h.initialised then
    { memes, response :=
        .ok (showErrorPage B 500 (text "Status Handler was not correctly initialized")) }
  else if req.target = text "/meme/generate" then h.generateMeme io outside memes req
  else if req.target = text "/meme/create" then { memes, response := createMeme fs cwd }
  else if req.target = text "/meme/browse" then { memes, response := browseMemes memes }
  else { memes, response := .ok (showErrorPage B 404 (req.target ++ text " page not found")) }

end MemeHandler

/-! ## What an upload does -/

/-- A form without one of its fields is a bad request. -/
private theorem status_of_parseField {boundary message : Text} {lines : List Text}
    {refusal : Refusal} (h : parseField boundary message lines = .error refusal) :
    refusal.status = 400 := by
  unfold parseField at h
  split at h
  · cases h
  · exact Except.error.inj h ▸ rfl

/-- An upload is refused by the first part of what is done with it or by the rest. -/
private theorem refused_bind {A C : Type} {first : Except Refusal A} {next : A → Except Refusal C}
    {refusal : Refusal} (h : (first >>= next) = .error refusal) :
    first = .error refusal ∨ ∃ a, first = .ok a ∧ next a = .error refusal := by
  cases first with
  | error other => exact Or.inl (congrArg _ (Except.error.inj h))
  | ok a => exact Or.inr ⟨a, rfl, h⟩

/-- Any other body than a form of four fields is a bad request. -/
private theorem status_of_parseForm {boundary body : Text} {refusal : Refusal}
    (h : parseForm boundary body = .error refusal) : refusal.status = 400 := by
  unfold parseForm at h
  split at h
  · exact Except.error.inj h ▸ rfl
  · split_ifs at h
    · exact Except.error.inj h ▸ rfl
    · -- the four fields one after the other
      iterate 4
        obtain h | ⟨_, -, h⟩ := refused_bind h
        · exact status_of_parseField h
      dsimp only at h
      split at h
      · cases h
      · exact Except.error.inj h ▸ rfl

/-- A refused upload is answered with one of two errors. -/
theorem status_of_uploadForm {io : RequestIO B} {req : Request B} {refusal : Refusal}
    (h : uploadForm io req = .error refusal) : refusal.status = 400 ∨ refusal.status = 415 := by
  obtain h | ⟨boundary, -, h⟩ := refused_bind h
  · unfold uploadBoundary at h
    split_ifs at h
    · exact Or.inl (Except.error.inj h ▸ rfl)
    · exact Or.inr (Except.error.inj h ▸ rfl)
    · split at h
      · exact Or.inl (Except.error.inj h ▸ rfl)
      · cases h
  · exact Or.inl (status_of_parseForm h)

/-- An upload gets past the checks: its form is read, its image has an extension, and there are
directories for the file. -/
structure Uploads (io : RequestIO B) (outside : Outside) (h : MemeHandler) (req : Request B)
    (form : Form) (extension : Text) : Prop where
  parsed : uploadForm io req = .ok form
  typed : imageExtension form.image.header = some extension
  writable : outside.createsDirectories (h.uploadPath outside extension) = true

/-- An upload gets past the checks in one way. -/
theorem Uploads.unique {io : RequestIO B} {outside : Outside} {h : MemeHandler} {req : Request B}
    {form other : Form} {extension another : Text} (hleft : Uploads io outside h req form extension)
    (hright : Uploads io outside h req other another) : form = other ∧ extension = another := by
  obtain rfl : form = other := Except.ok.inj (hleft.parsed.symm.trans hright.parsed)
  exact ⟨rfl, Option.some.inj (hleft.typed.symm.trans hright.typed)⟩

/-- The address of the image. -/
def MemeHandler.imgUrl (outside : Outside) (h : MemeHandler) (extension : Text) : Text :=
  text "." ++ h.uploadPath outside extension

/-- The style that was chosen, without its spaces. -/
def Form.chosenStyle (form : Form) : Text := form.style.body.filter fun c => !isSpace c

/-- The page of a new meme, if its style exists. -/
def Form.answer (B : Beast) (form : Form) (imgUrl : Text) : Run (Response B) := do
  let chosenStyle ← stoiRun form.chosenStyle
  match memeRules chosenStyle with
  | none => .ok (showErrorPage B 400 (text "Invalid meme request"))
  | some rules =>
    .ok (htmlPage B (memePage form.top.body form.bottom.body imgUrl ++ rules ++
      text "</style></body></html>"))

/-- What an upload past the checks does. -/
theorem Uploads.generateMeme {io : RequestIO B} {outside : Outside} {h : MemeHandler}
    {req : Request B} {form : Form} {extension : Text}
    (hupload : Uploads io outside h req form extension) (memes : Memes) :
    h.generateMeme io outside memes req =
      { memes := logMeme (h.imgUrl outside extension)
          [form.top.body, form.bottom.body, form.chosenStyle] memes
        opened := some (h.uploadPath outside extension)
        file := if outside.opens (h.uploadPath outside extension) then
          some (h.uploadPath outside extension, form.image.body) else none
        response := form.answer B (h.imgUrl outside extension) } := by
  simp only [MemeHandler.generateMeme, hupload.parsed, hupload.typed, hupload.writable,
    if_true]
  rfl

/-- Any other upload is answered with an error page and does nothing. -/
theorem generateMeme_cases (io : RequestIO B) (outside : Outside) (h : MemeHandler) (memes : Memes)
    (req : Request B) :
    (∃ form extension, Uploads io outside h req form extension) ∨
      ∃ status message, status ≠ 200 ∧ h.generateMeme io outside memes req =
        { memes, response := .ok (showErrorPage B status message) } := by
  unfold MemeHandler.generateMeme
  cases hform : uploadForm io req with
  | error refusal =>
    have hstatus : refusal.status ≠ 200 := by
      have := status_of_uploadForm hform
      omega
    exact Or.inr ⟨_, _, hstatus, rfl⟩
  | ok form =>
    cases hextension : imageExtension form.image.header with
    | none =>
      simp only [hextension]
      exact Or.inr ⟨_, _, by decide, rfl⟩
    | some extension =>
      by_cases hdirectories : outside.createsDirectories (h.uploadPath outside extension) = true
      · exact Or.inl ⟨form, extension, hform, hextension, hdirectories⟩
      · simp only [hextension, if_neg hdirectories]
        exact Or.inr ⟨_, _, by decide, rfl⟩

end Aite.Handlers
