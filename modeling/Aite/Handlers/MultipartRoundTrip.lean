import Aite.Handlers.MemeUpload
import Aite.Handlers.MultipartForm
import Mathlib.Data.List.TakeWhile

/-!
# What is read of an encoded form

The line break before a delimiter belongs to the delimiter. The reader keeps it: what it reads
of a part is the content that was sent and a line break. So an upload is never written as it
was sent, whatever it is.
-/

namespace Aite.Handlers

open Http (Beast Request)
open MemeHandler Sections

/-! ## Lines -/

/-- The lines of a text go on behind a newline with the lines of the rest. -/
theorem linesOf_append_newline (front rest : Text) :
    linesOf (front ++ text "\n" ++ rest) = front.splitOn '\n'.toUInt8 ++ linesOf rest := by
  have hsplit : (front ++ text "\n" ++ rest).splitOn '\n'.toUInt8 =
      front.splitOn '\n'.toUInt8 ++ rest.splitOn '\n'.toUInt8 := by
    rw [List.append_assoc]
    exact List.splitOn_append_cons_self front rest
  have hrest := List.splitOn_ne_nil '\n'.toUInt8 rest
  unfold linesOf
  rw [hsplit]
  simp only [List.getLast?_append_of_ne_nil _ hrest, List.dropLast_append_of_ne_nil hrest]
  split_ifs <;> rfl

/-- A line without a newline is the first line. -/
theorem linesOf_cons {line : Text} (h : '\n'.toUInt8 ∉ line) (rest : Text) :
    linesOf (line ++ text "\n" ++ rest) = line :: linesOf rest := by
  rw [linesOf_append_newline, List.splitOn_eq_singleton h]
  rfl

/-- Lines without newlines are the first lines. -/
theorem linesOf_unlines_append {lines : List Text} (h : ∀ line ∈ lines, '\n'.toUInt8 ∉ line)
    (rest : Text) : linesOf (unlines lines ++ rest) = lines ++ linesOf rest := by
  induction lines with
  | nil => rfl
  | cons line lines ih =>
    obtain ⟨hline, hlines⟩ := List.forall_mem_cons.mp h
    change linesOf ((line ++ text "\n" ++ unlines lines) ++ rest) = _
    rw [List.append_assoc, linesOf_cons hline, ih hlines]
    rfl

/-- The lines of a text, each with a newline, are the text with a newline. -/
theorem unlines_splitOn (s : Text) : unlines (s.splitOn '\n'.toUInt8) = s ++ text "\n" := by
  induction s with
  | nil => rfl
  | cons c rest ih =>
    rw [List.splitOn_cons_eq_if_modifyHead]
    by_cases hc : c = '\n'.toUInt8
    · rw [if_pos (by simpa using hc), hc]
      change text "\n" ++ unlines _ = _
      rw [ih]
      rfl
    · rw [if_neg (by simpa using hc)]
      cases hsplit : rest.splitOn '\n'.toUInt8 with
      | nil => exact absurd hsplit (List.splitOn_ne_nil _ _)
      | cons line lines =>
        rw [hsplit] at ih
        change (c :: line) ++ text "\n" ++ unlines lines = c :: (rest ++ text "\n")
        rw [← ih]
        rfl

/-! ## Forms that are posted -/

/-- A part that is posted: its header lines and its content. -/
structure PostedPart where
  headers : List Text
  content : Text

/-- There are header lines, none of which is empty. -/
structure PostedPart.HasHeaders (part : PostedPart) : Prop where
  some : part.headers ≠ []
  nonempty : ∀ header ∈ part.headers, header ≠ []
  oneLine : ∀ header ∈ part.headers, '\n'.toUInt8 ∉ header

/-- A part behind its delimiter line. -/
def encodePart (boundary : Text) (part : PostedPart) : Text :=
  opening boundary ++ text "\n" ++ unlines (part.headers.map (· ++ text "\r")) ++ text "\r\n" ++
    part.content ++ text "\r\n"

/-- Multipart encoding. -/
def encodeForm (boundary : Text) (parts : List PostedPart) : Text :=
  parts.flatMap (encodePart boundary) ++ closing boundary ++ text "\n"

/-- The lines of a part between two delimiters. -/
def PostedPart.lines (part : PostedPart) : List Text :=
  part.headers.map (· ++ text "\r") ++ text "\r" ::
    (part.content ++ text "\r").splitOn '\n'.toUInt8

/-- What is read of a part: its header, and its content with the line break behind it. -/
def PostedPart.read (part : PostedPart) : Part where
  header := unlines (part.headers.map (· ++ text "\r"))
  body := part.content ++ text "\r\n"

/-- Lines of a body are taken as they are. -/
theorem readLines_body (crlf : Bool) (part : Part) (lines : List Text) :
    readLines .readingBody crlf part lines = { part with body := part.body ++ unlines lines } := by
  induction lines generalizing crlf part with
  | nil => simp [readLines, unlines]
  | cons line lines ih =>
    rw [readLines, ih]
    simp only [unlines, List.flatMap_cons, List.append_assoc]

/-- Header lines are taken up to the blank line behind them. -/
private theorem readLines_header (crlf : Bool) (part : Part) {headers : List Text}
    (hnone : headers ≠ [] ∨ crlf = true) (hempty : ∀ header ∈ headers, header ≠ [])
    (lines : List Text) :
    readLines .readingHeader crlf part (headers.map (· ++ text "\r") ++ text "\r" :: lines) =
      { header := part.header ++ unlines (headers.map (· ++ text "\r"))
        body := part.body ++ unlines lines } := by
  induction headers generalizing crlf part with
  | nil =>
    have hcrlf : crlf = true := by simpa using hnone
    change readLines .readingHeader crlf part (text "\r" :: lines) = _
    rw [readLines, if_pos ⟨rfl, hcrlf⟩, readLines_body]
    simp [unlines]
  | cons header headers ih =>
    obtain ⟨hheader, hheaders⟩ := List.forall_mem_cons.mp hempty
    have hline : ¬ (header ++ text "\r" = text "\r" ∧ crlf = true) := by
      rintro ⟨heq, -⟩
      exact hheader (List.append_left_eq_self.mp heq)
    have hend : crlfEnd (header ++ text "\r") = true := by
      simp [crlfEnd, text]
    change readLines .readingHeader crlf part ((header ++ text "\r") ::
      (headers.map (· ++ text "\r") ++ text "\r" :: lines)) = _
    rw [readLines, if_neg hline, ih _ _ (Or.inr hend) hheaders]
    simp only [unlines, List.map_cons, List.flatMap_cons, List.append_assoc]

/-- Every part is read with the line break that belongs to the next delimiter. -/
theorem partOf_lines {part : PostedPart} (h : part.HasHeaders) : partOf part.lines = part.read := by
  rw [partOf, PostedPart.lines, readLines_header false {} (Or.inl h.some) h.nonempty,
    unlines_splitOn, List.append_assoc]
  rfl

/-- The lines of an encoded part. -/
private theorem linesOf_encodePart_append {boundary : Text} (hboundary : '\n'.toUInt8 ∉ boundary)
    {part : PostedPart} (h : part.HasHeaders) (rest : Text) :
    linesOf (encodePart boundary part ++ rest) =
      opening boundary :: (part.lines ++ linesOf rest) := by
  have hopening : '\n'.toUInt8 ∉ opening boundary :=
    List.not_mem_append (List.not_mem_append (by decide) hboundary) (by decide)
  have hheaders : ∀ line ∈ part.headers.map (· ++ text "\r"), '\n'.toUInt8 ∉ line := by
    intro line hline
    obtain ⟨header, hheader, rfl⟩ := List.mem_map.mp hline
    exact List.not_mem_append (h.oneLine header hheader) (by decide)
  have heq : encodePart boundary part ++ rest =
      opening boundary ++ text "\n" ++ (unlines (part.headers.map (· ++ text "\r")) ++
        (text "\r" ++ text "\n" ++ (part.content ++ text "\r" ++ text "\n" ++ rest))) := by
    simp only [encodePart, List.append_assoc]
    rfl
  rw [heq, linesOf_cons hopening, linesOf_unlines_append hheaders, linesOf_cons (by decide),
    linesOf_append_newline, PostedPart.lines, List.append_assoc]
  rfl

/-- The lines of an encoded form of four parts. -/
theorem linesOf_encodeForm {boundary : Text} (hboundary : '\n'.toUInt8 ∉ boundary)
    {style image top bottom : PostedPart}
    (h : ∀ part ∈ [style, image, top, bottom], part.HasHeaders) :
    linesOf (encodeForm boundary [style, image, top, bottom]) =
      opening boundary :: join [(style.lines, opening boundary), (image.lines, opening boundary),
        (top.lines, opening boundary), (bottom.lines, closing boundary)] := by
  simp only [List.forall_mem_cons] at h
  obtain ⟨hstyle, himage, htop, hbottom, -⟩ := h
  have hclosing : '\n'.toUInt8 ∉ closing boundary :=
    List.not_mem_append (List.not_mem_append (by decide) hboundary) (by decide)
  have hend : linesOf (closing boundary ++ text "\n") = [closing boundary] := by
    have := linesOf_cons hclosing []
    rwa [List.append_nil] at this
  have heq : encodeForm boundary [style, image, top, bottom] = encodePart boundary style ++
      (encodePart boundary image ++ (encodePart boundary top ++ (encodePart boundary bottom ++
        (closing boundary ++ text "\n")))) := by
    simp only [encodeForm, List.flatMap_cons, List.flatMap_nil, List.append_assoc, List.nil_append]
  rw [heq, linesOf_encodePart_append hboundary hstyle, linesOf_encodePart_append hboundary himage,
    linesOf_encodePart_append hboundary htop, linesOf_encodePart_append hboundary hbottom, hend]
  simp only [join, List.flatMap_cons, List.flatMap_nil, List.append_assoc, List.cons_append,
    List.nil_append]

/-! ## What is read of an upload -/

/-- No delimiter line in a part, not even one that the line break behind its content makes. -/
def PostedPart.HasNoDelimiter (boundary : Text) (part : PostedPart) : Prop :=
  ∀ line ∈ part.lines, isBoundary boundary line = false

/-- Both kinds of delimiter lines are. -/
private theorem isBoundary_opening (boundary : Text) :
    isBoundary boundary (opening boundary) = true := by
  simp [isBoundary, opening]

/-- Both kinds of delimiter lines are. -/
private theorem isBoundary_closing (boundary : Text) :
    isBoundary boundary (closing boundary) = true := by
  simp [isBoundary, closing]

/-- An encoded form is parsed exactly when its parts have no delimiter lines, and then every
content is read with a line break behind it. -/
theorem parseForm_encodeForm_iff {boundary : Text} (hboundary : '\n'.toUInt8 ∉ boundary)
    {style image top bottom : PostedPart}
    (h : ∀ part ∈ [style, image, top, bottom], part.HasHeaders) (form : Form) :
    parseForm boundary (encodeForm boundary [style, image, top, bottom]) = .ok form ↔
      (∀ part ∈ [style, image, top, bottom], part.HasNoDelimiter boundary) ∧
        form = ⟨style.read, image.read, top.read, bottom.read⟩ := by
  have hlines := linesOf_encodeForm hboundary h
  have hends : ∀ s ∈ [(style.lines, opening boundary), (image.lines, opening boundary),
      (top.lines, opening boundary), (bottom.lines, closing boundary)],
      isBoundary boundary s.2 = true := by
    simp [isBoundary_opening, isBoundary_closing]
  have hread : (∀ part ∈ [style, image, top, bottom], part.HasNoDelimiter boundary) →
      parseForm boundary (encodeForm boundary [style, image, top, bottom]) =
        .ok ⟨style.read, image.read, top.read, bottom.read⟩ := by
    intro hnone
    simp only [List.forall_mem_cons] at h hnone hends
    obtain ⟨hstyle, himage, htop, hbottom, -⟩ := h
    obtain ⟨hnostyle, hnoimage, hnotop, hnobottom, -⟩ := hnone
    rw [parseForm_of_sections hlines ⟨hnostyle, hends.1⟩ ⟨hnoimage, hends.2.1⟩
      ⟨hnotop, hends.2.2.1⟩ ⟨hnobottom, hends.2.2.2.1⟩, partOf_lines hstyle, partOf_lines himage,
      partOf_lines htop, partOf_lines hbottom]
  constructor
  · intro hform
    obtain ⟨parts, hparts⟩ := (parseForm_isOk_iff boundary _).mp ⟨form, hform⟩
    have hjoin := (List.cons.inj (hlines.symm.trans hparts.lines)).2
    have hcount := countP_join hparts.sections
    rw [← hjoin, hparts.four] at hcount
    have hsections := isSection_of_countP_join_le hends hcount.le
    simp only [List.forall_mem_cons] at hsections
    obtain ⟨⟨hstyle, -⟩, ⟨himage, -⟩, ⟨htop, -⟩, ⟨hbottom, -⟩, -⟩ := hsections
    have hnone : ∀ part ∈ [style, image, top, bottom], part.HasNoDelimiter boundary := by
      simp only [List.forall_mem_cons]
      exact ⟨hstyle, himage, htop, hbottom, fun _ h => absurd h List.not_mem_nil⟩
    exact ⟨hnone, Except.ok.inj (hform.symm.trans (hread hnone))⟩
  · rintro ⟨hnone, rfl⟩
    exact hread hnone

/-- A boundary that was found in a text has no newline. -/
theorem newline_notMem_of_findBoundary {s boundary : Text} (h : findBoundary s = some boundary) :
    '\n'.toUInt8 ∉ boundary := by
  induction s with
  | nil => cases h
  | cons c rest ih =>
    rw [findBoundary, Option.or_eq_some_iff] at h
    cases h with
    | inr h => exact ih h.2
    | inl h =>
      simp only [matchBoundary] at h
      split_ifs at h
      rw [← Option.some.inj h]
      apply List.not_mem_append
      · intro hmem
        exact absurd (List.mem_takeWhile_imp hmem) (by decide)
      · intro hmem
        exact absurd (List.mem_takeWhile_imp hmem) (by decide)

variable {B : Beast}

/-- The boundary of an upload has no newline. -/
theorem newline_notMem_of_uploadBoundary {io : RequestIO B} {req : Request B} {boundary : Text}
    (h : uploadBoundary io req = .ok boundary) : '\n'.toUInt8 ∉ boundary := by
  unfold uploadBoundary at h
  split_ifs at h
  cases hfound : findBoundary (io.write req) with
  | none =>
    rw [hfound] at h
    cases h
  | some found =>
    rw [hfound] at h
    obtain rfl := Except.ok.inj h
    exact newline_notMem_of_findBoundary hfound

/-- A form of four parts is posted. -/
structure Posts (io : RequestIO B) (req : Request B) (style image top bottom : PostedPart) :
    Prop where
  encoded : ∃ boundary, uploadBoundary io req = .ok boundary ∧
    req.body = encodeForm boundary [style, image, top, bottom]
  headers : ∀ part ∈ [style, image, top, bottom], part.HasHeaders

/-- What an upload reads of a posted form, if it gets so far. -/
theorem Posts.uploadForm {io : RequestIO B} {req : Request B} {style image top bottom : PostedPart}
    (h : Posts io req style image top bottom) {form : Form}
    (hform : Handlers.uploadForm io req = .ok form) :
    form = ⟨style.read, image.read, top.read, bottom.read⟩ := by
  obtain ⟨boundary, hboundary, hbody⟩ := h.encoded
  rw [Handlers.uploadForm, hboundary, hbody] at hform
  exact ((parseForm_encodeForm_iff (newline_notMem_of_uploadBoundary hboundary) h.headers form).mp
    hform).2

/-- The image is written as it was sent, and the captions are entered in the gallery as they
were. -/
def Recovers (io : RequestIO B) (outside : Outside) (h : MemeHandler) (memes : Memes)
    (req : Request B) (image top bottom : Text) : Prop :=
  (∃ path, (h.generateMeme io outside memes req).file = some (path, image)) ∧
    ∃ imgUrl style, memes.lookup imgUrl = none ∧
      (h.generateMeme io outside memes req).memes.lookup imgUrl = some [top, bottom, style]

/-- What an upload of a posted form does, if it gets past the checks: every content is kept with
a line break. -/
theorem Posts.generateMeme {io : RequestIO B} {outside : Outside} {h : MemeHandler}
    {req : Request B} {style image top bottom : PostedPart}
    (hposts : Posts io req style image top bottom) {form : Form} {extension : Text}
    (hupload : Uploads io outside h req form extension) (memes : Memes) :
    (h.generateMeme io outside memes req).file =
        (if outside.opens (h.uploadPath outside extension) then
          some (h.uploadPath outside extension, image.content ++ text "\r\n") else none) ∧
      (h.generateMeme io outside memes req).memes = logMeme (h.imgUrl outside extension)
        [top.content ++ text "\r\n", bottom.content ++ text "\r\n",
          style.content.filter fun c => !isSpace c] memes := by
  obtain rfl := hposts.uploadForm hupload.parsed
  have hstyle : Form.chosenStyle ⟨style.read, image.read, top.read, bottom.read⟩ =
      style.content.filter fun c => !isSpace c := by
    rw [Form.chosenStyle, PostedPart.read, List.filter_append]
    exact List.append_nil _
  rw [hupload.generateMeme, hstyle]
  exact ⟨rfl, rfl⟩

/-- No upload of a posted form is recovered. -/
theorem not_recovers {io : RequestIO B} {req : Request B} {style image top bottom : PostedPart}
    (hposts : Posts io req style image top bottom) (outside : Outside) (h : MemeHandler)
    (memes : Memes) :
    ¬ Recovers io outside h memes req image.content top.content bottom.content := by
  rintro ⟨⟨path, hfile⟩, -⟩
  cases generateMeme_cases io outside h memes req with
  | inl hupload =>
    obtain ⟨form, extension, hupload⟩ := hupload
    rw [(hposts.generateMeme hupload memes).1] at hfile
    split_ifs at hfile
    have hlength := congrArg (fun file => file.2.length) (Option.some.inj hfile)
    simp [text] at hlength
  | inr hrefused =>
    obtain ⟨status, message, -, heq⟩ := hrefused
    rw [heq] at hfile
    cases hfile

/-- A part for the form of an upload. -/
def postedPart (content : Text) : PostedPart where
  headers := [text "Content-Disposition: form-data", text "Content-Type: image/png"]
  content := content

/-- An upload with short captions. -/
def postedForm : Text :=
  encodeForm (text "----0123456789") [postedPart (text "1"), postedPart (text "PNG"),
    postedPart (text "top"), postedPart (text "bottom")]

/-- The upload with short captions is posted. -/
theorem posts_postedForm : Posts listsIO (postForm postedForm) (postedPart (text "1"))
    (postedPart (text "PNG")) (postedPart (text "top")) (postedPart (text "bottom")) where
  encoded := ⟨text "----0123456789", rfl, rfl⟩
  headers := by
    have hpart (content : Text) : (postedPart content).HasHeaders :=
      ⟨by simp [postedPart], by simp [postedPart, text], by simp only [postedPart]; decide⟩
    simp only [List.forall_mem_cons]
    exact ⟨hpart _, hpart _, hpart _, hpart _, fun _ h => absurd h List.not_mem_nil⟩

/-- The upload with short captions is not recovered. -/
theorem not_recovers_postedForm :
    Posts listsIO (postForm postedForm) (postedPart (text "1")) (postedPart (text "PNG"))
        (postedPart (text "top")) (postedPart (text "bottom")) ∧
      ¬ Recovers listsIO somewhere memesHandler [] (postForm postedForm) (text "PNG") (text "top")
        (text "bottom") :=
  ⟨posts_postedForm, not_recovers posts_postedForm somewhere memesHandler []⟩

/-- The image of the upload with short captions is written with a line break behind it. -/
theorem not_recovers_lineBreak :
    ¬ ∀ style image top bottom : PostedPart,
      (∀ part ∈ [style, image, top, bottom], part.HasHeaders) →
        (∀ part ∈ [style, image, top, bottom], part.HasNoDelimiter (text "----0123456789")) →
          Recovers listsIO somewhere memesHandler []
            (postForm (encodeForm (text "----0123456789") [style, image, top, bottom]))
            image.content top.content bottom.content := by
  intro hrecovers
  have hnone : ∀ content ∈ [text "1", text "PNG", text "top", text "bottom"],
      ∀ line ∈ (postedPart content).lines, isBoundary (text "----0123456789") line = false := by
    decide
  simp only [List.forall_mem_cons] at hnone
  obtain ⟨hstyle, himage, htop, hbottom, -⟩ := hnone
  obtain ⟨⟨path, hfile⟩, -⟩ := hrecovers (postedPart (text "1")) (postedPart (text "PNG"))
    (postedPart (text "top")) (postedPart (text "bottom")) posts_postedForm.headers (by
      simp only [List.forall_mem_cons]
      exact ⟨hstyle, himage, htop, hbottom, fun _ h => absurd h List.not_mem_nil⟩)
  have hwritten : ((memesHandler.generateMeme listsIO somewhere [] (postForm postedForm)).file.map
      Prod.snd) = some (text "PNG\r\n") := by decide
  change (memesHandler.generateMeme listsIO somewhere [] (postForm postedForm)).file = _ at hfile
  rw [hfile] at hwritten
  change some (text "PNG") = some (text "PNG\r\n") at hwritten
  exact absurd hwritten (by decide)

end Aite.Handlers
