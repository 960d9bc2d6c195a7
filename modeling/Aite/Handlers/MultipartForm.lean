import Aite.Handlers.Multipart

/-!
# Which forms are accepted

Reading a part takes the lines up to the first delimiter line of either kind. So the forms that
are accepted are those whose lines are an opening delimiter and four sections, each ended by
some delimiter line, with the last one at the end. Nothing else is looked at: not which kind of
delimiter ends a part, not whether a part has a header and a blank line.
-/

namespace Aite.Handlers

open Http (Beast Request)
open MemeHandler Sections

/-- What a part holds after these lines, none of which is a delimiter. -/
def readLines : PartState → Bool → Part → List Text → Part
  | _, _, part, [] => part
  | .readingHeader, crlf, part, line :: rest =>
    if line = text "\r" ∧ crlf = true then readLines .readingBody (crlfEnd line) part rest
    else
      readLines .readingHeader (crlfEnd line)
        { part with header := part.header ++ line ++ text "\n" } rest
  | .readingBody, _, part, line :: rest =>
    readLines .readingBody (crlfEnd line) { part with body := part.body ++ line ++ text "\n" } rest

/-- The part that is read from these lines. -/
def partOf (lines : List Text) : Part := readLines .readingHeader false {} lines

/-- Reading a part is reading the next section. -/
private theorem parseLoop_eq (boundary : Text) (state : PartState) (crlf : Bool) (part : Part)
    (lines : List Text) :
    parseLoop boundary state crlf part lines =
      match next (isBoundary boundary) lines with
      | none => (false, readLines state crlf part lines, [])
      | some found => (true, readLines state crlf part found.1, found.2.2) := by
  induction lines generalizing state crlf part with
  | nil => cases state <;> rfl
  | cons line rest ih =>
    by_cases hline : isBoundary boundary line = true
    · cases state <;> simp [parseLoop, next, hline, readLines]
    · cases state with
      | readingHeader =>
        by_cases hblank : line = text "\r" ∧ crlf = true
        · rw [parseLoop, if_neg hline, if_pos hblank, ih, next, if_neg hline]
          cases next (isBoundary boundary) rest <;> simp [readLines, hblank]
        · rw [parseLoop, if_neg hline, if_neg hblank, ih, next, if_neg hline]
          cases next (isBoundary boundary) rest <;> simp only [Option.map, readLines, hblank, if_false]
      | readingBody =>
        rw [parseLoop, if_neg hline, ih, next, if_neg hline]
        cases next (isBoundary boundary) rest <;> rfl

/-- Reading a field takes the next section, and refuses the form when there is none. -/
theorem parseField_eq (boundary message : Text) (lines : List Text) :
    parseField boundary message lines =
      match next (isBoundary boundary) lines with
      | none => .error ⟨400, message⟩
      | some found => .ok (partOf found.1, found.2.2) := by
  rw [parseField, parse, parseLoop_eq]
  cases next (isBoundary boundary) lines <;> rfl

/-- The opening delimiter line. -/
def opening (boundary : Text) : Text := text "--" ++ boundary ++ text "\r"

/-- The closing delimiter line. -/
def closing (boundary : Text) : Text := text "--" ++ boundary ++ text "--\r"

/-- The lines are an opening delimiter and four sections, each with the delimiter that ends it. -/
structure DividesForm (boundary body : Text) (parts : List (List Text × Text)) : Prop where
  four : parts.length = 4
  lines : linesOf body = opening boundary :: join parts
  sections : ∀ p ∈ parts, IsSection (isBoundary boundary) p

/-- A form without a section where one is needed is refused, and so is one that goes on. -/
private theorem parseForm_eq_ok {boundary body : Text} {form : Form}
    (h : parseForm boundary body = .ok form) :
    ∃ rest parts, linesOf body = opening boundary :: rest ∧
      divide (isBoundary boundary) 4 rest = some (parts, []) := by
  unfold parseForm at h
  cases hlines : linesOf body with
  | nil =>
    rw [hlines] at h
    cases h
  | cons line rest =>
    rw [hlines] at h
    by_cases hline : line = opening boundary
    · refine ⟨rest, ?_⟩
      subst hline
      simp only [opening, ne_eq, not_true_eq_false, if_false, parseField_eq] at h
      cases hstyle : next (isBoundary boundary) rest with
      | none => simp [hstyle, bind, Except.bind] at h
      | some style =>
        cases himage : next (isBoundary boundary) style.2.2 with
        | none => simp [hstyle, himage, bind, Except.bind] at h
        | some image =>
          cases htop : next (isBoundary boundary) image.2.2 with
          | none => simp [hstyle, himage, htop, bind, Except.bind] at h
          | some top =>
            cases hbottom : next (isBoundary boundary) top.2.2 with
            | none => simp [hstyle, himage, htop, hbottom, bind, Except.bind] at h
            | some bottom =>
              cases hafter : bottom.2.2 with
              | cons line rest =>
                simp [hstyle, himage, htop, hbottom, hafter, bind, Except.bind] at h
              | nil =>
                refine ⟨[(style.1, style.2.1), (image.1, image.2.1), (top.1, top.2.1),
                  (bottom.1, bottom.2.1)], rfl, ?_⟩
                simp [divide, hstyle, himage, htop, hbottom, hafter]
    · change (if line ≠ opening boundary then _ else _) = _ at h
      rw [if_pos hline] at h
      cases h

/-- The form of four sections. -/
theorem parseForm_of_sections {boundary body : Text} {style image top bottom : List Text × Text}
    (h : linesOf body = opening boundary :: join [style, image, top, bottom])
    (hstyle : IsSection (isBoundary boundary) style) (himage : IsSection (isBoundary boundary) image)
    (htop : IsSection (isBoundary boundary) top)
    (hbottom : IsSection (isBoundary boundary) bottom) :
    parseForm boundary body =
      .ok ⟨partOf style.1, partOf image.1, partOf top.1, partOf bottom.1⟩ := by
  have hfield (message : Text) (s : List Text × Text) (hs : IsSection (isBoundary boundary) s)
      (rest : List (List Text × Text)) :
      parseField boundary message (join (s :: rest)) = .ok (partOf s.1, join rest) := by
    have hnext : next (isBoundary boundary) (join (s :: rest)) = some (s.1, s.2, join rest) := by
      rw [next_eq_some_iff]
      refine ⟨?_, hs⟩
      change (s.1 ++ [s.2]) ++ join rest = _
      rw [List.append_assoc, List.singleton_append]
    rw [parseField_eq, hnext]
  simp only [parseForm, h, opening, ne_eq, not_true_eq_false, if_false, hfield _ style hstyle,
    hfield _ image himage, hfield _ top htop, hfield _ bottom hbottom, bind, Except.bind]
  rfl

/-- A form is parsed exactly when its lines are divided into four sections. -/
theorem parseForm_isOk_iff (boundary body : Text) :
    (∃ form, parseForm boundary body = .ok form) ↔ ∃ parts, DividesForm boundary body parts := by
  constructor
  · rintro ⟨form, h⟩
    obtain ⟨rest, parts, hlines, hdivide⟩ := parseForm_eq_ok h
    obtain ⟨hlength, rfl, hsections⟩ := divide_eq_some_iff.mp hdivide
    rw [List.append_nil] at hlines
    exact ⟨parts, hlength, hlines, hsections⟩
  · rintro ⟨parts, hlength, hlines, hsections⟩
    obtain ⟨style, image, top, bottom, rfl⟩ := List.length_eq_four.mp hlength
    simp only [List.forall_mem_cons] at hsections
    obtain ⟨hstyle, himage, htop, hbottom, -⟩ := hsections
    exact ⟨_, parseForm_of_sections hlines hstyle himage htop hbottom⟩

/-! ## The forms that should be accepted -/

/-- One or more header lines, a blank line and content. -/
def IsPart (lines : List Text) : Prop :=
  ∃ headers content, lines = headers ++ text "\r" :: content ∧ headers ≠ [] ∧
    ∀ header ∈ headers, header.getLast? = some '\r'.toUInt8 ∧ header ≠ text "\r"

/-- The first three parts are ended by the opening delimiter and the fourth by the closing one,
whose line is complete, and all four are parts. -/
structure IsWellFormed (boundary body : Text) (parts : List (List Text × Text)) : Prop where
  ends : parts.map Prod.snd =
    [opening boundary, opening boundary, opening boundary, closing boundary]
  parts : ∀ p ∈ parts, IsPart p.1
  complete : body.getLast? = some '\n'.toUInt8

/-- The body is an opening delimiter line, then exactly four parts ended as they should be, with
nothing after them. -/
def IsFourPartForm (boundary body : Text) : Prop :=
  ∃ parts, DividesForm boundary body parts ∧ IsWellFormed boundary body parts

/-- The lines of a form are divided in one way. -/
theorem DividesForm.unique {boundary body : Text} {parts others : List (List Text × Text)}
    (h : DividesForm boundary body parts) (hothers : DividesForm boundary body others) :
    parts = others :=
  join_injective h.sections hothers.sections (h.four.trans hothers.four.symm)
    (List.cons.inj (h.lines.symm.trans hothers.lines)).2

variable {B : Beast}

/-- The form of a request with this boundary gets past parsing exactly when it should. -/
def AcceptsExactly (io : RequestIO B) (req : Request B) (boundary : Text) : Prop :=
  (∃ form, uploadForm io req = .ok form) ↔ IsFourPartForm boundary req.body

/-- A form that can be divided is a four-part form when the division is as it should be. -/
theorem DividesForm.isFourPartForm_iff {boundary body : Text} {parts : List (List Text × Text)}
    (h : DividesForm boundary body parts) :
    IsFourPartForm boundary body ↔ IsWellFormed boundary body parts := by
  constructor
  · rintro ⟨others, hothers, hwell⟩
    exact h.unique hothers ▸ hwell
  · exact fun hwell => ⟨parts, h, hwell⟩

/-- A form gets past parsing exactly when it should, if and only if it is well formed whenever
its lines can be divided into four sections at all. -/
theorem acceptsExactly_iff {io : RequestIO B} {req : Request B} {boundary : Text}
    (h : uploadBoundary io req = .ok boundary) :
    AcceptsExactly io req boundary ↔
      ∀ parts, DividesForm boundary req.body parts → IsWellFormed boundary req.body parts := by
  have hform : uploadForm io req = parseForm boundary req.body := by
    rw [uploadForm, h]
    rfl
  rw [AcceptsExactly, hform, parseForm_isOk_iff]
  constructor
  · intro hexact parts hparts
    exact hparts.isFourPartForm_iff.mp (hexact.mp ⟨parts, hparts⟩)
  · intro hwell
    constructor
    · rintro ⟨parts, hparts⟩
      exact ⟨parts, hparts, hwell parts hparts⟩
    · rintro ⟨parts, hparts, -⟩
      exact ⟨parts, hparts⟩

/-- The text of a request in a container of lists. -/
def writeLists (req : Request Beast.lists) : Text :=
  let version := req.version.toNat
  let digit (n : ℕ) : UInt8 := (48 + n).toUInt8
  let fields : List (Text × Text) := req.fields
  let method : Option Text := req.method
  method.getD [] ++ text " " ++ req.target ++ text " HTTP/" ++ [digit (version / 10)] ++
    text "." ++ [digit (version % 10)] ++ text "\r\n" ++
    fields.flatMap (fun field => field.1 ++ text ": " ++ field.2 ++ text "\r\n") ++
    text "\r\n" ++ req.body

/-- A container of lists answers what the upload asks. -/
def listsIO : RequestIO Beast.lists where
  write := writeLists
  contains fields name := (fields : List (Text × Text)).any fun field => Http.iequals field.1 name
  isPost := fun (method : Option Text) => method == some (text "POST")

/-- A request that posts this form with the boundary `----0123456789`. -/
def postForm (body : Text) : Request Beast.lists where
  method := some (text "POST")
  target := text "/meme/generate"
  fields := Beast.lists.set [] (text "Content-Type")
    (text "multipart/form-data; boundary=----0123456789")
  body := body

/-- The lines of a short part. -/
def shortPart : List Text := [text "Content-Type: image/png\r", text "\r", text "1\r"]

/-- The text of lines. -/
def unlines (lines : List Text) : Text := lines.flatMap (· ++ text "\n")

/-- A form with a closing delimiter after every part. -/
def closedForm : Text :=
  unlines (opening (text "----0123456789") ::
    join (List.replicate 4 (shortPart, closing (text "----0123456789"))))

/-- A form with the delimiters where they belong. -/
def openForm : Text :=
  unlines (opening (text "----0123456789") ::
    join (List.replicate 3 (shortPart, opening (text "----0123456789")) ++
      [(shortPart, closing (text "----0123456789"))]))

/-- A well-formed form is accepted. -/
theorem acceptsExactly_openForm :
    AcceptsExactly listsIO (postForm openForm) (text "----0123456789") := by
  have hsection (line : Text) (hline : isBoundary (text "----0123456789") line = true) :
      IsSection (isBoundary (text "----0123456789")) (shortPart, line) := by
    have hpart : ∀ a ∈ shortPart, isBoundary (text "----0123456789") a = false := by decide
    exact ⟨hpart, hline⟩
  have hdivides : DividesForm (text "----0123456789") openForm
      (List.replicate 3 (shortPart, opening (text "----0123456789")) ++
        [(shortPart, closing (text "----0123456789"))]) := by
    refine ⟨rfl, by decide, ?_⟩
    intro p hp
    rw [List.mem_append, List.mem_singleton] at hp
    cases hp with
    | inl hp => exact List.eq_of_mem_replicate hp ▸ hsection _ (by decide)
    | inr hp => exact hp ▸ hsection _ (by decide)
  apply (acceptsExactly_iff (by decide)).mpr
  intro parts hparts
  obtain rfl := hparts.unique hdivides
  refine ⟨rfl, ?_, by decide⟩
  have hpart : IsPart shortPart :=
    ⟨[text "Content-Type: image/png\r"], [text "1\r"], rfl, by decide, by decide⟩
  intro p hp
  rw [List.mem_append, List.mem_singleton] at hp
  cases hp with
  | inl hp => exact List.eq_of_mem_replicate hp ▸ hpart
  | inr hp => exact hp ▸ hpart

/-- A form is accepted although its first three parts are ended by the closing delimiter. -/
theorem not_acceptsExactly_closedForm :
    ¬ ∀ (req : Request Beast.lists) (boundary : Text), uploadBoundary listsIO req = .ok boundary →
      AcceptsExactly listsIO req boundary := by
  intro h
  have hexact := h (postForm closedForm) (text "----0123456789") (by decide)
  have hdivides : DividesForm (text "----0123456789") closedForm
      (List.replicate 4 (shortPart, closing (text "----0123456789"))) := by
    refine ⟨rfl, by decide, ?_⟩
    intro p hp
    rw [List.eq_of_mem_replicate hp]
    simp only [IsSection]
    decide
  have hwell := hdivides.isFourPartForm_iff.mp (hexact.mp ⟨_, rfl⟩)
  exact absurd hwell.ends (by decide)

end Aite.Handlers
