import Aite.Handlers.Echo
import Aite.Handlers.MultipartForm

/-!
# Where the boundary of a form comes from

The boundary is searched for in the text of the whole request, and the first match is taken. The
request line has no match. So the fields in front of the content type come first, then its value,
and then the other fields and the body. The boundary is the one of the content type only when
nothing in front of it matches otherwise, and nothing behind it matches in its place.
-/

namespace Aite.Handlers

open Http (Beast FieldList Request iequals listFieldsGet)

/-! ## The first match in a text -/

/-- A byte that no match contains. -/
def IsSeparator (c : UInt8) : Prop :=
  isAlnum c = false ∧ c ≠ '-'.toUInt8 ∧ c ≠ '='.toUInt8

/-- The end of a line is two of these. -/
private theorem isSeparator_crlf :
    IsSeparator '\r'.toUInt8 ∧ IsSeparator '\n'.toUInt8 := by
  simp only [IsSeparator]
  decide

/-- So are a colon and a blank. -/
private theorem isSeparator_colon : IsSeparator ':'.toUInt8 ∧ IsSeparator ' '.toUInt8 := by
  simp only [IsSeparator]
  decide

/-- So are what is in front of the parts of the version. -/
private theorem isSeparator_version : IsSeparator '/'.toUInt8 ∧ IsSeparator '.'.toUInt8 := by
  simp only [IsSeparator]
  decide

/-- Letters and an equals sign are none. -/
private theorem IsSeparator.notMem {d : UInt8} (hd : IsSeparator d) : d ∉ text "boundary=" := by
  have hall : ∀ c ∈ text "boundary=", isAlnum c = true ∨ c = '='.toUInt8 := by decide
  intro hmem
  cases hall d hmem with
  | inl halnum => exact Bool.false_ne_true (hd.1.symm.trans halnum)
  | inr hequals => exact hd.2.2 hequals

/-- Taking elements stops in front of one that fails. -/
private theorem takeWhile_append_stop {p : UInt8 → Bool} {d : UInt8} (hd : p d = false)
    (u v : Text) : (u ++ d :: v).takeWhile p = u.takeWhile p := by
  induction u with
  | nil =>
    rw [List.nil_append, List.takeWhile_cons, hd, if_neg Bool.false_ne_true, List.takeWhile_nil]
  | cons c u ih => rw [List.cons_append, List.takeWhile_cons, List.takeWhile_cons, ih]

/-- Dropping elements stops in front of one that fails. -/
private theorem dropWhile_append_stop {p : UInt8 → Bool} {d : UInt8} (hd : p d = false)
    (u v : Text) : (u ++ d :: v).dropWhile p = u.dropWhile p ++ d :: v := by
  induction u with
  | nil =>
    rw [List.nil_append, List.dropWhile_cons, hd, if_neg Bool.false_ne_true, List.dropWhile_nil,
      List.nil_append]
  | cons c u ih =>
    rw [List.cons_append, List.dropWhile_cons, List.dropWhile_cons, ih]
    split_ifs
    · rfl
    · rfl

/-- A word without the separator is a prefix of what is in front of it, or not at all. -/
private theorem isPrefixOf_append_stop {word : Text} {d : UInt8} (hd : d ∉ word) (u v : Text) :
    word.isPrefixOf (u ++ d :: v) = word.isPrefixOf u := by
  induction word generalizing u with
  | nil => rw [List.isPrefixOf_nil_left, List.isPrefixOf_nil_left]
  | cons c word ih =>
    obtain ⟨hc, hword⟩ := List.ne_and_not_mem_of_not_mem_cons hd
    cases u with
    | nil =>
      rw [List.nil_append, List.isPrefixOf_cons_cons, beq_false_of_ne (Ne.symm hc), Bool.false_and]
      rfl
    | cons b u =>
      rw [List.cons_append, List.isPrefixOf_cons_cons, List.isPrefixOf_cons_cons, ih hword]

/-- What is behind a separator does not matter for a match in front of it. -/
private theorem matchBoundary_append {d : UInt8} (hd : IsSeparator d) (u v : Text) :
    matchBoundary (u ++ d :: v) = matchBoundary u := by
  have htake (w : Text) : (w ++ d :: v).takeWhile (· = '-'.toUInt8) =
      w.takeWhile (· = '-'.toUInt8) :=
    takeWhile_append_stop (decide_eq_false hd.2.1) w v
  have hdrop (w : Text) : (w ++ d :: v).dropWhile (· = '-'.toUInt8) =
      w.dropWhile (· = '-'.toUInt8) ++ d :: v :=
    dropWhile_append_stop (decide_eq_false hd.2.1) w v
  unfold matchBoundary
  rw [isPrefixOf_append_stop hd.notMem]
  by_cases hstarts : (text "boundary=").isPrefixOf u = true
  · obtain ⟨w, rfl⟩ := List.isPrefixOf_iff_prefix.mp hstarts
    simp only [List.append_assoc, List.drop_left, htake, hdrop, takeWhile_append_stop hd.1]
  · rw [if_neg hstarts, if_neg hstarts]

/-- The first match is in front of a separator, or else behind it. -/
theorem findBoundary_append {d : UInt8} (hd : IsSeparator d) (u v : Text) :
    findBoundary (u ++ d :: v) = (findBoundary u).or (findBoundary v) := by
  induction u with
  | nil =>
    have hnone : matchBoundary (d :: v) = none := matchBoundary_append hd [] v
    rw [List.nil_append, findBoundary, findBoundary, hnone]
  | cons c u ih =>
    have hmatch := matchBoundary_append hd (c :: u) v
    rw [List.cons_append] at hmatch
    rw [List.cons_append, findBoundary, findBoundary, hmatch, ih, Option.or_assoc]

/-- The first match is in front of the end of a line, or else behind it. -/
theorem findBoundary_append_crlf (u v : Text) :
    findBoundary (u ++ (text "\r\n" ++ v)) = (findBoundary u).or (findBoundary v) := by
  change findBoundary (u ++ '\r'.toUInt8 :: ([] ++ '\n'.toUInt8 :: v)) = _
  rw [findBoundary_append isSeparator_crlf.1, findBoundary_append isSeparator_crlf.2]
  rfl

/-- A text without an equals sign has no match. -/
theorem findBoundary_of_notMem {s : Text} (hs : '='.toUInt8 ∉ s) : findBoundary s = none := by
  induction s with
  | nil => rfl
  | cons c s ih =>
    have hstarts : ¬ (text "boundary=").isPrefixOf (c :: s) = true := by
      intro hstarts
      have hequals : '='.toUInt8 ∈ text "boundary=" := by decide
      exact hs ((List.isPrefixOf_iff_prefix.mp hstarts).mem hequals)
    rw [findBoundary, ih (List.not_mem_of_not_mem_cons hs), matchBoundary, if_neg hstarts]
    rfl

/-- One byte has no match. -/
private theorem findBoundary_singleton (c : UInt8) : findBoundary [c] = none := by
  have hstarts : ¬ (text "boundary=").isPrefixOf [c] = true := by
    intro hstarts
    have hlength : 9 ≤ 1 := (List.isPrefixOf_iff_prefix.mp hstarts).length_le
    omega
  rw [findBoundary, matchBoundary, if_neg hstarts]
  rfl

/-! ## The first match in a request -/

/-- The boundary of the first match in a field. -/
def fieldBoundary (field : Text × Text) : Option Text :=
  (findBoundary field.1).or (findBoundary field.2)

/-- The first match in fields and what is written behind them. -/
private theorem findBoundary_fields (fields : List (Text × Text)) (rest : Text) :
    findBoundary (fields.flatMap writeField ++ rest) =
      (fields.findSome? fieldBoundary).or (findBoundary rest) := by
  induction fields with
  | nil => rfl
  | cons field fields ih =>
    have hfield : findBoundary (writeField field ++ (fields.flatMap writeField ++ rest)) =
        (fieldBoundary field).or (findBoundary (fields.flatMap writeField ++ rest)) := by
      rw [writeField, List.append_assoc, List.append_assoc, List.append_assoc]
      change findBoundary (field.1 ++ ':'.toUInt8 :: ([] ++ ' '.toUInt8 ::
        (field.2 ++ (text "\r\n" ++ (fields.flatMap writeField ++ rest))))) = _
      rw [findBoundary_append isSeparator_colon.1, findBoundary_append isSeparator_colon.2,
        findBoundary_append_crlf, fieldBoundary, Option.or_assoc]
      rfl
    rw [List.flatMap_cons, List.append_assoc, hfield, ih, List.findSome?_cons]
    cases fieldBoundary field with
    | none => rfl
    | some boundary => rfl

/-- The name of the content type has no equals sign. -/
private theorem equals_notMem_of_contentType {name : Text}
    (h : iequals name (text "Content-Type") = true) : '='.toUInt8 ∉ name := by
  intro hmem
  have hlower : Http.toLower '='.toUInt8 ∈ name.map Http.toLower := List.mem_map_of_mem hmem
  rw [of_decide_eq_true h] at hlower
  exact absurd hlower (by decide)

/-- A body as one chunk, behind its size. -/
def chunk (size body : Text) : Text :=
  size ++ (text "\r\n" ++ (body ++ (text "\r\n" ++ text "0\r\n\r\n")))

/-- The first match in a chunk is the one in its body. -/
private theorem findBoundary_chunk {size : Text} (hsize : '='.toUInt8 ∉ size) (body : Text) :
    findBoundary (chunk size body) = findBoundary body := by
  have hend : findBoundary (text "0\r\n\r\n") = none := by decide
  rw [chunk, findBoundary_append_crlf, findBoundary_append_crlf, findBoundary_of_notMem hsize, hend,
    Option.or_none, Option.none_or]

variable {B : Beast}

/-- The container library writes a request that has a target and answers what the upload asks of
it. A request whose fields say so is written with its body as a chunk. -/
structure WritesRequests (io : RequestIO B) (L : FieldList B) (names : MethodNames B) : Prop where
  write : ∀ req, req.target ≠ [] → io.write req = serialize L names req ∨
    ∃ size, '='.toUInt8 ∉ size ∧
      io.write req = serialize L names { req with body := chunk size req.body }
  contains : ∀ fields name,
    io.contains fields name = (L.list fields).any fun field => iequals field.1 name
  get : ∀ fields name, B.get fields name = listFieldsGet (L.list fields) name
  isPost : ∀ method, io.isPost method = true → method.map names.name = some (text "POST")

/-- A POST request for `/meme/generate`, with the fields around its content type. -/
structure FormRequest (io : RequestIO B) (L : FieldList B) where
  req : Request B
  ahead : List (Text × Text)
  name : Text
  contentType : Text
  behind : List (Text × Text)
  post : io.isPost req.method = true
  target : req.target = text "/meme/generate"
  fields : L.list req.fields = ahead ++ (name, contentType) :: behind
  named : iequals name (text "Content-Type") = true
  first : ∀ field ∈ ahead, iequals field.1 (text "Content-Type") = false

variable {io : RequestIO B} {L : FieldList B} {names : MethodNames B}

/-- The first match in the text of a request is the first one in its fields or its body. -/
private theorem findBoundary_serialize {req : Request B}
    (hmethod : req.method.map names.name = some (text "POST"))
    (htarget : req.target = text "/meme/generate") :
    findBoundary (serialize L names req) =
      ((L.list req.fields).findSome? fieldBoundary).or (findBoundary req.body) := by
  have hline : findBoundary (text "POST /meme/generate HTTP" ++ '/'.toUInt8 ::
      ([versionByte (req.version / 10)] ++ '.'.toUInt8 :: [versionByte (req.version % 10)])) =
        none := by
    have hstart : findBoundary (text "POST /meme/generate HTTP") = none := by decide
    rw [findBoundary_append isSeparator_version.1, findBoundary_append isSeparator_version.2,
      hstart, findBoundary_singleton, findBoundary_singleton]
    rfl
  have hwrite : serialize L names req =
      (text "POST /meme/generate HTTP" ++ '/'.toUInt8 ::
        ([versionByte (req.version / 10)] ++ '.'.toUInt8 :: [versionByte (req.version % 10)])) ++
          (text "\r\n" ++ ((L.list req.fields).flatMap writeField ++
            ([] ++ (text "\r\n" ++ req.body)))) := by
    rw [serialize, hmethod, htarget]
    rfl
  rw [hwrite, findBoundary_append_crlf, hline, findBoundary_fields, findBoundary_append_crlf]
  rfl

/-- The first match is ahead of the content type, in its value, behind it or in the body. -/
private theorem FormRequest.findBoundary_write (hio : WritesRequests io L names)
    (u : FormRequest io L) :
    findBoundary (io.write u.req) =
      (u.ahead.findSome? fieldBoundary).or ((findBoundary u.contentType).or
        ((u.behind.findSome? fieldBoundary).or (findBoundary u.req.body))) := by
  have hfields : (L.list u.req.fields).findSome? fieldBoundary =
      (u.ahead.findSome? fieldBoundary).or ((findBoundary u.contentType).or
        (u.behind.findSome? fieldBoundary)) := by
    have hname : fieldBoundary (u.name, u.contentType) = findBoundary u.contentType := by
      rw [fieldBoundary, findBoundary_of_notMem (equals_notMem_of_contentType u.named)]
      rfl
    rw [u.fields, List.findSome?_append, List.findSome?_cons, hname]
    cases findBoundary u.contentType with
    | none => rfl
    | some boundary => rfl
  have hmethod := hio.isPost _ u.post
  have hwrite : findBoundary (io.write u.req) =
      ((L.list u.req.fields).findSome? fieldBoundary).or (findBoundary u.req.body) := by
    cases hio.write u.req (u.target ▸ List.cons_ne_nil _ _) with
    | inl hplain =>
      rw [hplain]
      exact findBoundary_serialize hmethod u.target
    | inr hchunked =>
      obtain ⟨size, hsize, hchunked⟩ := hchunked
      rw [hchunked, ← findBoundary_chunk hsize u.req.body]
      exact findBoundary_serialize hmethod u.target
  rw [hwrite, hfields, Option.or_assoc, Option.or_assoc]

/-! ## The boundary of the content type -/

/-- The boundary that a content type gives. -/
def contentTypeBoundary (contentType : Text) : Except Refusal Text :=
  if find contentType (text "multipart/form-data") 0 = none then
    .error ⟨415, text "Invalid upload content type"⟩
  else
    match findBoundary contentType with
    | none => .error ⟨400, text "Invalid multipart form"⟩
    | some boundary => .ok boundary

/-- The boundary that is used for a request. -/
private theorem FormRequest.uploadBoundary_eq (hio : WritesRequests io L names)
    (u : FormRequest io L) :
    uploadBoundary io u.req =
      if find u.contentType (text "multipart/form-data") 0 = none then
        .error ⟨415, text "Invalid upload content type"⟩
      else
        match findBoundary (io.write u.req) with
        | none => .error ⟨400, text "Invalid multipart form"⟩
        | some boundary => .ok boundary := by
  have hget : B.get u.req.fields (text "Content-Type") = u.contentType := by
    have hahead : u.ahead.find? (fun field => iequals field.1 (text "Content-Type")) = none := by
      rw [List.find?_eq_none]
      intro field hfield
      rw [u.first field hfield]
      exact Bool.false_ne_true
    rw [hio.get, listFieldsGet, u.fields, List.find?_append, hahead, List.find?_cons, u.named]
    rfl
  have hcontains : io.contains u.req.fields (text "Content-Type") = true := by
    rw [hio.contains, u.fields, List.any_append, List.any_cons, u.named, Bool.true_or, Bool.or_true]
  rw [uploadBoundary, u.post, hcontains, hget]
  rfl

/-- Nothing ahead of the content type has another match, and without a match in its value there
is none behind it. -/
structure FormRequest.TakesOwn (u : FormRequest io L) : Prop where
  ahead : ∀ boundary, u.ahead.findSome? fieldBoundary = some boundary →
    findBoundary u.contentType = some boundary
  behind : findBoundary u.contentType = none →
    u.behind.findSome? fieldBoundary = none ∧ findBoundary u.req.body = none

/-- A request takes the boundary of its content type exactly when no other text takes its place. -/
private theorem FormRequest.uploadBoundary_eq_iff (hio : WritesRequests io L names)
    (u : FormRequest io L) :
    uploadBoundary io u.req = contentTypeBoundary u.contentType ↔
      find u.contentType (text "multipart/form-data") 0 = none ∨ u.TakesOwn := by
  rw [u.uploadBoundary_eq hio, contentTypeBoundary]
  by_cases hmultipart : find u.contentType (text "multipart/form-data") 0 = none
  · rw [if_pos hmultipart, if_pos hmultipart]
    exact iff_of_true rfl (.inl hmultipart)
  · rw [if_neg hmultipart, if_neg hmultipart, or_iff_right hmultipart, u.findBoundary_write hio]
    constructor
    · intro h
      constructor
      · intro boundary hahead
        rw [hahead, Option.some_or] at h
        cases hvalue : findBoundary u.contentType with
        | none =>
          rw [hvalue] at h
          cases h
        | some other =>
          rw [hvalue] at h
          rw [Except.ok.inj h]
      · intro hvalue
        rw [hvalue, Option.none_or] at h
        cases hahead : u.ahead.findSome? fieldBoundary with
        | some boundary =>
          rw [hahead] at h
          cases h
        | none =>
          rw [hahead, Option.none_or] at h
          cases hrest : (u.behind.findSome? fieldBoundary).or (findBoundary u.req.body) with
          | some boundary =>
            rw [hrest] at h
            cases h
          | none => exact Option.or_eq_none_iff.mp hrest
    · intro h
      cases hahead : u.ahead.findSome? fieldBoundary with
      | some boundary => rw [h.ahead boundary hahead, Option.some_or]
      | none =>
        cases hvalue : findBoundary u.contentType with
        | some boundary => rfl
        | none =>
          rw [(h.behind hvalue).1, (h.behind hvalue).2]
          rfl

/-- Two requests take the boundary of their content type, the same one, and get the same answer
on the form with the same parts. -/
structure SameForm (u v : FormRequest io L) : Prop where
  left : uploadBoundary io u.req = contentTypeBoundary u.contentType
  right : uploadBoundary io v.req = contentTypeBoundary v.contentType
  boundary : uploadBoundary io u.req = uploadBoundary io v.req
  form : uploadForm io u.req = uploadForm io v.req

/-- Two requests with the same content type and the same body have the same form by it exactly
when it is not multipart, or each of them takes its boundary. -/
theorem sameForm_iff (hio : WritesRequests io L names) (u v : FormRequest io L)
    (hcontentType : u.contentType = v.contentType) (hbody : u.req.body = v.req.body) :
    SameForm u v ↔
      find u.contentType (text "multipart/form-data") 0 = none ∨ u.TakesOwn ∧ v.TakesOwn := by
  rw [or_and_left]
  constructor
  · intro h
    refine ⟨(u.uploadBoundary_eq_iff hio).mp h.left, ?_⟩
    rw [hcontentType]
    exact (v.uploadBoundary_eq_iff hio).mp h.right
  · rintro ⟨hu, hv⟩
    rw [hcontentType] at hv
    have hleft := (u.uploadBoundary_eq_iff hio).mpr hu
    have hright := (v.uploadBoundary_eq_iff hio).mpr hv
    have hboundary : uploadBoundary io u.req = uploadBoundary io v.req := by
      rw [hleft, hright, hcontentType]
    refine ⟨hleft, hright, hboundary, ?_⟩
    rw [uploadForm, uploadForm, hboundary, hbody]

/-- A container of lists that writes its requests in one piece. -/
def writingIO : RequestIO Beast.lists where
  write := serialize FieldList.lists MethodNames.lists
  contains fields name := (FieldList.lists.list fields).any fun field => iequals field.1 name
  isPost := fun (method : Option Text) => method == some (text "POST")

/-- It does what the container library does. -/
private theorem writesRequests_writingIO :
    WritesRequests writingIO FieldList.lists MethodNames.lists where
  write := fun _ _ => .inl rfl
  contains := fun _ _ => rfl
  get := fun _ _ => rfl
  isPost := fun (method : Option Text) h => by
    change (method == some (text "POST")) = true at h
    rw [beq_iff_eq.mp h]
    rfl

/-- A form that is posted with these fields around a content type with a boundary. -/
def postBetween (ahead behind : List (Text × Text))
    (first : ∀ field ∈ ahead, iequals field.1 (text "Content-Type") = false) :
    FormRequest writingIO FieldList.lists where
  req :=
    { method := some (text "POST")
      target := text "/meme/generate"
      fields := ahead ++
        (text "Content-Type", text "multipart/form-data; boundary=----0123456789") :: behind
      body := openForm }
  ahead := ahead
  name := text "Content-Type"
  contentType := text "multipart/form-data; boundary=----0123456789"
  behind := behind
  post := rfl
  target := rfl
  fields := rfl
  named := rfl
  first := first

/-- A field that mentions a boundary. -/
def otherField : Text × Text := (text "X-Form", text "boundary=----aaaaaaaaaa")

/-- Without a match ahead of it, the boundary of the content type is taken. -/
private theorem takesOwn_postBetween {ahead behind : List (Text × Text)}
    {first : ∀ field ∈ ahead, iequals field.1 (text "Content-Type") = false}
    (h : ahead.findSome? fieldBoundary = none) : (postBetween ahead behind first).TakesOwn where
  ahead := fun boundary hahead => by
    cases h.symm.trans hahead
  behind := fun hvalue => by
    have hfound : findBoundary (text "multipart/form-data; boundary=----0123456789") =
        some (text "----0123456789") := by decide
    cases hfound.symm.trans hvalue

/-- Behind the content type, the other boundary does not matter. -/
theorem sameForm_behind :
    SameForm (postBetween [] [otherField] (by decide))
      (postBetween [(text "Host", text "a")] [] (by decide)) :=
  (sameForm_iff writesRequests_writingIO (postBetween [] [otherField] (by decide))
    (postBetween [(text "Host", text "a")] [] (by decide)) rfl rfl).mpr
    (.inr ⟨takesOwn_postBetween (by decide), takesOwn_postBetween (by decide)⟩)

/-- Ahead of the content type, it is taken. -/
theorem not_sameForm_ahead :
    ¬ ∀ u v : FormRequest writingIO FieldList.lists, u.contentType = v.contentType →
      u.req.body = v.req.body → SameForm u v := by
  intro h
  have hsame := h (postBetween [otherField] [] (by decide))
    (postBetween [] [otherField] (by decide)) rfl rfl
  exact absurd hsame.left (by decide)

end Aite.Handlers
