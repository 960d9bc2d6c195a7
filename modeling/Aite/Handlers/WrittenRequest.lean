import Aite.Handlers.Echo
import Aite.Handlers.ReverseProxy
import Aite.Numerals

/-!
# Requests that are written and read again

A request that was parsed is written again, to a client by the echo handler and to another
server by the proxy. The parser has dropped what it does not need: leading zeros of the version,
how lines were continued, blanks around values, and all but the last line of a name. What is left
has one spelling, and from that spelling the parser stores the same request once more. So another
server of the same program reads from a proxied request just what the proxy has sent.
-/

namespace Aite.Handlers

open Http

variable {B : Beast}

/-- A container whose fields are looked up in its list. -/
structure LookupList (B : Beast) extends FieldList B where
  get_list : ∀ fields name, B.get fields name = listFieldsGet (list fields) name

/-- Lists of fields are looked up in themselves. -/
def LookupList.lists : LookupList Beast.lists where
  toFieldList := FieldList.lists
  get_list := fun _ _ => rfl

/-- A field as the parser stores it. -/
structure IsStoredField (field : Text × Text) : Prop where
  name_ne_nil : field.1 ≠ []
  name_token : ∀ c ∈ field.1, IsToken c
  value_text : ∀ c ∈ field.2, IsText c
  trimmed : trim field.2 = field.2

/-- A request as the parser stores it, with whatever body. -/
structure IsStored (L : FieldList B) (req : Request B) : Prop where
  method : ∃ name verb, B.stringToVerb name = some verb ∧ req.method = some verb
  target : ∀ c ∈ req.target, IsTarget c
  fields : ∀ field ∈ L.list req.fields, IsStoredField field
  distinct : DistinctNames (L.list req.fields)

/-- Two requests with the same method, target, version and fields. -/
structure SameHead (L : FieldList B) (req other : Request B) : Prop where
  method : req.method = other.method
  target : req.target = other.target
  version : req.version = other.version
  fields : L.list req.fields = L.list other.fields

/-- A text is a header with the body of this request behind it. Whatever comes behind the header
and whatever the method, target, version and body of the caller's request were, the parser accepts
it as the header of this request. -/
def ReadAs (L : FieldList B) (written : Text) (req : Request B) : Prop :=
  ∃ head, written = head ++ req.body ∧ ∀ start : Request B, start.fields = B.empty →
    ∃ stored, SameHead L stored req ∧ stored.body = start.body ∧
      ∀ rest, parse .methodStart start (head ++ rest) =
        .ok ⟨.true, head.length, .expectingNewline3, stored⟩

/-! ## Writing what was stored -/

/-- The arithmetic of the parser on versions is that of 32-bit numbers. -/
private theorem toUInt32_versionNumber {digits : Text} (h : ∀ c ∈ digits, IsDigit c) :
    (versionNumber digits).toUInt32 = UInt32.ofNat (digitsValue digits) := by
  induction digits using List.reverseRecOn with
  | nil => rfl
  | append_singleton digits c ih =>
    have hcodes : ∀ c ∈ text "0123456789",
        c.toInt8.toInt32.toUInt32 - '0'.toUInt8.toInt8.toInt32.toUInt32 =
          UInt32.ofNat (c.toNat - 48) := by decide
    have hc := hcodes c (mem_digits_of_isDigit (h c (by simp)))
    have hstep : versionNumber (digits ++ [c]) =
        versionNumber digits * 10 + c.toInt8.toInt32 - '0'.toUInt8.toInt8.toInt32 := by
      simp [versionNumber]
    rw [hstep, Int32.toUInt32_sub, Int32.toUInt32_add, Int32.toUInt32_mul, UInt32.sub_eq_add_neg,
      UInt32.add_assoc, ← UInt32.sub_eq_add_neg, ih fun d hd => h d (by simp [hd]), hc,
      digitsValue_append, UInt32.ofNat_add, UInt32.ofNat_mul, UInt32.mul_comm]
    rfl

/-- A version is written as two numbers from which it is computed again. -/
private theorem version_written (version : UInt32) :
    (versionNumber (text (toString (version / 10).toNat)) * 10 +
      versionNumber (text (toString (version % 10).toNat))).toUInt32 = version := by
  obtain ⟨-, hmajor, hten⟩ := digits_toString (version / 10).toNat
  obtain ⟨-, hminor, hone⟩ := digits_toString (version % 10).toNat
  rw [Int32.toUInt32_add, Int32.toUInt32_mul, toUInt32_versionNumber hmajor,
    toUInt32_versionNumber hminor, hten, hone, UInt32.ofNat_toNat, UInt32.ofNat_toNat]
  apply UInt32.toNat.inj
  change (version / 10 * 10 + version % 10).toNat = _
  have hlt := version.toNat_lt
  simp only [UInt32.toNat_add, UInt32.toNat_mul, UInt32.toNat_div, UInt32.toNat_mod,
    UInt32.reduceToNat]
  omega

/-- A stored request is written as the text of a head, with its body behind it. -/
private theorem IsStored.exists_head {L : FieldList B} (names : MethodNames B) {req : Request B}
    (h : IsStored L req) :
    ∃ (head : RequestHead) (verb : B.Verb), writeRequest L names req = head.render ++ req.body ∧
      B.stringToVerb head.method = some verb ∧ req.method = some verb ∧
      head.target = req.target ∧ head.lines = L.list req.fields ∧
      (versionNumber head.major * 10 + versionNumber head.minor).toUInt32 = req.version := by
  obtain ⟨name, verb, hverb, hmethod⟩ := h.method
  obtain ⟨hne, htoken⟩ := names.token name verb hverb
  obtain ⟨lines, hrender, hparsed⟩ := exists_headerLines
    (fun field hfield => ⟨(h.fields field hfield).name_ne_nil, (h.fields field hfield).name_token⟩)
    (fun field hfield => (h.fields field hfield).value_text)
  obtain ⟨hmajor, hmajor', -⟩ := digits_toString (req.version / 10).toNat
  obtain ⟨hminor, hminor', -⟩ := digits_toString (req.version % 10).toNat
  let head : RequestHead :=
    { method := name
      target := req.target
      major := text (toString (req.version / 10).toNat)
      minor := text (toString (req.version % 10).toNat)
      headers := lines
      method_ne_nil := hne
      method_token := htoken
      target_text := h.target
      major_ne_nil := hmajor
      major_digit := hmajor'
      minor_ne_nil := hminor
      minor_digit := hminor' }
  have hlines : head.lines = L.list req.fields := by
    have hmap : head.lines = (lines.map fun line => (line.name, line.parsed.value)).map
        fun field => (field.1, trim field.2) := by
      rw [List.map_map]
      rfl
    rw [hmap, hparsed]
    have hkept (field : Text × Text) (hfield : field ∈ L.list req.fields) :
        (field.1, trim field.2) = id field := by
      rw [(h.fields field hfield).trimmed]
      rfl
    rw [List.map_congr_left hkept, List.map_id]
  refine ⟨head, verb, ?_, hverb, hmethod, rfl, hlines, version_written req.version⟩
  have hname := names.name_of name verb hverb
  simp only [writeRequest, hmethod, Option.map_some, Option.getD_some, hname, RequestHead.render,
    head, hrender, List.append_assoc]

/-- A request as the parser stores it is read again as itself. -/
theorem IsStored.readAs {L : FieldList B} (names : MethodNames B) {req : Request B}
    (h : IsStored L req) : ReadAs L (writeRequest L names req) req := by
  obtain ⟨head, verb, hwritten, hverb, hmethod, htarget, hlines, hversion⟩ := h.exists_head names
  refine ⟨head.render, hwritten, ?_⟩
  intro start hstart
  refine ⟨{ start with
    method := some verb
    version := (versionNumber head.major * 10 + versionNumber head.minor).toUInt32
    target := head.target
    fields := head.fields start.fields }, ⟨hmethod.symm, htarget, hversion, ?_⟩, rfl, ?_⟩
  · change L.list (head.fields start.fields) = _
    rw [hstart, RequestHead.list_fields L (hlines ▸ h.distinct), hlines]
  · exact fun rest => parse_render head rest start hverb

/-! ## What the parser stores -/

/-- Trimming keeps no other bytes. -/
theorem trim_subset (value : Text) : trim value ⊆ value := by
  intro c hc
  have hend := (List.dropWhile_suffix isBlank).subset (List.mem_reverse.mp hc)
  exact (List.dropWhile_suffix isBlank).subset (List.mem_reverse.mp hend)

/-- Dropping blanks in front leaves none there. -/
private theorem head?_dropWhile_isBlank (value : Text) :
    ∀ c ∈ (value.dropWhile isBlank).head?, isBlank c = false := by
  intro c hc
  have hnot := List.head?_dropWhile_not isBlank value
  rw [hc] at hnot
  simpa using hnot

/-- A trimmed value has no blanks at its ends. -/
theorem trim_trim (value : Text) : trim (trim value) = trim value := by
  apply trim_eq_self
  · -- the blanks at the end are dropped behind the first byte that is none
    intro c hc
    have hfront := head?_dropWhile_isBlank value
    obtain ⟨blanks, hblanks⟩ := List.dropWhile_suffix (p := isBlank)
      (l := (value.dropWhile isBlank).reverse)
    have hsplit : value.dropWhile isBlank = trim value ++ blanks.reverse := by
      rw [trim, ← List.reverse_append, hblanks, List.reverse_reverse]
    rw [hsplit] at hfront
    cases htrim : trim value with
    | nil =>
      rw [htrim] at hc
      cases hc
    | cons d rest =>
      rw [htrim] at hc hfront
      exact hfront c hc
  · intro c hc
    rw [trim, List.getLast?_reverse] at hc
    exact head?_dropWhile_isBlank _ c hc

/-- Setting a field with a name and a value of the right bytes keeps what is stored. -/
theorem isStored_set {fields : List (Text × Text)} (h : ∀ field ∈ fields, IsStoredField field)
    {name value : Text} (hname : name ≠ [] ∧ ∀ c ∈ name, IsToken c)
    (hvalue : ∀ c ∈ value, IsText c) :
    ∀ field ∈ listFieldsSet fields name value, IsStoredField field := by
  intro field hfield
  cases List.mem_append.mp hfield with
  | inl hfield => exact h field (List.mem_of_mem_filter hfield)
  | inr hfield =>
    rw [List.mem_singleton.mp hfield]
    exact ⟨hname.1, hname.2, fun c hc => hvalue c (trim_subset value hc), trim_trim value⟩

/-- A header under construction has a name of token bytes and a value of text. -/
structure IsProperHeader (header : Header) : Prop where
  name_ne_nil : header.name ≠ []
  name_token : ∀ c ∈ header.name, IsToken c
  value_text : ∀ c ∈ header.value, IsText c

/-- A request under construction has a target and headers of the right bytes. -/
structure IsProper (req : ParserRequest) : Prop where
  target : ∀ c ∈ req.uri, IsTarget c
  headers : ∀ header ∈ req.headers, IsProperHeader header

/-- A change that keeps headers proper may be made to the last one. -/
private theorem isProper_modifyBack {req req' : ParserRequest} {f : Header → Header}
    (h : IsProper req) (hf : ∀ header, IsProperHeader header → IsProperHeader (f header))
    (hmodify : req.modifyBack f = .ok req') : IsProper req' := by
  unfold ParserRequest.modifyBack at hmodify
  cases hlast : req.headers.getLast? with
  | none =>
    rw [hlast] at hmodify
    cases hmodify
  | some back =>
    rw [hlast] at hmodify
    rw [← Except.ok.inj hmodify]
    refine ⟨h.target, ?_⟩
    intro header hheader
    rw [List.mem_append, List.mem_singleton] at hheader
    cases hheader with
    | inl hheader => exact h.headers header (List.dropLast_subset _ hheader)
    | inr hheader => exact hheader ▸ hf back (h.headers back (List.mem_of_getLast? hlast))

/-- A byte of a token may be added to a name. -/
private theorem isProper_pushName {req req' : ParserRequest} {c : UInt8} (h : IsProper req)
    (hc : IsToken c) (hpush : req.pushName c = .ok req') : IsProper req' := by
  refine isProper_modifyBack h ?_ hpush
  intro header hheader
  exact ⟨by simp, List.forall_mem_append.mpr ⟨hheader.name_token, by simpa using hc⟩,
    hheader.value_text⟩

/-- A byte of text may be added to a value. -/
private theorem isProper_pushValue {req req' : ParserRequest} {c : UInt8} (h : IsProper req)
    (hc : IsText c) (hpush : req.pushValue c = .ok req') : IsProper req' := by
  refine isProper_modifyBack h ?_ hpush
  intro header hheader
  exact ⟨hheader.name_ne_nil, hheader.name_token,
    List.forall_mem_append.mpr ⟨hheader.value_text, by simpa using hc⟩⟩

/-- What one byte can do to the target and the headers. -/
private theorem consume_cases {state state' : State} {req req' : ParserRequest} {c : UInt8}
    {verdict : Tribool} (hstep : consume state req c = .ok (verdict, state', req')) :
    (req'.uri = req.uri ∧ req'.headers = req.headers) ∨
      (IsTarget c ∧ req' = { req with uri := req.uri ++ [c] }) ∨
      (IsToken c ∧ req' = { req with headers := req.headers ++ [⟨[c], []⟩] }) ∨
      (IsToken c ∧ req.pushName c = .ok req') ∨ (IsText c ∧ req.pushValue c = .ok req') := by
  have hkept {v : Tribool} {s : State} {r : ParserRequest}
      (h : Except.ok (v, s, r) = (.ok (verdict, state', req') : Run _)) (huri : r.uri = req.uri)
      (hheaders : r.headers = req.headers) : req'.uri = req.uri ∧ req'.headers = req.headers := by
    cases h
    exact ⟨huri, hheaders⟩
  cases state
  case uri =>
    simp only [consume] at hstep
    split_ifs at hstep with hspace hctl <;> cases hstep
    · exact .inl ⟨rfl, rfl⟩
    · exact .inl ⟨rfl, rfl⟩
    · exact .inr (.inl ⟨⟨by simpa [IsText] using hctl, hspace⟩, rfl⟩)
  case headerLineStart =>
    simp only [consume] at hstep
    split_ifs at hstep with hcr hlws htoken
    · exact .inl (hkept hstep rfl rfl)
    · exact .inl (hkept hstep rfl rfl)
    · exact .inl (hkept hstep rfl rfl)
    · refine .inr (.inr (.inl ⟨by simpa [IsToken] using htoken, ?_⟩))
      simp only [ParserRequest.pushName, ParserRequest.modifyBack, List.getLast?_concat,
        List.dropLast_concat, run_ok_bind, List.nil_append] at hstep
      cases hstep
      rfl
  case headerName =>
    simp only [consume] at hstep
    split_ifs at hstep with hcolon htoken
    · exact .inl (hkept hstep rfl rfl)
    · exact .inl (hkept hstep rfl rfl)
    · obtain ⟨pushed, hpush, hstep⟩ := run_bind_eq_ok.mp hstep
      cases hstep
      exact .inr (.inr (.inr (.inl ⟨by simpa [IsToken] using htoken, hpush⟩)))
  case headerLws =>
    simp only [consume] at hstep
    split_ifs at hstep with hcr hlws hctl
    · exact .inl (hkept hstep rfl rfl)
    · exact .inl (hkept hstep rfl rfl)
    · exact .inl (hkept hstep rfl rfl)
    · obtain ⟨pushed, hpush, hstep⟩ := run_bind_eq_ok.mp hstep
      cases hstep
      exact .inr (.inr (.inr (.inr ⟨by simpa [IsText] using hctl, hpush⟩)))
  case headerValue =>
    simp only [consume] at hstep
    split_ifs at hstep with hcr hctl
    · exact .inl (hkept hstep rfl rfl)
    · exact .inl (hkept hstep rfl rfl)
    · obtain ⟨pushed, hpush, hstep⟩ := run_bind_eq_ok.mp hstep
      cases hstep
      exact .inr (.inr (.inr (.inr ⟨by simpa [IsText] using hctl, hpush⟩)))
  case httpVersionMajorStart | httpVersionMajor | httpVersionMinorStart | httpVersionMinor =>
    simp only [consume] at hstep
    split_ifs at hstep
    all_goals first
      | exact .inl (hkept hstep rfl rfl)
      | obtain ⟨number, -, hstep⟩ := run_bind_eq_ok.mp hstep
        exact .inl (hkept hstep rfl rfl)
  all_goals
    simp only [consume] at hstep
    first
      | exact .inl (hkept hstep rfl rfl)
      | split_ifs at hstep <;> exact .inl (hkept hstep rfl rfl)

/-- Consuming a byte keeps the target and the headers proper. -/
private theorem isProper_consume {state state' : State} {req req' : ParserRequest} {c : UInt8}
    {verdict : Tribool} (h : IsProper req)
    (hstep : consume state req c = .ok (verdict, state', req')) : IsProper req' := by
  rcases consume_cases hstep with ⟨huri, hheaders⟩ | ⟨hc, rfl⟩ | ⟨hc, rfl⟩ | ⟨hc, hpush⟩ | ⟨hc, hpush⟩
  · exact ⟨huri ▸ h.target, hheaders ▸ h.headers⟩
  · exact ⟨List.forall_mem_append.mpr ⟨h.target, List.forall_mem_singleton.mpr hc⟩, h.headers⟩
  · refine ⟨h.target, List.forall_mem_append.mpr ⟨h.headers, List.forall_mem_singleton.mpr ?_⟩⟩
    exact ⟨List.cons_ne_nil _ _, List.forall_mem_singleton.mpr hc, fun _ h => absurd h List.not_mem_nil⟩
  · exact isProper_pushName h hc hpush
  · exact isProper_pushValue h hc hpush

/-- So does the whole loop. -/
private theorem isProper_parseLoop {buffer : Text} {state : State} {req : ParserRequest}
    {p : Parsed} (h : IsProper req) (hloop : parseLoop state req buffer = .ok p) :
    IsProper p.parsed := by
  induction buffer generalizing state req p with
  | nil =>
    obtain rfl := Except.ok.inj hloop
    exact h
  | cons c rest ih =>
    rw [parseLoop] at hloop
    cases hstep : consume state req c with
    | error e =>
      rw [hstep] at hloop
      cases hloop
    | ok step =>
      obtain ⟨verdict, state', req'⟩ := step
      have hkept := isProper_consume h hstep
      rw [hstep] at hloop
      cases verdict with
      | indeterminate =>
        change (parseLoop state' req' rest).map Parsed.advance = .ok p at hloop
        cases hrest : parseLoop state' req' rest with
        | error e =>
          rw [hrest] at hloop
          cases hloop
        | ok q =>
          rw [hrest] at hloop
          obtain rfl := Except.ok.inj hloop
          have hq : IsProper q.parsed := ih hkept hrest
          exact hq
      | _ =>
        obtain rfl := Except.ok.inj hloop
        exact hkept

/-- Setting proper headers one by one keeps what is stored. -/
private theorem isStored_foldl (L : FieldList B) {headers : List Header}
    (hheaders : ∀ header ∈ headers, IsProperHeader header) {fields : B.Fields}
    (h : ∀ field ∈ L.list fields, IsStoredField field) (hdistinct : DistinctNames (L.list fields)) :
    (∀ field ∈ L.list (headers.foldl (fun fields h => B.set fields h.name h.value) fields),
        IsStoredField field) ∧
      DistinctNames
        (L.list (headers.foldl (fun fields h => B.set fields h.name h.value) fields)) := by
  induction headers generalizing fields with
  | nil => exact ⟨h, hdistinct⟩
  | cons header headers ih =>
    obtain ⟨hproper, hheaders⟩ := List.forall_mem_cons.mp hheaders
    have hset := isStored_set h ⟨hproper.name_ne_nil, hproper.name_token⟩ hproper.value_text
    have hnames := distinctNames_listFieldsSet hdistinct header.name header.value
    rw [← L.list_set] at hset hnames
    exact ih hheaders hset hnames

/-- What is translated, all but the body of the caller's request being replaced. -/
theorem eq_of_translate {req stored : Request B} {parsed : ParserRequest}
    (h : Http.translate req parsed = .ok stored) :
    ∃ verb version, B.stringToVerb parsed.method = some verb ∧ stored = { req with
      method := some verb
      version
      target := parsed.uri
      fields := parsed.headers.foldl (fun fields h => B.set fields h.name h.value) req.fields } := by
  unfold Http.translate at h
  split at h
  · cases h
  · rename_i verb hverb
    split at h
    · exact ⟨verb, _, hverb, (Except.ok.inj h).symm⟩
    · cases h

/-- What is accepted, from whatever state of the parser, is stored in the form in which it is
written. -/
theorem isStored_of_accepted (L : FieldList B) {state : State} {req : Request B} {buffer : Text}
    {r : ParseResult B} (hfresh : req.fields = B.empty) (hparse : parse state req buffer = .ok r)
    (haccepted : r.verdict = .true) : IsStored L r.req := by
  obtain ⟨p, hloop, hparse⟩ := run_bind_eq_ok.mp hparse
  have hproper : IsProper p.parsed := by
    refine isProper_parseLoop ?_ hloop
    exact ⟨fun _ h => absurd h List.not_mem_nil, fun _ h => absurd h List.not_mem_nil⟩
  by_cases hverdict : p.verdict = .true
  · rw [if_pos hverdict] at hparse
    obtain ⟨stored, htranslate, hparse⟩ := run_bind_eq_ok.mp hparse
    obtain rfl := Except.ok.inj hparse
    obtain ⟨verb, version, hverb, rfl⟩ := eq_of_translate htranslate
    have hfields : ∀ field ∈ L.list req.fields, IsStoredField field := by
      rw [hfresh, L.list_empty]
      exact fun _ h => absurd h List.not_mem_nil
    have hnames : DistinctNames (L.list req.fields) := by
      rw [hfresh, L.list_empty]
      exact List.nodup_nil
    obtain ⟨hfields, hdistinct⟩ := isStored_foldl L hproper.headers hfields hnames
    exact ⟨⟨p.parsed.method, verb, hverb, rfl⟩, hproper.target, hfields, hdistinct⟩
  · rw [if_neg hverdict] at hparse
    obtain rfl := Except.ok.inj hparse
    exact absurd haccepted hverdict

/-! ## Written and read again -/

/-- The container library writes requests that have a target. One whose fields ask for it is written
with its body in chunks, which is of no interest here. -/
def WritesPlain (L : FieldList B) (names : MethodNames B) (write : Request B → Text) : Prop :=
  ∀ req, req.target ≠ [] →
    (∀ field ∈ L.list req.fields, iequals field.1 (text "Transfer-Encoding") = false) →
      write req = serialize L names req

/-- Whatever bytes a parser accepts in whatever state, the request that it stores, with whatever
body, is read again from its written form as the same request with the same body, when it has a
target and a version with one digit in each part. -/
theorem readAs_of_accepted (L : FieldList B) (names : MethodNames B) {write : Request B → Text}
    (hwrite : WritesPlain L names write) {state : State} {req : Request B} {buffer : Text}
    {r : ParseResult B} (hfresh : req.fields = B.empty) (hparse : parse state req buffer = .ok r)
    (haccepted : r.verdict = .true) (hversion : r.req.version < 100) (htarget : r.req.target ≠ [])
    (hplain : ∀ field ∈ L.list r.req.fields, iequals field.1 (text "Transfer-Encoding") = false)
    (body : Text) :
    ReadAs L (write { r.req with body }) { r.req with body } := by
  have hdecimal : serialize L names { r.req with body } =
      writeRequest L names { r.req with body } := serialize_eq L names hversion
  rw [hwrite { r.req with body } htarget hplain, hdecimal]
  apply IsStored.readAs
  obtain ⟨hmethod, htarget, hfields, hdistinct⟩ := isStored_of_accepted L hfresh hparse haccepted
  exact ⟨hmethod, htarget, hfields, hdistinct⟩

/-- A request with a version of more digits, a continued line and a repeated name, and what is
stored of it. -/
theorem readAs_of_accepted_folded :
    ReadAs FieldList.lists
      (serialize FieldList.lists MethodNames.lists
        ⟨some (text "GET"), text "/a", 13, [(text "a", text "34")], text "hi"⟩)
      ⟨some (text "GET"), text "/a", 13, [(text "a", text "34")], text "hi"⟩ :=
  readAs_of_accepted FieldList.lists MethodNames.lists (fun _ _ _ => rfl) rfl
    (show parse .methodStart (⟨none, [], 0, [], []⟩ : Request Beast.lists)
        (text "GET /a HTTP/001.03\r\nA: 1\r\na:  3\r\n 4 \r\n\r\nhi") =
      .ok ⟨.true, 40, .expectingNewline3,
        ⟨some (text "GET"), text "/a", 13, [(text "a", text "34")], []⟩⟩ from rfl)
    rfl (by decide) (by decide) (by decide) (text "hi")

/-! ## What the proxy sends to another server of this program -/

private theorem isToken_host : text "Host" ≠ [] ∧ ∀ c ∈ text "Host", IsToken c :=
  (by decide : text "Host" ≠ [] ∧ ∀ c ∈ text "Host", notToken c = false)

private theorem isToken_acceptEncoding :
    text "Accept-Encoding" ≠ [] ∧ ∀ c ∈ text "Accept-Encoding", IsToken c :=
  (by decide : text "Accept-Encoding" ≠ [] ∧ ∀ c ∈ text "Accept-Encoding", notToken c = false)

private theorem isText_identity : ∀ c ∈ text "identity", IsText c :=
  (by decide : ∀ c ∈ text "identity", isCtl (charToInt c) = false)

/-- The fields that the proxy sets are stored as they are. -/
private theorem isStored_proxiedRequest (L : FieldList B) {req : Request B} (h : IsStored L req)
    (proxy : ReverseProxyRequestHandler) (hhost : ∀ c ∈ proxy.host, IsText c)
    (hport : ∀ c ∈ proxy.port, IsText c) {forwarded : Text}
    (hforwarded : proxy.forwardedTarget req.target = .ok forwarded) :
    IsStored L (proxy.proxiedRequest req forwarded) := by
  have haddress : ∀ c ∈ proxy.host ++ text ":" ++ proxy.port, IsText c := by
    intro c hc
    simp only [List.append_assoc, List.mem_append] at hc
    rcases hc with hc | hc | hc
    · exact hhost c hc
    · obtain rfl := List.mem_singleton.mp hc
      exact rfl
    · exact hport c hc
  refine ⟨h.method, ?_, ?_, ?_⟩
  · -- a part of the target, or a slash
    intro c hc
    rw [ReverseProxyRequestHandler.forwardedTarget] at hforwarded
    split_ifs at hforwarded with hlong
    obtain rfl := Except.ok.inj hforwarded
    change c ∈ (if _ then _ else _) at hc
    split_ifs at hc
    · obtain rfl := List.mem_singleton.mp hc
      exact ⟨rfl, by decide⟩
    · exact h.target c (List.mem_of_mem_drop hc)
  · change ∀ field ∈ L.list (B.set (B.set req.fields _ _) _ _), _
    rw [L.list_set, L.list_set]
    exact isStored_set (isStored_set h.fields isToken_host haddress) isToken_acceptEncoding
      isText_identity
  · change DistinctNames (L.list (B.set (B.set req.fields _ _) _ _))
    rw [L.list_set, L.list_set]
    exact distinctNames_listFieldsSet (distinctNames_listFieldsSet h.distinct _ _) _ _

/-- A request that another server of the program stores when the proxy sends it this one. -/
structure ForwardedAs (proxy : ReverseProxyRequestHandler) (req : Request B) (forwarded : Text)
    (stored : Request B) : Prop where
  method : stored.method = req.method
  target : stored.target = forwarded
  version : stored.version = req.version
  get : ∀ name, B.get stored.fields name =
    if iequals (text "Accept-Encoding") name then text "identity"
    else if iequals (text "Host") name then trim (proxy.host ++ text ":" ++ proxy.port)
    else B.get req.fields name

/-- A request with the head of what the proxy sends is stored as that. -/
theorem SameHead.forwardedAs {L : LookupList B} {proxy : ReverseProxyRequestHandler}
    {req stored : Request B} {forwarded : Text}
    (h : SameHead L.toFieldList stored (proxy.proxiedRequest req forwarded)) :
    ForwardedAs proxy req forwarded stored := by
  refine ⟨h.method, h.target, h.version, ?_⟩
  intro name
  have hidentity : trim (text "identity") = text "identity" := by decide
  rw [L.get_list, h.fields, ← L.get_list]
  change B.get (B.set (B.set req.fields _ _) _ _) name = _
  rw [B.get_set, B.get_set, hidentity]

/-- What is forwarded has a target. -/
private theorem forwardedTarget_ne_nil {proxy : ReverseProxyRequestHandler}
    {target forwarded : Text} (h : proxy.forwardedTarget target = .ok forwarded) : forwarded ≠ [] := by
  rw [ReverseProxyRequestHandler.forwardedTarget] at h
  split_ifs at h
  obtain rfl := Except.ok.inj h
  change (if _ then _ else _) ≠ []
  split_ifs with hempty
  · exact List.cons_ne_nil _ _
  · exact hempty

/-- What was stored of a request for the proxy is read by another server of the program from what
the proxy writes, when the version has one digit in each part. -/
theorem IsStored.forwarded_readAs {L : FieldList B} {names : MethodNames B}
    {write : Request B → Text} (hwrite : WritesPlain L names write)
    {proxy : ReverseProxyRequestHandler} (hhost : ∀ c ∈ proxy.host, IsText c)
    (hport : ∀ c ∈ proxy.port, IsText c) {req : Request B} (h : IsStored L req)
    (hversion : req.version < 100)
    (hplain : ∀ field ∈ L.list req.fields, iequals field.1 (text "Transfer-Encoding") = false)
    {forwarded : Text} (hforwarded : proxy.forwardedTarget req.target = .ok forwarded) :
    ReadAs L (write (proxy.proxiedRequest req forwarded)) (proxy.proxiedRequest req forwarded) := by
  have hsentPlain : ∀ field ∈ L.list (proxy.proxiedRequest req forwarded).fields,
      iequals field.1 (text "Transfer-Encoding") = false := by
    intro field hfield
    change field ∈ L.list (B.set (B.set req.fields _ _) _ _) at hfield
    rw [L.list_set, L.list_set] at hfield
    simp only [listFieldsSet, List.mem_append, List.mem_filter, List.mem_singleton] at hfield
    rcases hfield with ⟨⟨hfield, -⟩ | rfl, -⟩ | rfl
    · exact hplain field hfield
    · exact rfl
    · exact rfl
  have hdecimal : serialize L names (proxy.proxiedRequest req forwarded) =
      writeRequest L names (proxy.proxiedRequest req forwarded) := serialize_eq L names hversion
  rw [hwrite _ (forwardedTarget_ne_nil hforwarded) hsentPlain, hdecimal]
  exact (isStored_proxiedRequest L h proxy hhost hport hforwarded).readAs names

end Aite.Handlers
