import Aite.Http.RequestHead

/-!
# The fields of a request as a list

A container keeps its fields in the order in which they were set, and setting a field first
removes the fields of its name. So the header lines of a request all arrive when their names
differ, and of the lines with one name only the last arrives.
-/

namespace Aite.Http

/-- The fields of a container in the order in which they are iterated. -/
structure FieldList (B : Beast) where
  list : B.Fields → List (Text × Text)
  list_empty : list B.empty = []
  list_set : ∀ fields name value,
    list (B.set fields name value) = listFieldsSet (list fields) name value

/-- The container that is a list. -/
def FieldList.lists : FieldList Beast.lists where
  list := id
  list_empty := rfl
  list_set := fun _ _ _ => rfl

/-- The names of fields, in lower case. -/
def lowerNames (fields : List (Text × Text)) : List Text :=
  fields.map fun field => field.1.map toLower

/-- The names of the fields differ, ignoring case. -/
def DistinctNames (fields : List (Text × Text)) : Prop := (lowerNames fields).Nodup

/-- A field with its name in lower case. -/
def foldCase (field : Text × Text) : Text × Text := (field.1.map toLower, field.2)

/-- The values of the fields of one name. -/
def valuesOf (name : Text) (fields : List (Text × Text)) : List Text :=
  (fields.filter fun field => iequals field.1 name).map Prod.snd

/-- The fields are the lines up to the case of the names, and under each name in their order. -/
structure KeepsLines (lines fields : List (Text × Text)) : Prop where
  perm : (fields.map foldCase).Perm (lines.map foldCase)
  order : ∀ name, valuesOf name fields = valuesOf name lines

/-- The header lines of a head, with continuation lines appended and outer blanks trimmed. -/
def RequestHead.lines (head : RequestHead) : List (Text × Text) :=
  head.headers.map fun line => (line.name, trim line.parsed.value)

/-! ## Setting fields -/

/-- Setting a field leaves fields with different names. -/
theorem distinctNames_listFieldsSet {fields : List (Text × Text)} (h : DistinctNames fields)
    (name value : Text) : DistinctNames (listFieldsSet fields name value) := by
  rw [DistinctNames, lowerNames, listFieldsSet, List.map_append, List.nodup_append]
  refine ⟨h.sublist (List.filter_sublist.map _), List.nodup_singleton _, ?_⟩
  intro lower hlower other hother
  obtain ⟨field, hfield, rfl⟩ := List.mem_map.mp hlower
  rw [List.map_singleton, List.mem_singleton] at hother
  have hkept := List.of_mem_filter hfield
  rw [hother]
  simpa [iequals] using hkept

/-- Setting fields one by one leaves fields with different names. -/
theorem distinctNames_foldl (lines : List (Text × Text)) {fields : List (Text × Text)}
    (h : DistinctNames fields) :
    DistinctNames (lines.foldl (fun fields line => listFieldsSet fields line.1 line.2) fields) := by
  induction lines generalizing fields with
  | nil => exact h
  | cons line lines ih =>
    rw [List.foldl_cons]
    exact ih (distinctNames_listFieldsSet h line.1 line.2)

/-- A field whose name is new comes last. -/
theorem listFieldsSet_of_new {fields : List (Text × Text)} {name : Text}
    (h : name.map toLower ∉ lowerNames fields) (value : Text) :
    listFieldsSet fields name value = fields ++ [(name, trim value)] := by
  have hkept : fields.filter (fun field => !iequals field.1 name) = fields := by
    rw [List.filter_eq_self]
    intro field hfield
    have hne : ¬ field.1.map toLower = name.map toLower := by
      intro heq
      apply h
      rw [← heq]
      exact List.mem_map_of_mem hfield
    simp [iequals, hne]
  rw [listFieldsSet, hkept]

/-- Fields with different names are set behind each other. -/
theorem foldl_listFieldsSet {fields lines : List (Text × Text)}
    (h : DistinctNames (fields ++ lines)) :
    lines.foldl (fun fields line => listFieldsSet fields line.1 line.2) fields =
      fields ++ lines.map fun line => (line.1, trim line.2) := by
  induction lines generalizing fields with
  | nil =>
    rw [List.map_nil, List.append_nil]
    rfl
  | cons line lines ih =>
    have hnew : line.1.map toLower ∉ lowerNames fields := by
      rw [DistinctNames, lowerNames, List.map_append, List.nodup_append] at h
      intro hmem
      exact h.2.2 _ hmem _ List.mem_cons_self rfl
    have hrest : DistinctNames ((fields ++ [(line.1, trim line.2)]) ++ lines) := by
      rw [List.append_assoc]
      simpa [DistinctNames, lowerNames] using h
    rw [List.foldl_cons, listFieldsSet_of_new hnew, ih hrest, List.append_assoc,
      List.singleton_append, List.map_cons]

/-- Setting fields one by one in a container. -/
theorem FieldList.list_foldl {B : Beast} (L : FieldList B) (lines : List HeaderLine)
    (start : B.Fields) :
    L.list (lines.foldl (fun fields line => B.set fields line.parsed.name line.parsed.value) start) =
      (lines.map fun line => (line.name, line.parsed.value)).foldl
        (fun fields line => listFieldsSet fields line.1 line.2) (L.list start) := by
  induction lines generalizing start with
  | nil => rfl
  | cons line lines ih =>
    rw [List.foldl_cons, ih, L.list_set]
    rfl

/-! ## The header lines of a request -/

/-- Trimming the values of lines does not change their names. -/
private theorem lowerNames_lines (head : RequestHead) :
    lowerNames (head.headers.map fun line => (line.name, line.parsed.value)) =
      lowerNames head.lines := by
  simp only [lowerNames, RequestHead.lines, List.map_map]
  rfl

/-- Header lines with different names are the fields of the request. -/
theorem RequestHead.list_fields {B : Beast} (L : FieldList B) {head : RequestHead}
    (h : DistinctNames head.lines) : L.list (head.fields B.empty) = head.lines := by
  have hdistinct : DistinctNames
      ([] ++ head.headers.map fun line => (line.name, line.parsed.value)) := by
    rw [List.nil_append, DistinctNames, lowerNames_lines]
    exact h
  rw [RequestHead.fields, L.list_foldl, L.list_empty, foldl_listFieldsSet hdistinct,
    List.nil_append, List.map_map]
  rfl

/-- The fields of the request keep the header lines exactly when the names of these differ. -/
theorem RequestHead.keepsLines_iff {B : Beast} (L : FieldList B) (head : RequestHead) :
    KeepsLines head.lines (L.list (head.fields B.empty)) ↔ DistinctNames head.lines := by
  constructor
  · intro h
    have hdistinct : DistinctNames (L.list (head.fields B.empty)) := by
      rw [RequestHead.fields, L.list_foldl, L.list_empty]
      exact distinctNames_foldl _ List.nodup_nil
    have hnames := h.perm.map Prod.fst
    rw [List.map_map, List.map_map] at hnames
    exact hnames.nodup_iff.mp hdistinct
  · intro h
    rw [RequestHead.list_fields L h]
    exact ⟨List.Perm.refl _, fun _ => rfl⟩

/-- A buffer that is accepted begins with the text of a head whose method is registered. -/
theorem exists_head_of_accepted {B : Beast} {req : Request B} {buffer : Text} {r : ParseResult B}
    (hparse : parse .methodStart req buffer = .ok r) (haccepted : r.verdict = .true) :
    ∃ (head : RequestHead) (rest : Text) (verb : B.Verb), buffer = head.render ++ rest ∧
      B.stringToVerb head.method = some verb := by
  have haccepts : ∃ rest, StopMachine.run control (.methodStart, false) buffer = .accepted rest := by
    have hstops := parse_start req buffer
    rw [hparse] at hstops
    cases hrun : StopMachine.run control (.methodStart, false) buffer with
    | accepted rest => exact ⟨rest, rfl⟩
    | refused rest =>
      rw [hrun] at hstops
      obtain ⟨n, state, -, hr⟩ := hstops
      rw [Except.ok.inj hr] at haccepted
      cases haccepted
    | pending c =>
      rw [hrun] at hstops
      rw [Except.ok.inj (hstops : _ = Except.ok _)] at haccepted
      cases haccepted
  obtain ⟨rest, hrun⟩ := haccepts
  obtain ⟨w, hw, rfl⟩ := (accepted_iff_headerBlock buffer rest).mp hrun
  obtain ⟨head, rfl⟩ := (mem_headerBlock_iff w).mp hw
  cases hverb : B.stringToVerb head.method with
  | none =>
    have hthrows : parse .methodStart req (head.render ++ rest) =
        .error (.thrown .invalidArgument) := by
      simp only [parse, parseLoop_render, run_ok_bind, if_true, translate, RequestHead.parsed,
        hverb, run_error_bind]
    rw [hthrows] at hparse
    cases hparse
  | some verb => exact ⟨head, rest, verb, rfl, hverb⟩

/-- No header line of an accepted request is lost exactly when the names of its header lines
differ. -/
theorem parse_keepsLines_iff {B : Beast} (L : FieldList B) {req : Request B} {buffer : Text}
    {r : ParseResult B} (hfresh : req.fields = B.empty)
    (hparse : parse .methodStart req buffer = .ok r) (haccepted : r.verdict = .true) :
    ∃ (head : RequestHead) (rest : Text), buffer = head.render ++ rest ∧
      r.consumed = head.render.length ∧
        (KeepsLines head.lines (L.list r.req.fields) ↔ DistinctNames head.lines) := by
  obtain ⟨head, rest, verb, rfl, hverb⟩ := exists_head_of_accepted hparse haccepted
  rw [parse_render head rest req hverb] at hparse
  cases hparse
  refine ⟨head, rest, rfl, rfl, ?_⟩
  rw [hfresh]
  exact head.keepsLines_iff L

/-- The digit of a version is a byte. -/
private theorem one_ne_nil : text "1" ≠ [] := by decide

/-- The digit of a version is a digit. -/
private theorem isDigit_one : ∀ c ∈ text "1", IsDigit c := by
  simp only [IsDigit]
  decide

/-- A head with these two header lines. -/
def headOfTwo (first second : HeaderLine) : RequestHead where
  method := text "HEAD"
  target := text "/index"
  major := text "1"
  minor := text "1"
  headers := [first, second]
  method_ne_nil := by decide
  method_token := by simp only [IsToken]; decide
  target_text := by simp only [IsTarget, IsText]; decide
  major_ne_nil := one_ne_nil
  major_digit := isDigit_one
  minor_ne_nil := one_ne_nil
  minor_digit := isDigit_one

/-- A header line of a type that is accepted. -/
def acceptLine : HeaderLine :=
  ⟨text "Accept", text "text/html", [], by decide, by simp only [IsToken]; decide,
    by simp only [IsText]; decide⟩

/-- A header line of another type, spelled in lower case. -/
def otherAcceptLine : HeaderLine :=
  ⟨text "accept", text "text/plain", [], by decide, by simp only [IsToken]; decide,
    by simp only [IsText]; decide⟩

/-- The header line of a host. -/
def hostLine : HeaderLine :=
  ⟨text "Host", text "localhost", [], by decide, by simp only [IsToken]; decide,
    by simp only [IsText]; decide⟩

/-- The library registers the method of these heads. -/
private theorem verb_headOfTwo (first second : HeaderLine) :
    Beast.lists.stringToVerb (headOfTwo first second).method = some (text "HEAD") := rfl

/-- A request with two header lines. -/
theorem parse_keepsLines_two : ∃ r : ParseResult Beast.lists,
    parse .methodStart {} ((headOfTwo hostLine acceptLine).render ++ []) = .ok r ∧
      ∃ (head : RequestHead) (rest : Text),
        (headOfTwo hostLine acceptLine).render ++ [] = head.render ++ rest ∧
          r.consumed = head.render.length ∧
            (KeepsLines head.lines (FieldList.lists.list r.req.fields) ↔
              DistinctNames head.lines) := by
  have hparse := parse_render (headOfTwo hostLine acceptLine) [] {} (verb_headOfTwo _ _)
  exact ⟨_, hparse, parse_keepsLines_iff FieldList.lists rfl hparse rfl⟩

/-- Of two header lines with one name, the first is lost. -/
theorem not_parse_keepsLines_repeated :
    ¬ ∀ (buffer : Text) (r : ParseResult Beast.lists), parse .methodStart {} buffer = .ok r →
      r.verdict = .true → ∀ (head : RequestHead) (rest : Text), buffer = head.render ++ rest →
        KeepsLines head.lines (FieldList.lists.list r.req.fields) := by
  intro h
  have hparse := parse_render (headOfTwo acceptLine otherAcceptLine) [] {} (verb_headOfTwo _ _)
  have hkeeps := h _ _ hparse rfl (headOfTwo acceptLine otherAcceptLine) [] rfl
  have hdistinct := (RequestHead.keepsLines_iff FieldList.lists _).mp hkeeps
  exact absurd hdistinct (by simp only [DistinctNames]; decide)

end Aite.Http
