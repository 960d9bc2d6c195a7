import Aite.Basic

/-!
# The HTTP container library

The server stores requests and responses in the containers of a library that is not part
of it. What it relies on is collected here as an interface with its documented laws: the
registered method names, and a container of header fields in which names are compared
ignoring case and values are stored without their outer blanks.
-/

namespace Aite.Http

/-- The lower-case form of an ASCII letter. -/
def toLower (c : UInt8) : UInt8 := if 65 ≤ c ∧ c ≤ 90 then c + 32 else c

/-- Equality of field names, ignoring case. -/
def iequals (a b : Text) : Bool := a.map toLower = b.map toLower

/-- The bytes that are trimmed from the ends of a field value. -/
def isBlank (c : UInt8) : Bool := c = 32 || c = 9

/-- A field value without its outer blanks. -/
def trim (v : Text) : Text := ((v.dropWhile isBlank).reverse.dropWhile isBlank).reverse

/-- A value without outer blanks is not trimmed. -/
theorem trim_eq_self {value : Text} (hstart : ∀ c ∈ value.head?, isBlank c = false)
    (hend : ∀ c ∈ value.getLast?, isBlank c = false) : trim value = value := by
  have hdrop (v : Text) (h : ∀ c ∈ v.head?, isBlank c = false) : v.dropWhile isBlank = v := by
    cases v with
    | nil => rfl
    | cons c v =>
      have hc : isBlank c = false := h c rfl
      rw [List.dropWhile_cons, hc, if_neg Bool.false_ne_true]
  rw [trim, hdrop value hstart, hdrop value.reverse (by rwa [List.head?_reverse]),
    List.reverse_reverse]

/-- The documented interface of the container library. -/
structure Beast where
  /-- `http::verb`, less `verb::unknown`. -/
  Verb : Type
  /-- `http::string_to_verb`, with `none` for `verb::unknown`. -/
  stringToVerb : Text → Option Verb
  stringToVerb_inj : ∀ a b v, stringToVerb a = some v → stringToVerb b = some v → a = b
  /-- `http::fields`. -/
  Fields : Type
  /-- A container without fields, as after `clear()`. -/
  empty : Fields
  /-- `set(name, value)`: removes the fields of that name and inserts the new one. -/
  set : Fields → Text → Text → Fields
  /-- `operator[]`: the value of a field, empty when there is none. -/
  get : Fields → Text → Text
  get_empty : ∀ name, get empty name = []
  get_set : ∀ fields name value other, get (set fields name value) other =
    if iequals name other then trim value else get fields other
  /-- `http::obsolete_reason`. -/
  reason : ℕ → Text

/-- `http::request<http::string_body>`, by default without a method. -/
structure Request (B : Beast) where
  method : Option B.Verb := none
  target : Text := []
  version : UInt32 := 11
  fields : B.Fields := B.empty
  body : Text := []

/-- `http::response<http::string_body>`. -/
structure Response (B : Beast) where
  result : ℕ := 200
  fields : B.Fields := B.empty
  body : Text := []

/-- The method names the library registers. -/
def registeredMethods : List Text :=
  ["DELETE", "GET", "HEAD", "POST", "PUT", "CONNECT", "OPTIONS", "TRACE", "COPY", "LOCK", "MKCOL",
    "MOVE", "PROPFIND", "PROPPATCH", "SEARCH", "UNLOCK", "BIND", "REBIND", "UNBIND", "ACL",
    "REPORT", "MKACTIVITY", "CHECKOUT", "MERGE", "M-SEARCH", "NOTIFY", "SUBSCRIBE",
    "UNSUBSCRIBE", "PATCH", "PURGE", "MKCALENDAR", "LINK", "UNLINK"].map text

/-- The fields as a list of names and trimmed values, in insertion order. -/
def listFieldsSet (fields : List (Text × Text)) (name value : Text) : List (Text × Text) :=
  fields.filter (fun field => !iequals field.1 name) ++ [(name, trim value)]

/-- The value of the first field of the given name. -/
def listFieldsGet (fields : List (Text × Text)) (name : Text) : Text :=
  ((fields.find? fun field => iequals field.1 name).map Prod.snd).getD []

private theorem iequals_comm (a b : Text) : iequals a b = iequals b a := by
  simp only [iequals, eq_comm]

private theorem iequals_trans {a b c : Text} (hab : iequals a b = true) :
    iequals a c = iequals b c := by
  simp only [iequals, decide_eq_true_eq] at hab ⊢
  rw [hab]

/-- The list container looks up what was set last, and is otherwise unchanged by `set`. -/
theorem listFieldsGet_set (fields : List (Text × Text)) (name value other : Text) :
    listFieldsGet (listFieldsSet fields name value) other =
      if iequals name other then trim value else listFieldsGet fields other := by
  unfold listFieldsGet listFieldsSet
  induction fields with
  | nil => by_cases h : iequals name other <;> simp [h]
  | cons field rest ih =>
    by_cases hremoved : iequals field.1 name
    · by_cases h : iequals name other
      · simpa [hremoved, h] using ih
      · have hfield : iequals field.1 other = false := by
          rw [iequals_trans hremoved]
          simpa using h
        simpa [hremoved, h, hfield] using ih
    · by_cases hfield : iequals field.1 other
      · have h : iequals name other = false := by
          rw [iequals_comm, ← iequals_trans hfield]
          simpa using hremoved
        simp [hremoved, hfield, h]
      · simpa [hremoved, hfield] using ih

/-- Removing the fields of one name leaves those of other names. -/
theorem listFieldsGet_filter (fields : List (Text × Text)) {name other : Text}
    (hne : iequals name other = false) :
    listFieldsGet (fields.filter fun field => !iequals field.1 name) other =
      listFieldsGet fields other := by
  unfold listFieldsGet
  rw [List.find?_filter]
  congr 3
  funext field
  by_cases hfield : iequals field.1 other
  · have hname : iequals field.1 name = false := by
      rw [iequals_trans hfield, iequals_comm, hne]
    simp [hfield, hname]
  · simp [hfield]

/-- The interface is satisfied by lists of fields and the registered names themselves. -/
def Beast.lists : Beast where
  Verb := Text
  stringToVerb name := if name ∈ registeredMethods then some name else none
  stringToVerb_inj := by
    intro a b v ha hb
    split at ha <;> split at hb <;> simp_all
  Fields := List (Text × Text)
  empty := []
  set := listFieldsSet
  get := listFieldsGet
  get_empty := fun _ => rfl
  get_set := listFieldsGet_set
  reason := fun status => if status = 400 then text "Bad Request" else text "OK"

end Aite.Http
