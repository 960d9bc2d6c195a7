import Aite.Handlers.Construct
import Aite.Lib.KeyedList
import Aite.Routing.RequestHandler
import Mathlib.Data.List.Forall2

/-!
# Registering the handlers of a config

The server scans the config for the locations in its server blocks. Every location of a known
type gets a new handler, which is registered under the normalised location and under its type;
a location that was registered before is given the new handler. The handlers are the objects
that were created, in order, and the address of a handler is its place among them.
-/

namespace Aite.Routing

open BlockGrammar Handlers KeyedList

/-- The server while its handlers are registered. -/
structure Registry extends Server where
  /-- The handlers that were created, by address. -/
  handlers : List Handler := []
  handlerToPrefixes : List (Text × List Text) := []

/-- `map[key].push_back(value)` -/
def pushBack {V : Type*} (key : Text) (value : V) (map : List (Text × List V)) :
    List (Text × List V) :=
  alter key (fun values => values.getD [] ++ [value]) map

/-- Create a handler of the given type and register it. -/
def createAndAddHandler (fs : FileSystem) (type location : Text) (config : Block Text)
    (r : Registry) : Run Registry := do
  let loc ← convertToAbsolutePath r.cwd location
  match ← construct fs r.cwd type loc config with
  | none => .ok r
  | some handler =>
    -- the new object has the next free address
    let ptr := r.handlers.length
    .ok { r with
      handlers := r.handlers ++ [handler]
      handlerToPrefixes := pushBack type location r.handlerToPrefixes
      locationToHandler := assign loc ptr r.locationToHandler
      typeToHandler := pushBack type ptr r.typeToHandler }

/-- A statement with a block, inside a server block. -/
def addLocation (fs : FileSystem) (blockTokens : List Text) (locationConfig : Block Text)
    (r : Registry) : Run Registry :=
  match blockTokens with
  | [keyword, location, type] =>
    if keyword = text "location" ∧ type ∈ handlerTypes then
      createAndAddHandler fs type location locationConfig r
    else .ok r
  | _ => .ok r

/-- Look for location blocks in a server block. -/
def getLocations (fs : FileSystem) : Block Text → Registry → Run Registry
  | .empty, r => .ok r
  | .simple _ rest, r => getLocations fs rest r
  | .nested blockTokens locationConfig rest, r => do
    let r ← addLocation fs blockTokens locationConfig r
    getLocations fs rest r

/-- Parses config for location blocks in the server blocks. -/
def getHandlers (fs : FileSystem) : Block Text → Registry → Run Registry
  | .empty, r => .ok r
  | .simple _ rest, r => getHandlers fs rest r
  | .nested tokens serverConfig rest, r =>
    if tokens = [text "server"] then do
      let r ← getLocations fs serverConfig r
      getHandlers fs rest r
    else getHandlers fs rest r

/-- A config with one server block, which names a port. -/
def oneServer (locations : Block Text) : Block Text :=
  .nested [text "server"] (.simple [text "port", text "80"] locations) .empty

/-! ## The statements that register a handler -/

/-- A location statement with a block, in which a handler type is named. -/
structure LocationStatement where
  location : Text
  type : Text
  config : Block Text
  deriving DecidableEq, Repr

/-- A statement with a block is a location when it says so and names a handler type. -/
def asLocation (tokens : List Text) (config : Block Text) : List LocationStatement :=
  match tokens with
  | [keyword, location, type] =>
    if keyword = text "location" ∧ type ∈ handlerTypes then [⟨location, type, config⟩] else []
  | _ => []

/-- The locations in the statements of a server block, in document order. -/
def locationsIn : Block Text → List LocationStatement
  | .empty => []
  | .simple _ rest => locationsIn rest
  | .nested tokens body rest => asLocation tokens body ++ locationsIn rest

/-- The locations in the server blocks of a config, in document order. -/
def locationStatements : Block Text → List LocationStatement
  | .empty => []
  | .simple _ rest => locationStatements rest
  | .nested tokens body rest =>
    (if tokens = [text "server"] then locationsIn body else []) ++ locationStatements rest

/-- Create and register the handler of a location statement. -/
def register (fs : FileSystem) (r : Registry) (d : LocationStatement) : Run Registry :=
  createAndAddHandler fs d.type d.location d.config r

/-- A statement registers the location that it is. -/
private theorem addLocation_eq (fs : FileSystem) (tokens : List Text) (body : Block Text)
    (r : Registry) :
    addLocation fs tokens body r = (asLocation tokens body).foldlM (register fs) r := by
  unfold addLocation asLocation
  split
  · split_ifs
    · rw [List.foldlM_cons]
      simp only [List.foldlM_nil, bind_pure]
      rfl
    · rfl
  · rfl

/-- The scan of a server block registers its locations in order. -/
private theorem getLocations_eq (fs : FileSystem) (b : Block Text) (r : Registry) :
    getLocations fs b r = (locationsIn b).foldlM (register fs) r := by
  induction b generalizing r with
  | empty => rfl
  | simple _ rest ih => exact ih r
  | nested tokens body rest _ ih =>
    rw [getLocations, locationsIn, List.foldlM_append, addLocation_eq]
    congr 1
    funext r
    exact ih r

/-- The scan of a config registers the locations of all server blocks in order. -/
theorem getHandlers_eq (fs : FileSystem) (b : Block Text) (r : Registry) :
    getHandlers fs b r = (locationStatements b).foldlM (register fs) r := by
  induction b generalizing r with
  | empty => rfl
  | simple _ rest ih => exact ih r
  | nested tokens body rest _ ih =>
    rw [getHandlers, locationStatements]
    split_ifs
    · rw [List.foldlM_append, getLocations_eq]
      congr 1
      funext r
      exact ih r
    · exact ih r

/-- A location names a handler type. -/
private theorem type_mem_of_mem_locationsIn {b : Block Text} {d : LocationStatement}
    (h : d ∈ locationsIn b) : d.type ∈ handlerTypes := by
  induction b with
  | empty => exact absurd h List.not_mem_nil
  | simple _ rest ih => exact ih h
  | nested tokens body rest _ ih =>
    rw [locationsIn, List.mem_append] at h
    cases h with
    | inl h =>
      unfold asLocation at h
      split at h
      · split_ifs at h with hlocation
        · exact List.mem_singleton.mp h ▸ hlocation.2
        · exact absurd h List.not_mem_nil
      · exact absurd h List.not_mem_nil
    | inr h => exact ih h

/-- Every location statement names a handler type. -/
theorem type_mem_of_mem_locationStatements {b : Block Text} {d : LocationStatement}
    (h : d ∈ locationStatements b) : d.type ∈ handlerTypes := by
  induction b with
  | empty => exact absurd h List.not_mem_nil
  | simple _ rest ih => exact ih h
  | nested tokens body rest _ ih =>
    rw [locationStatements, List.mem_append] at h
    cases h with
    | inl h =>
      split_ifs at h
      · exact type_mem_of_mem_locationsIn h
      · exact absurd h List.not_mem_nil
    | inr h => exact ih h

/-! ## What the tables hold -/

/-- The statement of this number has this normalised location. -/
def IsAt (cwd : Text) (created : List LocationStatement) (i : ℕ) (loc : Text) : Prop :=
  ∃ d, created[i]? = some d ∧ convertToAbsolutePath cwd d.location = .ok loc

/-- The object was constructed from the statement. -/
def IsBuiltFrom (fs : FileSystem) (cwd : Text) (handler : Handler) (d : LocationStatement) : Prop :=
  ∃ loc, convertToAbsolutePath cwd d.location = .ok loc ∧
    construct fs cwd d.type loc d.config = .ok (some handler)

/-- The tables hold the handlers that were created from these statements, in order. -/
structure Holds (fs : FileSystem) (created : List LocationStatement) (r : Registry) : Prop where
  /-- Each object was constructed from its statement. -/
  built : List.Forall₂ (IsBuiltFrom fs r.cwd) r.handlers created
  /-- A location leads to the last object that was created for it. -/
  located : ∀ loc i, r.locationToHandler.lookup loc = some i →
    IsAt r.cwd created i loc ∧ ∀ j, IsAt r.cwd created j loc → j ≤ i
  /-- Every location of a statement is registered. -/
  registered : ∀ loc i, IsAt r.cwd created i loc → r.locationToHandler.lookup loc ≠ none
  /-- A type leads to objects of that type only. -/
  typed : ∀ entry ∈ r.typeToHandler, ∀ i ∈ entry.2, ∃ d, created[i]? = some d ∧ d.type = entry.1
  /-- Every object is registered under its type. -/
  listed : ∀ i d, created[i]? = some d → ∃ ptrs, r.typeToHandler.lookup d.type = some ptrs ∧ i ∈ ptrs

variable {fs : FileSystem} {r r' : Registry} {created : List LocationStatement}
  {d : LocationStatement}

/-- A handler that is registered is a new object. -/
theorem register_cases (hregister : register fs r d = .ok r') (htype : d.type ∈ handlerTypes) :
    ∃ loc handler, convertToAbsolutePath r.cwd d.location = .ok loc ∧
      construct fs r.cwd d.type loc d.config = .ok (some handler) ∧
      r' = { r with
        handlers := r.handlers ++ [handler]
        handlerToPrefixes := pushBack d.type d.location r.handlerToPrefixes
        locationToHandler := assign loc r.handlers.length r.locationToHandler
        typeToHandler := pushBack d.type r.handlers.length r.typeToHandler } := by
  obtain ⟨loc, hloc, hregister⟩ := run_bind_eq_ok.mp hregister
  obtain ⟨found, hhandler, hregister⟩ := run_bind_eq_ok.mp hregister
  cases found with
  | none => exact absurd hhandler (construct_ne_none htype)
  | some handler => exact ⟨loc, handler, hloc, hhandler, (Except.ok.inj hregister).symm⟩

/-- The statements before keep their numbers when one is added. -/
private theorem getElem?_append_singleton_iff {i : ℕ} {e : LocationStatement} :
    (created ++ [d])[i]? = some e ↔ created[i]? = some e ∨ (i = created.length ∧ d = e) := by
  rcases Nat.lt_trichotomy i created.length with hlt | heq | hgt
  · rw [List.getElem?_append_left hlt]
    simp only [Nat.ne_of_lt hlt, false_and, or_false]
  · rw [heq, List.getElem?_concat_length, List.getElem?_eq_none (Nat.le_refl _)]
    simp
  · have hlength : (created ++ [d]).length ≤ i := by
      rw [List.length_append, List.length_singleton]
      omega
    rw [List.getElem?_eq_none hlength, List.getElem?_eq_none (by omega)]
    simp
    omega

/-- The locations before keep their numbers when one is added. -/
private theorem isAt_append_iff {cwd loc : Text} {i : ℕ} :
    IsAt cwd (created ++ [d]) i loc ↔ IsAt cwd created i loc ∨
      (i = created.length ∧ convertToAbsolutePath cwd d.location = .ok loc) := by
  simp only [IsAt, getElem?_append_singleton_iff, or_and_right, exists_or]
  apply or_congr_right
  constructor
  · rintro ⟨e, ⟨hi, rfl⟩, hloc⟩
    exact ⟨hi, hloc⟩
  · rintro ⟨hi, hloc⟩
    exact ⟨d, ⟨hi, rfl⟩, hloc⟩

/-- Values are added to the list under their key. -/
private theorem mem_pushBack {V : Type*} {key : Text} {value : V} {map : List (Text × List V)}
    {entry : Text × List V} (h : entry ∈ pushBack key value map) {v : V} (hv : v ∈ entry.2) :
    (entry.1 = key ∧ v = value) ∨ ∃ other ∈ map, other.1 = entry.1 ∧ v ∈ other.2 := by
  cases mem_alter h with
  | inr h => exact .inr ⟨entry, h, rfl, hv⟩
  | inl h =>
    subst h
    rw [List.mem_append, List.mem_singleton] at hv
    cases hv with
    | inr hv => exact .inl ⟨rfl, hv⟩
    | inl hv =>
      cases hlookup : map.lookup key with
      | none => rw [hlookup] at hv; cases hv
      | some values =>
        rw [hlookup] at hv
        exact .inr ⟨(key, values), mem_of_lookup hlookup, rfl, hv⟩

section Register

variable {loc : Text} (h : Holds fs created r) (hloc : convertToAbsolutePath r.cwd d.location = .ok loc)
include h

/-- The number of the next object is that of its statement. -/
private theorem Holds.length_eq : r.handlers.length = created.length := h.built.length_eq

include hloc

/-- A location that is registered once more leads to the new object, the others where they led. -/
private theorem Holds.located_assign {other : Text} {i : ℕ}
    (hlookup : (assign loc r.handlers.length r.locationToHandler).lookup other = some i) :
    IsAt r.cwd (created ++ [d]) i other ∧ ∀ j, IsAt r.cwd (created ++ [d]) j other → j ≤ i := by
  by_cases hother : other = loc
  · subst hother
    cases (lookup_assign_self other r.handlers.length r.locationToHandler).symm.trans hlookup
    rw [h.length_eq]
    refine ⟨isAt_append_iff.mpr (.inr ⟨rfl, hloc⟩), ?_⟩
    rintro j ⟨e, he, -⟩
    cases getElem?_append_singleton_iff.mp he with
    | inl he => exact Nat.le_of_lt (List.getElem?_eq_some_iff.mp he).1
    | inr he => exact Nat.le_of_eq he.1
  · have hbefore := (lookup_assign_of_ne hother _ _).symm.trans hlookup
    obtain ⟨hat, hlast⟩ := h.located other i hbefore
    refine ⟨isAt_append_iff.mpr (.inl hat), ?_⟩
    intro j hj
    cases isAt_append_iff.mp hj with
    | inl hj => exact hlast j hj
    | inr hj => exact absurd (Except.ok.inj (hj.2.symm.trans hloc)) hother

/-- The location of every statement stays registered. -/
private theorem Holds.registered_assign {other : Text} {i : ℕ}
    (hat : IsAt r.cwd (created ++ [d]) i other) :
    (assign loc r.handlers.length r.locationToHandler).lookup other ≠ none := by
  by_cases hother : other = loc
  · subst hother
    rw [lookup_assign_self]
    exact Option.some_ne_none _
  · rw [lookup_assign_of_ne hother]
    cases isAt_append_iff.mp hat with
    | inl hat => exact h.registered other i hat
    | inr hat => exact absurd (Except.ok.inj (hat.2.symm.trans hloc)) hother

omit hloc

/-- The new object is under its type. -/
private theorem Holds.typed_pushBack {entry : Text × List HandlerPtr}
    (hentry : entry ∈ pushBack d.type r.handlers.length r.typeToHandler) {i : ℕ}
    (hi : i ∈ entry.2) : ∃ e, (created ++ [d])[i]? = some e ∧ e.type = entry.1 := by
  rcases mem_pushBack hentry hi with ⟨htype, rfl⟩ | ⟨other, hother, htype, hi⟩
  · exact ⟨d, getElem?_append_singleton_iff.mpr (.inr ⟨h.length_eq, rfl⟩), htype.symm⟩
  · obtain ⟨e, he, hetype⟩ := h.typed other hother i hi
    exact ⟨e, getElem?_append_singleton_iff.mpr (.inl he), hetype.trans htype⟩

/-- Every object stays under its type. -/
private theorem Holds.listed_pushBack {i : ℕ} {e : LocationStatement}
    (he : (created ++ [d])[i]? = some e) : ∃ ptrs,
      (pushBack d.type r.handlers.length r.typeToHandler).lookup e.type = some ptrs ∧ i ∈ ptrs := by
  unfold pushBack
  cases getElem?_append_singleton_iff.mp he with
  | inr he =>
    obtain ⟨rfl, rfl⟩ := he
    refine ⟨_, lookup_alter_self _ _ _, ?_⟩
    rw [h.length_eq]
    exact List.mem_append_right _ (List.mem_singleton_self _)
  | inl he =>
    obtain ⟨ptrs, hlookup, hi⟩ := h.listed i e he
    by_cases htype : e.type = d.type
    · refine ⟨ptrs ++ [r.handlers.length], ?_, List.mem_append_left _ hi⟩
      rw [htype] at hlookup ⊢
      rw [lookup_alter_self, hlookup, Option.getD_some]
    · refine ⟨ptrs, ?_, hi⟩
      rw [lookup_alter_of_ne htype, hlookup]

/-- Registering the handler of a statement adds it to the tables. -/
theorem Holds.register (hregister : register fs r d = .ok r') (htype : d.type ∈ handlerTypes) :
    Holds fs (created ++ [d]) r' ∧ r'.cwd = r.cwd := by
  obtain ⟨loc, handler, hloc, hhandler, rfl⟩ := register_cases hregister htype
  exact ⟨{
    built := List.rel_append h.built (.cons ⟨loc, hloc, hhandler⟩ .nil)
    located := fun _ _ hlookup => h.located_assign hloc hlookup
    registered := fun _ _ hat => h.registered_assign hloc hat
    typed := fun _ hentry _ hi => h.typed_pushBack hentry hi
    listed := fun _ _ he => h.listed_pushBack he }, rfl⟩

end Register

/-- Before the scan the tables hold nothing. -/
theorem Holds.start (fs : FileSystem) (cwd : Text) : Holds fs [] { cwd } where
  built := .nil
  located := nofun
  registered := nofun
  typed := nofun
  listed := nofun

/-- Registering statements in order adds them all. -/
private theorem Holds.registerAll {statements : List LocationStatement} (h : Holds fs created r)
    (htypes : ∀ d ∈ statements, d.type ∈ handlerTypes)
    (hscan : statements.foldlM (Routing.register fs) r = .ok r') :
    Holds fs (created ++ statements) r' ∧ r'.cwd = r.cwd := by
  induction statements generalizing created r with
  | nil =>
    cases hscan
    rw [List.append_nil]
    exact ⟨h, rfl⟩
  | cons d statements ih =>
    rw [List.foldlM_cons] at hscan
    obtain ⟨next, hregister, hscan⟩ := run_bind_eq_ok.mp hscan
    obtain ⟨hnext, hcwd⟩ := h.register hregister (htypes d List.mem_cons_self)
    obtain ⟨hall, hcwd'⟩ := ih hnext (fun e he => htypes e (List.mem_cons_of_mem _ he)) hscan
    rw [List.append_cons]
    exact ⟨hall, hcwd'.trans hcwd⟩

/-- After the scan of a config the tables hold the handlers of its location statements. -/
theorem holds_of_getHandlers {cwd : Text} {config : Block Text}
    (h : getHandlers fs config { cwd } = .ok r) :
    Holds fs (locationStatements config) r ∧ r.cwd = cwd := by
  rw [getHandlers_eq] at h
  exact (Holds.start fs cwd).registerAll (fun _ => type_mem_of_mem_locationStatements) h

/-- The handler of a statement has the number of the statement as its address. -/
theorem Holds.exists_handler (h : Holds fs created r) {i : ℕ} (hi : created[i]? = some d) :
    ∃ handler, r.handlers[i]? = some handler ∧ IsBuiltFrom fs r.cwd handler d := by
  obtain ⟨hlt, rfl⟩ := List.getElem?_eq_some_iff.mp hi
  have hlt' : i < r.handlers.length := by
    rw [h.built.length_eq]
    exact hlt
  exact ⟨r.handlers[i], List.getElem?_eq_getElem hlt', h.built.get hlt' hlt⟩

/-- The type of a registered handler is found. -/
theorem Holds.getHandlerType (h : Holds fs created r) {i : ℕ} (hi : created[i]? = some d) :
    r.getHandlerType (some i) = d.type := by
  obtain ⟨ptrs, hlookup, hmem⟩ := h.listed i d hi
  have hfound : (r.typeToHandler.find? fun entry => entry.2.contains i).isSome := by
    rw [List.find?_isSome]
    exact ⟨_, mem_of_lookup hlookup, by simpa using hmem⟩
  obtain ⟨entry, hentry⟩ := Option.isSome_iff_exists.mp hfound
  obtain ⟨e, he, htype⟩ := h.typed entry (List.mem_of_find?_eq_some hentry) i
    (by simpa using List.find?_some hentry)
  rw [hi] at he
  cases he
  simp only [Server.getHandlerType, hentry, Option.map_some, Option.getD_some, htype]

end Aite.Routing
