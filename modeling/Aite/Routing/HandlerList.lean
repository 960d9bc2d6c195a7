import Aite.Routing.LongestLocation
import Mathlib.Data.List.Perm.Basic
import Mathlib.Data.List.Count

/-!
# The handlers that the status page lists

The status page shows the locations under the types of their handlers, as they were registered.
Nothing is ever taken off this list, while a location that is registered once more gets a new
handler. So the list tells who serves what exactly when no two locations have the same
normalised path.
-/

namespace Aite.Routing

open BlockGrammar Handlers KeyedList

/-- The pairs of a key and one of the values under it. -/
def listings {V : Type*} (map : List (Text × List V)) : List (Text × V) :=
  map.flatMap fun entry => entry.2.map fun value => (entry.1, value)

/-- The handler types and locations that the status page shows for a normalised path. -/
def Registry.listed (r : Registry) (loc : Text) : List (Text × Text) :=
  (listings r.handlerToPrefixes).filter fun listing =>
    convertToAbsolutePath r.cwd listing.2 = .ok loc

/-- A location that is listed under a type is served by a handler of that type, and every
location that has a handler is listed once and under one type. -/
structure ListsTruly (r : Registry) : Prop where
  served : ∀ type locations, r.handlerToPrefixes.lookup type = some locations →
    ∀ location ∈ locations, ∃ ptr, r.getRequestHandler location = .ok ptr ∧
      r.getHandlerType ptr = type
  once : ∀ loc ptr, r.locationToHandler.lookup loc = some ptr →
    ∃ listing, r.listed loc = [listing]

/-- The normalised paths of the locations in a config. -/
def normalisedLocations (cwd : Text) (config : Block Text) : List (Run Text) :=
  (locationStatements config).map fun d => convertToAbsolutePath cwd d.location

/-- A value that is added to a list is one more pair. -/
theorem listings_pushBack {V : Type*} (key : Text) (value : V) (map : List (Text × List V)) :
    (listings (pushBack key value map)).Perm (listings map ++ [(key, value)]) := by
  unfold pushBack
  induction map with
  | nil => exact List.Perm.refl _
  | cons entry rest ih =>
    obtain ⟨k, values⟩ := entry
    by_cases h : key = k
    · subst h
      rw [alter_cons_self]
      simp only [listings, List.flatMap_cons, Option.getD_some, List.map_append, List.map_singleton,
        List.append_assoc]
      exact List.perm_append_comm.append_left _
    · rw [alter_cons_of_ne h]
      simp only [listings, List.flatMap_cons, List.append_assoc] at ih ⊢
      exact ih.append_left _

variable {fs : FileSystem} {r r' : Registry} {statements : List LocationStatement}

/-- Registering statements lists each with its type. -/
private theorem listings_registerAll (htypes : ∀ d ∈ statements, d.type ∈ handlerTypes)
    (h : statements.foldlM (register fs) r = .ok r') :
    (listings r'.handlerToPrefixes).Perm
      (listings r.handlerToPrefixes ++ statements.map fun d => (d.type, d.location)) := by
  induction statements generalizing r with
  | nil =>
    obtain rfl : r = r' := Except.ok.inj h
    rw [List.map_nil, List.append_nil]
  | cons d statements ih =>
    rw [List.foldlM_cons] at h
    obtain ⟨next, hregister, h⟩ := run_bind_eq_ok.mp h
    obtain ⟨loc, handler, -, -, rfl⟩ := register_cases hregister (htypes d List.mem_cons_self)
    refine (ih (fun e he => htypes e (List.mem_cons_of_mem _ he)) h).trans ?_
    rw [List.map_cons, List.append_cons (listings r.handlerToPrefixes)]
    exact (listings_pushBack _ _ _).append_right _

/-- The list has the locations of the config with their types. -/
theorem listings_of_getHandlers {cwd : Text} {config : Block Text}
    (h : getHandlers fs config { cwd } = .ok r) : (listings r.handlerToPrefixes).Perm
      ((locationStatements config).map fun d => (d.type, d.location)) := by
  rw [getHandlers_eq] at h
  exact listings_registerAll (fun _ => type_mem_of_mem_locationStatements) h

/-! ## When the list is true -/

variable {cwd : Text} {config : Block Text}

/-- How often a path is listed. -/
private theorem listed_length (h : getHandlers fs config { cwd } = .ok r) (loc : Text) :
    (r.listed loc).length = (normalisedLocations cwd config).count (.ok loc) := by
  obtain ⟨-, rfl⟩ := holds_of_getHandlers h
  rw [Registry.listed, ← List.countP_eq_length_filter, (listings_of_getHandlers h).countP_eq,
    List.countP_map, normalisedLocations, List.count_eq_countP, List.countP_map]
  apply List.countP_congr
  intro d _
  simp

/-- A statement at a path is in the list of the normalised paths. -/
private theorem count_pos_of_isAt {i : ℕ} {loc : Text}
    (h : IsAt cwd (locationStatements config) i loc) :
    0 < (normalisedLocations cwd config).count (.ok loc) := by
  obtain ⟨d, hd, hloc⟩ := h
  rw [List.count_pos_iff, normalisedLocations, ← hloc]
  exact List.mem_map_of_mem (List.mem_of_getElem? hd)

/-- Each path is listed once exactly when no two locations have the same. -/
private theorem listed_once_iff (h : getHandlers fs config { cwd } = .ok r) :
    (∀ loc ptr, r.locationToHandler.lookup loc = some ptr → ∃ listing, r.listed loc = [listing]) ↔
      (normalisedLocations cwd config).Nodup := by
  obtain ⟨hholds, hcwd⟩ := holds_of_getHandlers h
  simp only [← List.length_eq_one_iff, listed_length h]
  rw [List.nodup_iff_count]
  constructor
  · intro honce x
    by_contra hmany
    have hmem : x ∈ normalisedLocations cwd config := List.count_pos_iff.mp (by omega)
    obtain ⟨d, hd, rfl⟩ := List.mem_map.mp hmem
    obtain ⟨i, hi⟩ := List.mem_iff_getElem?.mp hd
    obtain ⟨-, -, loc, hloc, -⟩ := hholds.exists_handler hi
    have hregistered := hholds.registered loc i ⟨d, hi, hloc⟩
    obtain ⟨ptr, hptr⟩ := Option.ne_none_iff_exists'.mp hregistered
    rw [hcwd] at hloc
    have hone := honce loc ptr hptr
    rw [← hloc] at hone
    omega
  · intro hnodup loc ptr hlookup
    have hat := (hholds.located loc ptr hlookup).1
    rw [hcwd] at hat
    have hpos := count_pos_of_isAt hat
    have hle := hnodup (.ok loc)
    omega

/-- Where no two locations have the same path, a location leads to its own statement. -/
private theorem getRequestHandler_of_nodup (h : getHandlers fs config { cwd } = .ok r)
    (hnodup : (normalisedLocations cwd config).Nodup) {i : ℕ} {d : LocationStatement}
    (hd : (locationStatements config)[i]? = some d) :
    r.getRequestHandler d.location = .ok (some i) := by
  obtain ⟨hholds, rfl⟩ := holds_of_getHandlers h
  obtain ⟨-, -, loc, hloc, -⟩ := hholds.exists_handler hd
  have hat : IsAt r.cwd (locationStatements config) i loc := ⟨d, hd, hloc⟩
  obtain ⟨result, hresult, hnone, hsome⟩ := hholds.getRequestHandler hloc
  cases result with
  | none => exact absurd (.inl rfl) (hnone.mp rfl i loc hat)
  | some ptr =>
    obtain ⟨other, hother, hprefix, hlongest, -⟩ := hsome ptr rfl
    have hsame : loc = other := by
      cases hprefix with
      | inl hsame => exact hsame
      | inr hlonger =>
        obtain ⟨rest, hrest⟩ := hlonger
        have hle := hlongest i loc hat (.inl rfl)
        rw [hrest, List.length_append, List.length_cons] at hle
        omega
    subst hsame
    obtain ⟨e, he, heloc⟩ := hother
    have hi : i < (normalisedLocations r.cwd config).length := by
      rw [normalisedLocations, List.length_map]
      exact (List.getElem?_eq_some_iff.mp hd).1
    have hplaces : (normalisedLocations r.cwd config)[i]? =
        (normalisedLocations r.cwd config)[ptr]? := by
      rw [normalisedLocations, List.getElem?_map, List.getElem?_map, hd, he, Option.map_some,
        Option.map_some, hloc, heloc]
    rw [hresult, (List.getElem?_inj hi hnodup).mp hplaces]

/-- The list of the status page is true exactly when no two locations in the config have the same
normalised path. -/
theorem listsTruly_iff (h : getHandlers fs config { cwd } = .ok r) :
    ListsTruly r ↔ (normalisedLocations cwd config).Nodup := by
  constructor
  · exact fun htrue => (listed_once_iff h).mp htrue.once
  · intro hnodup
    refine ⟨?_, (listed_once_iff h).mpr hnodup⟩
    intro type locations hlookup location hlocation
    have hlisting : (type, location) ∈ listings r.handlerToPrefixes :=
      List.mem_flatMap.mpr ⟨_, mem_of_lookup hlookup, List.mem_map_of_mem hlocation⟩
    obtain ⟨d, hd, hpair⟩ := List.mem_map.mp ((listings_of_getHandlers h).mem_iff.mp hlisting)
    obtain ⟨i, hi⟩ := List.mem_iff_getElem?.mp hd
    obtain ⟨rfl, rfl⟩ := Prod.mk.inj hpair
    exact ⟨some i, getRequestHandler_of_nodup h hnodup hi,
      (holds_of_getHandlers h).1.getHandlerType hi⟩

/-- A location below a root location. -/
def twoLocations : Block Text :=
  oneServer
    (.nested [text "location", text "\"/echo/\"", text "EchoHandler"] .empty
      (.nested [text "location", text "/", text "NotFoundHandler"] .empty .empty))

/-- Locations with different paths are listed truly. -/
theorem listsTruly_twoLocations : ∃ r : Registry,
    getHandlers ⟨fun _ => false, fun _ => none⟩ twoLocations {} = .ok r ∧ ListsTruly r := by
  have hconfig : ∃ r : Registry,
      getHandlers ⟨fun _ => false, fun _ => none⟩ twoLocations {} = .ok r := ⟨_, rfl⟩
  obtain ⟨r, hr⟩ := hconfig
  exact ⟨r, hr, (listsTruly_iff hr).mpr (by decide)⟩

/-- Of two spellings of a location, the first one is listed under a type that does not serve it,
and their path is listed twice. -/
theorem not_listsTruly_twoSpellings :
    ∃ r : Registry, getHandlers ⟨fun _ => false, fun _ => none⟩ twoSpellings {} = .ok r ∧
      r.listed (text "/echo") =
        [(text "EchoHandler", text "/echo"), (text "HealthHandler", text "\"/echo/\"")] ∧
      ¬ ListsTruly r := by
  refine ⟨_, rfl, by decide, fun htrue => ?_⟩
  obtain ⟨ptr, hptr, htype⟩ := htrue.served (text "EchoHandler") [text "/echo"] rfl _
    List.mem_cons_self
  obtain rfl : some 1 = ptr := Except.ok.inj hptr
  revert htype
  decide

end Aite.Routing
