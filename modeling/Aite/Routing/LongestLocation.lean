import Aite.Lib.LongestPrefix
import Aite.Routing.Table

/-!
# Routing to the longest location

A request is routed by the table that was filled from the config. The handler it reaches is
that of the last location statement whose normalised path is the longest one that is a prefix,
component by component, of the normalised target. Only the statements of the config and the
normalisation of paths occur in this description, not the tables and not the search.
-/

namespace Aite.Routing

open BlockGrammar Handlers LongestPrefix

/-- The components of one normalised path are the first components of another. -/
def IsWholePrefix (loc n : Text) : Prop := n = loc ∨ ∃ rest, n = loc ++ '/'.toUInt8 :: rest

/-- Among the statements, the last of those whose location is the longest prefix of the target. -/
structure IsLongest (cwd : Text) (statements : List LocationStatement) (n : Text) (i : ℕ)
    (loc : Text) : Prop where
  isAt : IsAt cwd statements i loc
  isPrefix : IsWholePrefix loc n
  longest : ∀ j other, IsAt cwd statements j other → IsWholePrefix other n →
    other.length ≤ loc.length
  last : ∀ j, IsAt cwd statements j loc → j ≤ i

/-- Joined components are a prefix when the components are. -/
theorem isWholePrefix_joinComponents_iff {key dirs : List Text} (hkey : ∀ c ∈ key, IsComponent c)
    (hdirs : ∀ c ∈ dirs, IsComponent c) :
    IsWholePrefix (joinComponents key) (joinComponents dirs) ↔ key <+: dirs := by
  have hkey' : ∀ c ∈ key, '/'.toUInt8 ∉ c := fun c hc => (hkey c hc).1
  have hdirs' : ∀ c ∈ dirs, '/'.toUInt8 ∉ c := fun c hc => (hdirs c hc).1
  constructor
  · intro h
    cases h with
    | inl h => exact joinComponents_injective hdirs' hkey' h ▸ List.prefix_refl _
    | inr h =>
      obtain ⟨rest, h⟩ := h
      have hsplit := splitOn_joinComponents_append hkey' rest
      rw [← h, splitOn_joinComponents hdirs'] at hsplit
      exact ⟨_, (List.cons.inj hsplit).2.symm⟩
  · rintro ⟨rest, rfl⟩
    cases rest with
    | nil => exact .inl (by rw [List.append_nil])
    | cons dir rest => exact .inr ⟨_, joinComponents_append key (dir :: rest)⟩

/-- The parent of joined components has one component less. -/
theorem parentPath_joinComponents (dirs : List Text) {dir : Text} (hdir : IsComponent dir) :
    parentPath (joinComponents (dirs ++ [dir])) =
      if dirs = [] then text "/" else joinComponents dirs := by
  obtain ⟨hslash, hordinary⟩ := hdir
  have hne : dir ≠ [] := by
    rintro rfl
    simp [isOrdinary] at hordinary
  have hdrop : (joinComponents (dirs ++ [dir])).reverse.dropWhile (· ≠ '/'.toUInt8) =
      '/'.toUInt8 :: (joinComponents dirs).reverse := by
    rw [joinComponents_append, joinComponents_cons, joinComponents_nil, List.append_nil,
      List.reverse_append, List.reverse_cons, List.append_assoc, List.dropWhile_append_of_pos]
    · rfl
    · intro c hc
      rw [List.mem_reverse] at hc
      simp only [decide_eq_true_eq]
      exact fun heq => hslash (heq ▸ hc)
  unfold parentPath
  rw [hdrop, List.drop_one, List.tail_cons, List.reverse_reverse]
  by_cases hdirs : dirs = []
  · subst hdirs
    have hroot : '/'.toUInt8 :: dir ≠ text "/" := fun h => hne (List.cons.inj h).2
    simp [hroot]
  · cases dirs with
    | nil => exact absurd rfl hdirs
    | cons first dirs => simp

/-- The search for a location is the search for the longest prefix that has a value. -/
theorem searchPrefixes_joinComponents (server : Server) {dirs : List Text}
    (hdirs : ∀ c ∈ dirs, IsComponent c) {fuel : ℕ} (hfuel : dirs.length < fuel) :
    searchPrefixes server fuel (joinComponents dirs) =
      .ok (search (fun key => server.locationToHandler.lookup (joinComponents key)) dirs) := by
  induction dirs using List.reverseRecOn generalizing fuel with
  | nil =>
    cases fuel with
    | zero => cases hfuel
    | succ fuel => rfl
  | append_singleton dirs dir ih =>
    rw [List.length_append, List.length_singleton] at hfuel
    have hparent := parentPath_joinComponents dirs
      (hdirs dir (List.mem_append_right _ List.mem_cons_self))
    have hhas : hasParentPath (joinComponents (dirs ++ [dir])) = true := by
      rw [hasParentPath, hparent, decide_eq_true_eq]
      split_ifs with hnil
      · exact List.cons_ne_nil _ _
      · cases dirs with
        | nil => exact absurd rfl hnil
        | cons first dirs => exact List.cons_ne_nil _ _
    cases fuel with
    | zero => cases hfuel
    | succ fuel =>
      rw [searchPrefixes, if_pos hhas, search_append_singleton]
      cases server.locationToHandler.lookup (joinComponents (dirs ++ [dir])) with
      | some handler => rfl
      | none =>
        rw [Option.none_or, hparent]
        split_ifs with hnil
        · -- the root directory has no parent, and the empty path is looked up
          subst hnil
          cases fuel with
          | zero => simp at hfuel
          | succ fuel => rfl
        · exact ih (fun c hc => hdirs c (List.mem_append_left _ hc)) (by omega)

/-- A joined path has no fewer bytes than components. -/
private theorem length_le_joinComponents (dirs : List Text) :
    dirs.length ≤ (joinComponents dirs).length := by
  induction dirs with
  | nil => exact Nat.le_refl _
  | cons dir dirs ih =>
    rw [joinComponents_cons, List.length_cons, List.length_cons, List.length_append]
    omega

/-- Of the first components of a path, the longer ones have the longer path. -/
private theorem joinComponents_length_le {key other dirs : List Text} (hkey : key <+: dirs)
    (hother : other <+: dirs) (h : other.length ≤ key.length) :
    (joinComponents other).length ≤ (joinComponents key).length := by
  obtain ⟨rest, rfl⟩ := List.prefix_of_prefix_length_le hother hkey h
  rw [joinComponents_append, List.length_append]
  omega

/-- The location of a statement is a joined path. -/
private theorem IsAt.exists_components {cwd loc : Text} {statements : List LocationStatement}
    {i : ℕ} (h : IsAt cwd statements i loc) :
    ∃ key, (∀ c ∈ key, IsComponent c) ∧ loc = joinComponents key := by
  obtain ⟨d, -, hloc⟩ := h
  exact ⟨_, isComponent_normalComponents _ _, (convertToAbsolutePath_eq_ok_iff.mp hloc).2⟩

variable {fs : FileSystem} {statements : List LocationStatement} {r : Registry} {target n : Text}

/-- What a lookup finds when the tables hold the handlers of the statements: the handler of the
longest location, or nothing when no location is a prefix. -/
theorem Holds.getRequestHandler (h : Holds fs statements r)
    (hn : convertToAbsolutePath r.cwd target = .ok n) :
    ∃ result, r.getRequestHandler target = .ok result ∧
      (result = none ↔ ∀ i loc, IsAt r.cwd statements i loc → ¬ IsWholePrefix loc n) ∧
      ∀ ptr, result = some ptr → ∃ loc, IsLongest r.cwd statements n ptr loc := by
  obtain ⟨-, rfl⟩ := convertToAbsolutePath_eq_ok_iff.mp hn
  have hcomponents := isComponent_normalComponents r.cwd target
  generalize normalComponents r.cwd target = dirs at hn hcomponents
  have hsearch := searchPrefixes_joinComponents r.toServer hcomponents
    (Nat.lt_succ_of_le (length_le_joinComponents dirs))
  refine ⟨search (fun key => r.locationToHandler.lookup (joinComponents key)) dirs, ?_, ?_, ?_⟩
  · rw [Server.getRequestHandler, hn]
    exact hsearch
  · rw [search_eq_none_iff]
    constructor
    · intro hnone i loc hat hprefix
      obtain ⟨key, hkey, rfl⟩ := hat.exists_components
      rw [isWholePrefix_joinComponents_iff hkey hcomponents] at hprefix
      exact h.registered _ i hat (hnone key hprefix)
    · intro hall key hkey
      cases hlookup : r.locationToHandler.lookup (joinComponents key) with
      | none => rfl
      | some ptr =>
        have hparts : ∀ c ∈ key, IsComponent c := fun c hc => hcomponents c (hkey.subset hc)
        have hprefix := (isWholePrefix_joinComponents_iff hparts hcomponents).mpr hkey
        exact absurd hprefix (hall ptr _ (h.located _ _ hlookup).1)
  · intro ptr hptr
    obtain ⟨key, hkey, hvalue, hlongest⟩ := exists_of_search hptr
    have hparts : ∀ c ∈ key, IsComponent c := fun c hc => hcomponents c (hkey.subset hc)
    obtain ⟨hat, hlast⟩ := h.located _ _ hvalue
    refine ⟨_, hat, (isWholePrefix_joinComponents_iff hparts hcomponents).mpr hkey, ?_, hlast⟩
    intro j other hother hprefix
    obtain ⟨key', hkey', rfl⟩ := hother.exists_components
    rw [isWholePrefix_joinComponents_iff hkey' hcomponents] at hprefix
    exact joinComponents_length_le hkey hprefix (hlongest key' hprefix (h.registered _ j hother))

/-- A location in two spellings, below a root location. -/
def twoSpellings : Block Text :=
  oneServer
    (.nested [text "location", text "/echo", text "EchoHandler"] .empty
      (.nested [text "location", text "\"/echo/\"", text "HealthHandler"] .empty
        (.nested [text "location", text "/", text "NotFoundHandler"] .empty .empty)))

/-- End-to-end routing goes to the handler of the longest location of the config. -/
theorem getHandlers_routes {fs : FileSystem} {cwd : Text} {config : Block Text} {r : Registry}
    (hconfig : getHandlers fs config { cwd } = .ok r) {target n : Text}
    (hn : convertToAbsolutePath cwd target = .ok n) :
    ∃ result, r.getRequestHandler target = .ok result ∧
      (result = none ↔
        ∀ i loc, IsAt cwd (locationStatements config) i loc → ¬ IsWholePrefix loc n) ∧
      ∀ ptr, result = some ptr →
        (∃ loc, IsLongest cwd (locationStatements config) n ptr loc) ∧
        ∃ d handler, (locationStatements config)[ptr]? = some d ∧
          r.handlers[ptr]? = some handler ∧ IsBuiltFrom fs cwd handler d ∧
          r.getHandlerType (some ptr) = d.type := by
  obtain ⟨hholds, rfl⟩ := holds_of_getHandlers hconfig
  obtain ⟨result, hresult, hnone, hsome⟩ := hholds.getRequestHandler hn
  refine ⟨result, hresult, hnone, ?_⟩
  intro ptr hptr
  obtain ⟨loc, hlongest⟩ := hsome ptr hptr
  obtain ⟨d, hd, -⟩ := hlongest.isAt
  obtain ⟨handler, hhandler, hbuilt⟩ := hholds.exists_handler hd
  exact ⟨⟨loc, hlongest⟩, d, handler, hd, hhandler, hbuilt, hholds.getHandlerType hd⟩

/-- Of two spellings of a location, the later one has the handler. -/
theorem getHandlers_routes_twoSpellings :
    ∃ r : Registry, getHandlers ⟨fun _ => false, fun _ => none⟩ twoSpellings {} = .ok r ∧
      r.getRequestHandler (text "/echo/me") = .ok (some 1) ∧
      r.getHandlerType (some 1) = text "HealthHandler" := by
  have hroute (r : Registry) (hconfig : getHandlers ⟨fun _ => false, fun _ => none⟩ twoSpellings {}
      = .ok r) (hr : r.getRequestHandler (text "/echo/me") = .ok (some 1)) :
      r.getHandlerType (some 1) = text "HealthHandler" := by
    obtain ⟨result, hresult, -, hsome⟩ := getHandlers_routes hconfig
      (show convertToAbsolutePath (text "/") (text "/echo/me") = .ok (text "/echo/me") from rfl)
    obtain ⟨-, d, -, hd, -, -, htype⟩ := hsome 1 (Except.ok.inj (hresult.symm.trans hr))
    rw [htype, ← Option.some.inj (show _ = some d from hd)]
  exact ⟨_, rfl, rfl, hroute _ rfl rfl⟩

end Aite.Routing
