import Aite.Handlers.StaticFile

/-!
# The file that a target names

The router finds the location of a static handler in the components of the normalised target,
and the file should be the one that the remaining components name below the root. The handler
computes the remainder anew, from the target as it came and the stored location. Where the
library function has no common beginning to go by, the result is the root itself: for the root
location, which is stored as the empty path, and for targets that the router unquotes or
completes, or that begin with the name of a host.
-/

namespace Aite.Handlers

open BlockGrammar Config Http LexicalPath Routing

/-- The components of the normalised target behind those of the location. -/
def remaining (cwd location target : Text) : List Text :=
  (normalComponents cwd target).drop (normalComponents cwd location).length

/-- The components of a path, less the dots. -/
def pathNames (path : Text) : List Text := (namesOf '/'.toUInt8 path).filter (· ≠ text ".")

/-- A path leads from the root directory over the components of another to these components. -/
structure LeadsTo (root : Text) (names : List Text) (path : Text) : Prop where
  rooted : path.head? = some '/'.toUInt8
  names : pathNames path = pathNames root ++ names

/-- The handler reads a target as the router does: its location is not the root, and the target
begins with a slash and not with the name of a host. -/
def ReadsAlike (cwd location target : Text) : Prop :=
  normalComponents cwd location ≠ [] ∧ target.head? = some '/'.toUInt8 ∧
    hasRootName '/'.toUInt8 target = false

instance (cwd location target : Text) : Decidable (ReadsAlike cwd location target) :=
  inferInstanceAs (Decidable (_ ∧ _ ∧ _))

/-- Components are not dots. -/
private theorem filter_components {dirs : List Text} (hdirs : ∀ c ∈ dirs, IsComponent c) :
    dirs.filter (· ≠ text ".") = dirs := by
  rw [List.filter_eq_self]
  intro c hc
  simpa using (isComponent_ne (hdirs c hc)).2.1

/-- The names in joined components are the components. -/
theorem pathNames_joinComponents {dirs : List Text} (hdirs : ∀ c ∈ dirs, IsComponent c) :
    pathNames (joinComponents dirs) = dirs := by
  rw [pathNames, namesOf_joinComponents hdirs, filter_components hdirs]

/-- Behind joined components and a slash, joined names add the names that are no dots. -/
theorem pathNames_append {dirs names : List Text} (hdirs : ∀ c ∈ dirs, IsComponent c)
    (hnames : ∀ c ∈ names, IsComponent c ∨ c = text ".") :
    pathNames (joinComponents dirs ++ text "/" ++ joinNames '/'.toUInt8 names) =
      dirs ++ names.filter (· ≠ text ".") := by
  have hslash : ∀ c ∈ names, '/'.toUInt8 ∉ c := by
    intro c hc
    cases hnames c hc with
    | inl hc => exact hc.1
    | inr hc =>
      rw [hc]
      decide
  have hne : ∀ c ∈ names, c ≠ [] := by
    intro c hc
    cases hnames c hc with
    | inl hc => exact (isComponent_ne hc).1
    | inr hc =>
      rw [hc]
      decide
  have hsplit : namesOf '/'.toUInt8 (joinComponents dirs ++ text "/" ++ joinNames '/'.toUInt8 names) =
      dirs ++ names := by
    rw [List.append_assoc]
    change namesOf '/'.toUInt8 (joinComponents dirs ++ '/'.toUInt8 :: joinNames '/'.toUInt8 names) = _
    rw [namesOf_append_sep, namesOf_joinComponents hdirs, namesOf_joinNames hslash hne]
  rw [pathNames, hsplit, List.filter_append, filter_components hdirs]

/-- The path that is opened for a routed target is the one that the remaining components name
exactly when there are none, or the handler reads the target as the router does. -/
theorem parsePathFromUri_leadsTo_iff {fs : FileSystem} {cwd : Text} {config : Block Text}
    {r : Registry} (hconfig : getHandlers fs config { cwd } = .ok r) {target : Text}
    {ptr : HandlerPtr} (hroute : r.getRequestHandler target = .ok (some ptr))
    {d : LocationStatement} (hd : (locationStatements config)[ptr]? = some d)
    {h : StaticFileRequestHandler} (hhandler : r.handlers[ptr]? = some (.staticFile h))
    {root : Text} (hroot : configuredRoot cwd d.config = .ok root)
    (hdir : fs.isDirectory root = true) :
    LeadsTo root (remaining cwd d.location target) (h.parsePathFromUri target) ↔
      remaining cwd d.location target = [] ∨ ReadsAlike cwd d.location target := by
  obtain ⟨⟨rest, hrest⟩, hlocation, dirs, hdirs, hne, rfl, hroot'⟩ :=
    exists_of_routed hconfig hroute hd hhandler hroot hdir
  obtain ⟨names, hrelative, hnames, hfilter⟩ :=
    exists_relativeNames (isComponent_normalComponents cwd d.location) hrest
  have hremaining : remaining cwd d.location target = rest := by
    rw [remaining, ← hrest, List.drop_left]
  have hopened : h.parsePathFromUri target =
      joinComponents dirs ++ text "/" ++ joinNames '/'.toUInt8 names := by
    rw [StaticFileRequestHandler.parsePathFromUri, hlocation, hrelative, hroot']
  have hrooted : (h.parsePathFromUri target).head? = some '/'.toUInt8 := by
    rw [hopened, List.append_assoc]
    exact (hasRootName_joinComponents hdirs hne _).1
  have hpath : pathNames (h.parsePathFromUri target) =
      dirs ++ if ReadsAlike cwd d.location target then rest else [] := by
    rw [hopened, pathNames_append hdirs hnames, hfilter]
    rfl
  rw [hremaining]
  constructor
  · intro hleads
    have hsame := hleads.names
    rw [hpath, pathNames_joinComponents hdirs] at hsame
    have hrest := List.append_cancel_left hsame
    by_cases halike : ReadsAlike cwd d.location target
    · exact .inr halike
    · rw [if_neg halike] at hrest
      exact .inl hrest.symm
  · intro hcondition
    refine ⟨hrooted, ?_⟩
    rw [hpath, pathNames_joinComponents hdirs]
    by_cases halike : ReadsAlike cwd d.location target
    · rw [if_pos halike]
    · rw [if_neg halike, hcondition.resolve_right halike]

/-- A directory that is served at the root location. -/
def rootConfig : Block Text :=
  oneServer
    (.nested [text "location", text "/", text "StaticHandler"]
      (.simple [text "root", text "/srv"] .empty) .empty)

/-- A file below a location is the one that the rest of the target names. -/
theorem parsePathFromUri_leadsTo_below :
    ∃ (r : Registry) (h : StaticFileRequestHandler), getHandlers onlySrv staticConfig {} = .ok r ∧
      r.getRequestHandler (text "/static/a/../b.txt") = .ok (some 0) ∧
      r.handlers[0]? = some (.staticFile h) ∧
      (LeadsTo (text "/srv") (remaining (text "/") (text "/static") (text "/static/a/../b.txt"))
          (h.parsePathFromUri (text "/static/a/../b.txt")) ↔
        remaining (text "/") (text "/static") (text "/static/a/../b.txt") = [] ∨
          ReadsAlike (text "/") (text "/static") (text "/static/a/../b.txt")) := by
  have hserved (r : Registry) (h : StaticFileRequestHandler)
      (hconfig : getHandlers onlySrv staticConfig {} = .ok r)
      (hroute : r.getRequestHandler (text "/static/a/../b.txt") = .ok (some 0))
      (hhandler : r.handlers[0]? = some (.staticFile h)) :=
    parsePathFromUri_leadsTo_iff hconfig hroute rfl hhandler rfl rfl
  exact ⟨_, _, rfl, rfl, rfl, hserved _ _ rfl rfl rfl⟩

/-- At the root location the directory itself is opened instead of a file in it. -/
theorem not_parsePathFromUri_leadsTo_root :
    ¬ ∀ (r : Registry) (h : StaticFileRequestHandler),
      getHandlers onlySrv rootConfig {} = .ok r →
      r.getRequestHandler (text "/index.html") = .ok (some 0) →
      r.handlers[0]? = some (.staticFile h) →
        LeadsTo (text "/srv") (remaining (text "/") (text "/") (text "/index.html"))
          (h.parsePathFromUri (text "/index.html")) := by
  intro h
  exact absurd (h _ _ rfl rfl rfl).names (by decide)

end Aite.Handlers
