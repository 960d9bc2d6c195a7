import Aite.Http.ErrorPage
import Aite.Lib.LexicalPath
import Aite.Routing.LongestLocation

/-!
# Serving static files

The router normalises the target with a stack of components. The handler takes the target as
it came, makes it relative to its location, and puts the result behind its root. Where the two
read a target differently, the relative path is empty; otherwise it is the rest of the
components that the router saw. Either way the path that is opened stays inside the root.
-/

namespace Aite.Handlers

open BlockGrammar Config Http LexicalPath Routing

/-- `p.extension()` of a path. -/
def extension (uri : Text) : Text :=
  let name := (uri.reverse.takeWhile (· ≠ '/'.toUInt8)).reverse
  if name = text "." ∨ name = text ".." ∨ '.'.toUInt8 ∉ name then []
  else '.'.toUInt8 :: (name.reverse.takeWhile (· ≠ '.'.toUInt8)).reverse

/-- The MIME types of the file extensions. -/
def contentTypes : List (Text × Text) :=
  [(".txt", "text/plain"), (".html", "text/html"), (".jpeg", "image/jpeg"), (".png", "image/png"),
    (".zip", "application/zip"), (".css", "text/css"), (".js", "text/javascript")].map
      fun entry => (text entry.1, text entry.2)

/-- Parse the content type of the requested file. -/
def parseContentTypeFromUri (uri : Text) : Text :=
  (contentTypes.lookup (extension uri)).getD (text "text/plain")

namespace StaticFileRequestHandler

/-- Parse relative file path of requested file. -/
def parsePathFromUri (h : StaticFileRequestHandler) (uri : Text) : Text :=
  h.root ++ relative '/'.toUInt8 '.'.toUInt8 uri h.location

/-- Serves requested static file to client. -/
def handleRequest {B : Beast} (fs : FileSystem) (h : StaticFileRequestHandler) (req : Request B) :
    Response B :=
  let contentType := parseContentTypeFromUri req.target
  match fs.contents (h.parsePathFromUri req.target) with
  | none => showErrorPage B 404 (text "File " ++ req.target ++ text " not found")
  | some content =>
    { result := 200
      fields := B.set (B.set B.empty (text "Content-Type") contentType)
        (text "Content-Length") (text (toString content.length))
      body := content }

end StaticFileRequestHandler

/-- The normal form of a path. -/
def normalPath (path : Text) : Parts UInt8 := normalForm '/'.toUInt8 '.'.toUInt8 path

/-- The normal form of the path is that of the root, followed by ordinary components. -/
def LiesInside (root path : Text) : Prop :=
  (normalPath path).rootName = (normalPath root).rootName ∧
    (normalPath path).rooted = (normalPath root).rooted ∧
      ∃ names, (∀ c ∈ names, IsComponent c) ∧
        (normalPath path).names = (normalPath root).names ++ names

/-- The normalised root that a location block configures. -/
def configuredRoot (cwd : Text) (config : Block Text) : Run Text := do
  let value ← firstValue (configLookup config [] (text "root"))
  convertToAbsolutePath cwd value

/-! ## The two ways to normalise -/

/-- Below a root, a name is resolved as the router resolves a component. -/
private theorem resolveName_eq {start : List Text} (h : ∀ c ∈ start, IsComponent c) {dir : Text}
    (hdir : dir ≠ []) : resolveName '.'.toUInt8 true start dir = resolve start dir := by
  have hdot : ['.'.toUInt8] = text "." := rfl
  have hdotdot : ['.'.toUInt8, '.'.toUInt8] = text ".." := rfl
  unfold resolveName resolve
  rw [hdotdot, hdot]
  by_cases hup : dir = text ".."
  · have hdots : text ".." ≠ text "." := by decide
    rw [hup, if_neg hdots, if_pos rfl, if_pos rfl]
    cases hlast : start.getLast? with
    | none =>
      rw [List.getLast?_eq_none_iff.mp hlast]
      rfl
    | some last =>
      have hcomponent := isComponent_ne (h last (List.mem_of_getLast? hlast))
      exact if_neg hcomponent.2.2
  · rw [if_neg hup, if_neg hup]
    simp only [hdir, or_false]

/-- Below a root, names are resolved as the router resolves components. -/
theorem foldl_resolveName (dirs : List Text) {start : List Text} (h : ∀ c ∈ start, IsComponent c)
    (hdirs : ∀ dir ∈ dirs, '/'.toUInt8 ∉ dir) :
    (dirs.filter (· ≠ [])).foldl (resolveName '.'.toUInt8 true) start = dirs.foldl resolve start := by
  induction dirs generalizing start with
  | nil => rfl
  | cons dir dirs ih =>
    have hrest : ∀ d ∈ dirs, '/'.toUInt8 ∉ d := fun d hd => hdirs d (List.mem_cons_of_mem _ hd)
    have hstep := isComponent_resolve h (hdirs dir List.mem_cons_self)
    rw [List.foldl_cons, ← ih hstep hrest]
    by_cases hdir : dir = []
    · subst hdir
      rfl
    · rw [List.filter_cons_of_pos (by simpa using hdir), List.foldl_cons, resolveName_eq h hdir]

/-- Where the path begins with one slash, or with more than two, the normal form has the
components that the router sees. -/
theorem normalPath_of_rooted (cwd : Text) {uri : Text} (h : uri.head? = some '/'.toUInt8)
    (hroot : hasRootName '/'.toUInt8 uri = false) :
    (normalPath uri).rootName = [] ∧ (normalPath uri).rooted = true ∧
      (normalPath uri).names = normalComponents cwd uri := by
  have hrooted : (uri.head? = some '/'.toUInt8 : Bool) = true := by simp [h]
  rw [normalPath, normalForm_eq '.'.toUInt8 hroot]
  refine ⟨rfl, hrooted, ?_⟩
  change (namesOf '/'.toUInt8 uri).foldl
    (resolveName '.'.toUInt8 (uri.head? = some '/'.toUInt8 : Bool)) [] = _
  rw [hrooted, normalComponents, components_of_rooted h]
  exact foldl_resolveName _ (fun _ hc => absurd hc List.not_mem_nil)
    (fun _ => slash_notMem_of_mem_splitOn)

/-- Joined components begin with one slash. -/
theorem hasRootName_joinComponents {dirs : List Text} (h : ∀ c ∈ dirs, IsComponent c)
    (hdirs : dirs ≠ []) (rest : Text) :
    (joinComponents dirs ++ rest).head? = some '/'.toUInt8 ∧
      hasRootName '/'.toUInt8 (joinComponents dirs ++ rest) = false := by
  cases dirs with
  | nil => exact absurd rfl hdirs
  | cons dir dirs =>
    have hdir := h dir List.mem_cons_self
    cases dir with
    | nil => exact absurd rfl (isComponent_ne hdir).1
    | cons c dir =>
      have hc : ¬ c = '/'.toUInt8 := fun heq => hdir.1 (heq ▸ List.mem_cons_self)
      refine ⟨rfl, ?_⟩
      simp [hasRootName, hc]

/-- The names in joined components. -/
theorem namesOf_joinComponents {dirs : List Text} (h : ∀ c ∈ dirs, IsComponent c) :
    namesOf '/'.toUInt8 (joinComponents dirs) = dirs := by
  rw [namesOf, splitOn_joinComponents fun c hc => (h c hc).1, List.filter_cons_of_neg (by simp),
    List.filter_eq_self]
  intro c hc
  simpa using (isComponent_ne (h c hc)).1

/-- The elements of joined components. -/
theorem elements_joinComponents {dirs : List Text} (h : ∀ c ∈ dirs, IsComponent c)
    (hdirs : dirs ≠ []) :
    (normalPath (joinComponents dirs)).elements '/'.toUInt8 '.'.toUInt8 = text "/" :: dirs := by
  have hslash : ∀ c ∈ dirs, '/'.toUInt8 ∉ c := fun c hc => (h c hc).1
  have hstart := hasRootName_joinComponents h hdirs []
  rw [List.append_nil] at hstart
  obtain ⟨hname, hrooted, hnames⟩ := normalPath_of_rooted (text "/") hstart.1 hstart.2
  have hcomponents : (normalPath (joinComponents dirs)).names = dirs := by
    rw [hnames, normalComponents, components_of_rooted hstart.1, splitOn_joinComponents hslash,
      List.foldl_cons]
    exact foldl_resolve_components h []
  have htrailing : (normalPath (joinComponents dirs)).trailing = false := by
    have hfilter := namesOf_joinComponents h
    have hdot : dirs.getLast? ≠ some ['.'.toUInt8] := fun hlast =>
      (isComponent_ne (h _ (List.mem_of_getLast? hlast))).2.1 rfl
    rw [normalPath, normalForm_eq '.'.toUInt8 hstart.2]
    simp [Parts.normal, splitBehind, hfilter, hdot, getLast?_joinComponents h, hstart.1]
  rw [Parts.elements, hname, hrooted, hcomponents, htrailing, if_pos rfl, if_pos rfl]
  simp only [Bool.false_eq_true, if_false, List.append_nil, List.nil_append]
  rfl

/-- The elements of a rooted target are those of the location, the components behind it, and a dot
for a slash at the end. -/
private theorem elements_rooted {cwd target : Text} {key rest : List Text}
    (hrooted : target.head? = some '/'.toUInt8) (hname : hasRootName '/'.toUInt8 target = false)
    (hrest : key ++ rest = normalComponents cwd target) :
    ∃ dots : List Text, (∀ c ∈ dots, c = text ".") ∧
      (normalPath target).elements '/'.toUInt8 '.'.toUInt8 =
        (text "/" :: key) ++ (rest ++ dots) := by
  obtain ⟨hname, hroot, hnames⟩ := normalPath_of_rooted cwd hrooted hname
  refine ⟨if (normalPath target).trailing then [text "."] else [], ?_, ?_⟩
  · intro c hc
    split_ifs at hc
    · exact List.mem_singleton.mp hc
    · exact absurd hc List.not_mem_nil
  · rw [Parts.elements, hname, hroot, hnames, ← hrest, if_pos rfl, if_pos rfl]
    simp only [List.nil_append, List.append_assoc, List.cons_append]
    rfl

/-- A target relative to its location, by the elements of both. -/
private theorem relative_eq_elements {key : List Text} (hkey : ∀ c ∈ key, IsComponent c)
    (hnil : key ≠ []) (target : Text) :
    relative '/'.toUInt8 '.'.toUInt8 target (joinComponents key) = joinNames '/'.toUInt8
      (relativeElements '.'.toUInt8 ((normalPath target).elements '/'.toUInt8 '.'.toUInt8)
        (text "/" :: key)) := by
  rw [← elements_joinComponents hkey hnil]
  rfl

/-- Relative to its location, a target is a sequence of components and dots. The components are what
the router saw behind the location, when the location is not the root and the target begins with
a slash and does not name a host; otherwise there are none. -/
theorem exists_relativeNames {cwd target : Text} {key rest : List Text}
    (hkey : ∀ c ∈ key, IsComponent c) (hrest : key ++ rest = normalComponents cwd target) :
    ∃ names, relative '/'.toUInt8 '.'.toUInt8 target (joinComponents key) =
        joinNames '/'.toUInt8 names ∧ (∀ c ∈ names, IsComponent c ∨ c = text ".") ∧
      names.filter (· ≠ text ".") =
        if key ≠ [] ∧ target.head? = some '/'.toUInt8 ∧ hasRootName '/'.toUInt8 target = false
        then rest else [] := by
  by_cases hnil : key = []
  · -- the root location is the empty path
    subst hnil
    refine ⟨[], ?_, fun c hc => absurd hc List.not_mem_nil, (if_neg fun h => h.1 rfl).symm⟩
    have hempty : (normalForm '/'.toUInt8 '.'.toUInt8 (joinComponents [])).elements '/'.toUInt8
        '.'.toUInt8 = [] := rfl
    rw [relative, relativeElements_of_head_ne _ (.inr hempty)]
  · rw [relative_eq_elements hkey hnil]
    by_cases hrooted : target.head? = some '/'.toUInt8 ∧ hasRootName '/'.toUInt8 target = false
    · obtain ⟨dots, hdots, helements⟩ := elements_rooted hrooted.1 hrooted.2 hrest
      have hcomponents : ∀ c ∈ rest, IsComponent c := fun c hc =>
        isComponent_normalComponents cwd target c (hrest ▸ List.mem_append_right _ hc)
      have hmem : ∀ c ∈ rest ++ dots, IsComponent c ∨ c = text "." := by
        intro c hc
        rw [List.mem_append] at hc
        exact hc.imp (hcomponents c) (hdots c)
      have hfilter : (rest ++ dots).filter (· ≠ text ".") = rest := by
        have hkept : rest.filter (· ≠ text ".") = rest := by
          rw [List.filter_eq_self]
          intro c hc
          simpa using (isComponent_ne (hcomponents c hc)).2.1
        have hdropped : dots.filter (· ≠ text ".") = [] := by
          rw [List.filter_eq_nil_iff]
          intro c hc
          simp [hdots c hc]
        rw [List.filter_append, hkept, hdropped, List.append_nil]
      have hserved : (if key ≠ [] ∧ target.head? = some '/'.toUInt8 ∧
          hasRootName '/'.toUInt8 target = false then rest else []) = rest := if_pos ⟨hnil, hrooted⟩
      rw [helements, relativeElements_append _ (List.cons_ne_nil _ _), hserved]
      by_cases hnone : rest ++ dots = []
      · rw [if_pos hnone, (List.append_eq_nil_iff.mp hnone).1]
        exact ⟨_, rfl, fun c hc => .inr (List.mem_singleton.mp hc), rfl⟩
      · rw [if_neg hnone]
        exact ⟨_, rfl, hmem, hfilter⟩
    · -- a target that the router completes or unquotes has nothing in common with the location
      have hdot : '.'.toUInt8 ≠ '/'.toUInt8 := by decide
      have hhead := head?_elements_ne hdot target fun h => by simpa [h] using hrooted
      rw [relativeElements_of_head_ne _ (.inl hhead), if_neg fun h => hrooted h.2]
      exact ⟨[], rfl, fun c hc => absurd hc List.not_mem_nil, rfl⟩

/-- Relative to its location, a target is a sequence of components and dots, whatever its
spelling: what the router saw behind the location, or nothing. -/
theorem exists_relative {cwd target : Text} {key : List Text} (hkey : ∀ c ∈ key, IsComponent c)
    (hbegins : key <+: normalComponents cwd target) :
    ∃ names, relative '/'.toUInt8 '.'.toUInt8 target (joinComponents key) =
        joinNames '/'.toUInt8 names ∧ ∀ c ∈ names, IsComponent c ∨ c = text "." := by
  obtain ⟨rest, hrest⟩ := hbegins
  obtain ⟨names, hrelative, hnames, -⟩ := exists_relativeNames hkey hrest
  exact ⟨names, hrelative, hnames⟩

/-- Components and dots resolve to the components. -/
private theorem foldl_resolve_dots {names : List Text} (h : ∀ c ∈ names, IsComponent c ∨ c = text ".")
    (start : List Text) : names.foldl resolve start = start ++ names.filter (· ≠ text ".") := by
  induction names generalizing start with
  | nil => rw [List.foldl_nil, List.filter_nil, List.append_nil]
  | cons c names ih =>
    have hrest := ih fun d hd => h d (List.mem_cons_of_mem _ hd)
    rw [List.foldl_cons, hrest]
    cases h c List.mem_cons_self with
    | inl hc =>
      obtain ⟨hne, hdot, hup⟩ := isComponent_ne hc
      rw [resolve, if_neg hup, if_neg (not_or.mpr ⟨hdot, hne⟩),
        List.filter_cons_of_pos (by simpa using hdot), List.append_assoc, List.singleton_append]
    | inr hc =>
      subst hc
      rw [List.filter_cons_of_neg (by simp)]
      rfl

/-- Components and dots behind a directory stay inside it. -/
theorem liesInside_append {dirs names : List Text} (hdirs : ∀ c ∈ dirs, IsComponent c)
    (hne : dirs ≠ []) (hnames : ∀ c ∈ names, IsComponent c ∨ c = text ".") :
    LiesInside (joinComponents dirs)
      (joinComponents dirs ++ text "/" ++ joinNames '/'.toUInt8 names) := by
  have hslash : ∀ c ∈ dirs, '/'.toUInt8 ∉ c := fun c hc => (hdirs c hc).1
  have hroot := hasRootName_joinComponents hdirs hne []
  rw [List.append_nil] at hroot
  have hpath := hasRootName_joinComponents hdirs hne (text "/" ++ joinNames '/'.toUInt8 names)
  rw [← List.append_assoc] at hpath
  obtain ⟨hrname, hrrooted, hrnames⟩ := normalPath_of_rooted (text "/") hroot.1 hroot.2
  obtain ⟨hpname, hprooted, hpnames⟩ := normalPath_of_rooted (text "/") hpath.1 hpath.2
  refine ⟨hpname.trans hrname.symm, hprooted.trans hrrooted.symm,
    names.filter (· ≠ text "."), ?_, ?_⟩
  · intro c hc
    have hmem := hnames c (List.mem_of_mem_filter hc)
    exact hmem.resolve_right (by simpa using List.of_mem_filter hc)
  · have hjoined : ((joinNames '/'.toUInt8 names).splitOn '/'.toUInt8).foldl resolve dirs =
        dirs ++ names.filter (· ≠ text ".") := by
      by_cases hnil : names = []
      · subst hnil
        exact (List.append_nil _).symm
      · rw [joinNames, List.splitOn_intercalate _ _ hnil, foldl_resolve_dots hnames]
        intro c hc
        cases hnames c hc with
        | inl hc => exact hc.1
        | inr hc =>
          rw [hc]
          decide
    have hsplit : (joinComponents dirs ++ text "/" ++ joinNames '/'.toUInt8 names).splitOn
        '/'.toUInt8 = [] :: (dirs ++ (joinNames '/'.toUInt8 names).splitOn '/'.toUInt8) := by
      rw [List.append_assoc]
      exact splitOn_joinComponents_append hslash _
    rw [hpnames, hrnames, normalComponents, normalComponents, components_of_rooted hpath.1,
      components_of_rooted hroot.1, hsplit, splitOn_joinComponents hslash, List.foldl_cons,
      List.foldl_cons, List.foldl_append]
    change ((joinNames '/'.toUInt8 names).splitOn '/'.toUInt8).foldl resolve (dirs.foldl resolve []) =
      dirs.foldl resolve [] ++ _
    rw [foldl_resolve_components hdirs [], List.nil_append, hjoined]

/-! ## Serving inside the root -/

/-- The root of a static handler whose configured root is a directory. -/
theorem root_of_new {fs : FileSystem} {cwd loc root : Text} {config : Block Text}
    {h : StaticFileRequestHandler} (hnew : newStaticFileRequestHandler fs cwd loc config = .ok h)
    (hroot : configuredRoot cwd config = .ok root) (hdir : fs.isDirectory root = true) :
    h.location = loc ∧ ∃ dirs, (∀ c ∈ dirs, IsComponent c) ∧ dirs ≠ [] ∧
      root = joinComponents dirs ∧ h.root = root ++ text "/" := by
  unfold newStaticFileRequestHandler at hnew
  unfold configuredRoot at hroot
  obtain ⟨value, hvalue, hroot⟩ := run_bind_eq_ok.mp hroot
  rw [hvalue, run_ok_bind] at hnew
  have hdirs := (convertToAbsolutePath_eq_ok_iff.mp hroot).2
  rw [setRootPath, hroot, run_ok_bind, if_pos hdir] at hnew
  have hcomponents := isComponent_normalComponents cwd value
  generalize normalComponents cwd value = dirs at hdirs hcomponents
  cases hlast : root.getLast? with
  | none =>
    rw [hlast] at hnew
    cases hnew
  | some c =>
    have hslash : c ≠ '/'.toUInt8 := by
      intro heq
      rw [heq, hdirs] at hlast
      exact getLast?_joinComponents hcomponents hlast
    rw [hlast] at hnew
    change (.ok _ : Run StaticFileRequestHandler) = .ok h at hnew
    rw [if_pos hslash] at hnew
    cases hnew
    refine ⟨rfl, dirs, hcomponents, ?_, hdirs, rfl⟩
    rintro rfl
    rw [hdirs] at hlast
    cases hlast

section Routed

variable {fs : FileSystem} {cwd : Text} {config : Block Text} {r : Registry} {target root : Text}
  {ptr : HandlerPtr} {d : LocationStatement} {h : StaticFileRequestHandler}

/-- What the router and the constructors establish for a target that is sent to a static handler
whose configured root is a directory. -/
theorem exists_of_routed (hconfig : getHandlers fs config { cwd } = .ok r)
    (hroute : r.getRequestHandler target = .ok (some ptr))
    (hd : (locationStatements config)[ptr]? = some d)
    (hhandler : r.handlers[ptr]? = some (.staticFile h))
    (hroot : configuredRoot cwd d.config = .ok root) (hdir : fs.isDirectory root = true) :
    normalComponents cwd d.location <+: normalComponents cwd target ∧
      h.location = joinComponents (normalComponents cwd d.location) ∧
      ∃ dirs, (∀ c ∈ dirs, IsComponent c) ∧ dirs ≠ [] ∧ root = joinComponents dirs ∧
        h.root = root ++ text "/" := by
  obtain ⟨hholds, rfl⟩ := holds_of_getHandlers hconfig
  obtain ⟨n, hn⟩ := normalises_of_routed hroute
  obtain ⟨result, hresult, -, hsome⟩ := hholds.getRequestHandler hn
  obtain ⟨loc, hlongest⟩ := hsome ptr (Except.ok.inj (hresult.symm.trans hroute))
  obtain ⟨d', hd', hloc⟩ := hlongest.isAt
  cases hd.symm.trans hd'
  obtain ⟨handler, hhandler', loc', hloc', hconstruct⟩ := hholds.exists_handler hd
  cases hhandler.symm.trans hhandler'
  cases hloc.symm.trans hloc'
  obtain ⟨hlocation, hdirs⟩ := root_of_new (construct_cases hconstruct) hroot hdir
  have hkey := isComponent_normalComponents r.cwd d.location
  obtain rfl := (convertToAbsolutePath_eq_ok_iff.mp hloc).2
  have hbegins := hlongest.isPrefix
  rw [(convertToAbsolutePath_eq_ok_iff.mp hn).2, isWholePrefix_joinComponents_iff hkey
    (isComponent_normalComponents r.cwd target)] at hbegins
  exact ⟨hbegins, hlocation, hdirs⟩

end Routed

/-- Static serving cannot leave its root: the path that is opened for a target that the router
sends to a static handler lies inside the directory of the handler's root. -/
theorem parsePathFromUri_liesInside {fs : FileSystem} {cwd : Text} {config : Block Text}
    {r : Registry} (hconfig : getHandlers fs config { cwd } = .ok r) {target : Text}
    {ptr : HandlerPtr} (hroute : r.getRequestHandler target = .ok (some ptr))
    {d : LocationStatement} (hd : (locationStatements config)[ptr]? = some d)
    {h : StaticFileRequestHandler} (hhandler : r.handlers[ptr]? = some (.staticFile h))
    {root : Text} (hroot : configuredRoot cwd d.config = .ok root)
    (hdir : fs.isDirectory root = true) : LiesInside root (h.parsePathFromUri target) := by
  obtain ⟨hbegins, hlocation, dirs, hdirs, hne, rfl, hroot'⟩ :=
    exists_of_routed hconfig hroute hd hhandler hroot hdir
  obtain ⟨names, hrelative, hnames⟩ :=
    exists_relative (isComponent_normalComponents cwd d.location) hbegins
  rw [StaticFileRequestHandler.parsePathFromUri, hlocation, hrelative, hroot']
  exact liesInside_append hdirs hne hnames

/-- A static location whose root is an existing directory. -/
def staticConfig : Block Text :=
  oneServer
    (.nested [text "location", text "/static", text "StaticHandler"]
      (.simple [text "root", text "/srv"] .empty) .empty)

/-- A file system with one directory. -/
def onlySrv : FileSystem := ⟨fun path => path = text "/srv", fun _ => none⟩

/-- A target with steps up and doubled slashes is served from inside the root. -/
theorem parsePathFromUri_liesInside_hostile :
    ∃ (r : Registry) (h : StaticFileRequestHandler), getHandlers onlySrv staticConfig {} = .ok r ∧
      r.getRequestHandler (text "/etc/..//static/./../static/passwd") = .ok (some 0) ∧
      r.handlers[0]? = some (.staticFile h) ∧
      LiesInside (text "/srv") (h.parsePathFromUri (text "/etc/..//static/./../static/passwd")) := by
  have hserved (r : Registry) (h : StaticFileRequestHandler)
      (hconfig : getHandlers onlySrv staticConfig {} = .ok r)
      (hroute : r.getRequestHandler (text "/etc/..//static/./../static/passwd") = .ok (some 0))
      (hhandler : r.handlers[0]? = some (.staticFile h)) :
      LiesInside (text "/srv")
        (h.parsePathFromUri (text "/etc/..//static/./../static/passwd")) :=
    parsePathFromUri_liesInside hconfig hroute rfl hhandler rfl rfl
  exact ⟨_, _, rfl, rfl, rfl, hserved _ _ rfl rfl rfl⟩

end Aite.Handlers
