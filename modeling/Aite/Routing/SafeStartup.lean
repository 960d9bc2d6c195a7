import Aite.Config.FieldLookup
import Aite.Config.ParseTree
import Aite.Lib.BlockWords
import Aite.Routing.Table

/-!
# Creating the handlers of an accepted config

A location is well-formed if each field that its handler takes from its block is listed once and
has a value. Nothing in the constructors turns a location away: a field that is missing or has no
value is an access to an empty vector, behind a message in the log, and of a field that is listed
several times the first one is taken. So the handlers of exactly the well-formed locations are
registered only where every location is well-formed and its paths can be normalised.

No word of an accepted config is empty, so that no empty text is indexed.
-/

namespace Aite.Routing

open BlockGrammar Config Handlers

/-- The fields that the handler of a type takes from its block. -/
def requiredFields (type : Text) : List Text :=
  if type = text "StaticHandler" ∨ type = text "MemeHandler" then [text "root"]
  else if type = text "ReverseProxyHandler" then [text "host", text "port"]
  else []

/-- The field is listed once and has a value. -/
def listsOnce (config : Block Text) (name : Text) : Bool :=
  match config.fields name with
  | [_ :: _] => true
  | _ => false

/-- The location lists each field that its handler needs once, with a value. -/
def wellFormed (d : LocationStatement) : Bool :=
  (requiredFields d.type).all (listsOnce d.config)

/-- The texts of a location whose first and last bytes are compared with quotes: the location and
a root. -/
def indexedTexts (d : LocationStatement) : List Text :=
  d.location :: (configLookup d.config [] (text "root")).take 1

/-- The scan of a config runs to its end and registers the handlers of its well-formed locations,
and of no others; and no empty text is indexed on the way. -/
structure RegistersSafely (fs : FileSystem) (cwd : Text) (config : Block Text) : Prop where
  runs : ∃ r, getHandlers fs config { cwd } = .ok r ∧
    Holds fs ((locationStatements config).filter wellFormed) r
  indexed : ∀ d ∈ locationStatements config, ∀ t ∈ indexedTexts d, t ≠ []

/-- The first statement of the field has this first value. -/
def FirstValue (config : Block Text) (name value : Text) : Prop :=
  ∃ values, (config.fields name).head? = some (value :: values)

/-- In the location and the root of a static handler no step up lacks a component to remove. -/
structure PathsBalanced (cwd : Text) (d : LocationStatement) : Prop where
  location : Balanced (components cwd d.location)
  root : d.type = text "StaticHandler" → ∀ value, FirstValue d.config (text "root") value →
    Balanced (components cwd value)

variable {fs : FileSystem} {cwd type loc name value other : Text} {config : Block Text}
  {d : LocationStatement} {r : Registry} {file : Text} {store : Store}

/-! ## What a constructor needs -/

/-- A field has one first value. -/
theorem FirstValue.unique (h : FirstValue config name value) (h' : FirstValue config name other) :
    value = other := by
  obtain ⟨values, hvalue⟩ := h
  obtain ⟨others, hother⟩ := h'
  cases hvalue.symm.trans hother
  rfl

/-- The constructors take the first value of a field. -/
theorem firstValue_eq_ok_iff :
    firstValue (configLookup config [] name) = .ok value ↔ FirstValue config name value := by
  rw [configLookup_eq, Block.firstAt, Option.bind_some, FirstValue]
  cases (config.fields name).head? with
  | none => simp [firstValue]
  | some found =>
    cases found with
    | nil => simp [firstValue]
    | cons first rest => simp [firstValue, eq_comm]

/-- A root can be set if it can be normalised, as long as the empty path is no directory. -/
theorem setRootPath_isOk_iff (hfs : fs.isDirectory [] = false) :
    (∃ root, setRootPath fs cwd value = .ok root) ↔ Balanced (components cwd value) := by
  unfold setRootPath
  constructor
  · intro h
    obtain ⟨root, hroot⟩ := h
    obtain ⟨path, hpath, -⟩ := run_bind_eq_ok.mp hroot
    exact (convertToAbsolutePath_eq_ok_iff.mp hpath).1
  · intro h
    rw [(convertToAbsolutePath_eq_iff cwd value).mpr h, run_ok_bind]
    split_ifs with hdirectory
    · cases hlast : (normalised cwd value).getLast? with
      | none =>
        rw [List.getLast?_eq_none_iff.mp hlast, hfs] at hdirectory
        cases hdirectory
      | some c => exact ⟨_, rfl⟩
    · exact ⟨_, rfl⟩

/-- The constructor of the static file handler needs a root that can be normalised. -/
private theorem newStatic_isOk_iff (hfs : fs.isDirectory [] = false) :
    (∃ handler, newStaticFileRequestHandler fs cwd loc config = .ok handler) ↔
      ∃ value, FirstValue config (text "root") value ∧ Balanced (components cwd value) := by
  constructor
  · intro h
    obtain ⟨handler, hhandler⟩ := h
    obtain ⟨value, hvalue, hhandler⟩ := run_bind_eq_ok.mp hhandler
    obtain ⟨root, hroot, -⟩ := run_bind_eq_ok.mp hhandler
    exact ⟨value, firstValue_eq_ok_iff.mp hvalue, (setRootPath_isOk_iff hfs).mp ⟨root, hroot⟩⟩
  · intro h
    obtain ⟨value, hvalue, hbalanced⟩ := h
    obtain ⟨root, hroot⟩ := (setRootPath_isOk_iff hfs).mpr hbalanced
    rw [newStaticFileRequestHandler, firstValue_eq_ok_iff.mpr hvalue, run_ok_bind, hroot]
    exact ⟨_, rfl⟩

/-- The constructor of the proxy needs a host and a port. -/
private theorem newReverseProxy_isOk_iff :
    (∃ handler, newReverseProxyRequestHandler loc config = .ok handler) ↔
      (∃ value, FirstValue config (text "host") value) ∧
        ∃ value, FirstValue config (text "port") value := by
  constructor
  · intro h
    obtain ⟨handler, hhandler⟩ := h
    obtain ⟨host, hhost, hhandler⟩ := run_bind_eq_ok.mp hhandler
    obtain ⟨port, hport, -⟩ := run_bind_eq_ok.mp hhandler
    exact ⟨⟨host, firstValue_eq_ok_iff.mp hhost⟩, port, firstValue_eq_ok_iff.mp hport⟩
  · intro h
    obtain ⟨⟨host, hhost⟩, port, hport⟩ := h
    rw [newReverseProxyRequestHandler, firstValue_eq_ok_iff.mpr hhost, run_ok_bind,
      firstValue_eq_ok_iff.mpr hport]
    exact ⟨_, rfl⟩

/-- The constructor of the meme handler needs a root. -/
private theorem newMeme_isOk_iff :
    (∃ handler, newMemeHandler config = .ok handler) ↔
      ∃ value, FirstValue config (text "root") value := by
  constructor
  · intro h
    obtain ⟨handler, hhandler⟩ := h
    obtain ⟨root, hroot, -⟩ := run_bind_eq_ok.mp hhandler
    exact ⟨root, firstValue_eq_ok_iff.mp hroot⟩
  · intro h
    obtain ⟨root, hroot⟩ := h
    rw [newMemeHandler, firstValue_eq_ok_iff.mpr hroot]
    exact ⟨_, rfl⟩

/-- A handler is constructed if its constructor returns. -/
private theorem bind_some_isOk_iff {A : Type} {x : Run A} {f : A → Handler} :
    (∃ handler, (x >>= fun a => .ok (some (f a)) : Run (Option Handler)) = .ok (some handler)) ↔
      ∃ a, x = .ok a := by
  cases x with
  | error e => simp
  | ok a => simp

/-- A constructor returns if each field it takes has a first value, and the root of a static
handler can be normalised. -/
theorem construct_isOk_iff (hfs : fs.isDirectory [] = false) (htype : type ∈ handlerTypes) :
    (∃ handler, construct fs cwd type loc config = .ok (some handler)) ↔
      (∀ name ∈ requiredFields type, ∃ value, FirstValue config name value) ∧
      (type = text "StaticHandler" → ∀ value, FirstValue config (text "root") value →
        Balanced (components cwd value)) := by
  have hnone {handler : Handler} (hfields : requiredFields type = [])
      (hstatic : type ≠ text "StaticHandler")
      (hconstruct : construct fs cwd type loc config = .ok (some handler)) :
      (∃ handler, construct fs cwd type loc config = .ok (some handler)) ↔
        (∀ name ∈ requiredFields type, ∃ value, FirstValue config name value) ∧
        (type = text "StaticHandler" → ∀ value, FirstValue config (text "root") value →
          Balanced (components cwd value)) := by
    rw [hfields]
    exact iff_of_true ⟨handler, hconstruct⟩ ⟨nofun, fun h => absurd h hstatic⟩
  simp only [handlerTypes, List.map_cons, List.map_nil, List.mem_cons, List.not_mem_nil,
    or_false] at htype
  rcases htype with rfl | rfl | rfl | rfl | rfl | rfl | rfl | rfl
  · exact hnone (by decide) (by decide) rfl
  · have hfields : requiredFields (text "StaticHandler") = [text "root"] := by decide
    change (∃ handler, (newStaticFileRequestHandler fs cwd loc config >>= fun handler =>
      .ok (some (.staticFile handler)) : Run (Option Handler)) = .ok (some handler)) ↔ _
    rw [bind_some_isOk_iff, newStatic_isOk_iff hfs, hfields]
    simp only [List.mem_singleton, forall_eq, true_imp_iff]
    constructor
    · intro h
      obtain ⟨value, hvalue, hbalanced⟩ := h
      exact ⟨⟨value, hvalue⟩, fun other hother => hvalue.unique hother ▸ hbalanced⟩
    · intro h
      obtain ⟨⟨value, hvalue⟩, hbalanced⟩ := h
      exact ⟨value, hvalue, hbalanced value hvalue⟩
  · have hfields : requiredFields (text "ReverseProxyHandler") = [text "host", text "port"] := by
      decide
    have hother : text "ReverseProxyHandler" ≠ text "StaticHandler" := by decide
    change (∃ handler, (newReverseProxyRequestHandler loc config >>= fun handler =>
      .ok (some (.reverseProxy handler)) : Run (Option Handler)) = .ok (some handler)) ↔ _
    rw [bind_some_isOk_iff, newReverseProxy_isOk_iff, hfields, and_iff_left fun h => absurd h hother]
    simp only [List.mem_cons, List.not_mem_nil, or_false, forall_eq_or_imp, forall_eq]
  · exact hnone (by decide) (by decide) rfl
  · exact hnone (by decide) (by decide) rfl
  · exact hnone (by decide) (by decide) rfl
  · exact hnone (by decide) (by decide) rfl
  · have hfields : requiredFields (text "MemeHandler") = [text "root"] := by decide
    have hother : text "MemeHandler" ≠ text "StaticHandler" := by decide
    change (∃ handler, (newMemeHandler config >>= fun handler =>
      .ok (some (.meme handler.initMeme)) : Run (Option Handler)) = .ok (some handler)) ↔ _
    rw [bind_some_isOk_iff, newMeme_isOk_iff, hfields, and_iff_left fun h => absurd h hother]
    simp only [List.mem_singleton, forall_eq]

/-! ## The scan of a config -/

/-- The handler of a location is registered if it can be constructed. -/
private theorem register_isOk_iff (htype : d.type ∈ handlerTypes) :
    (∃ r', register fs r d = .ok r') ↔ ∃ handler, IsBuiltFrom fs r.cwd handler d := by
  constructor
  · intro h
    obtain ⟨r', hregister⟩ := h
    obtain ⟨loc, handler, hloc, hhandler, -⟩ := register_cases hregister htype
    exact ⟨handler, loc, hloc, hhandler⟩
  · intro h
    obtain ⟨handler, loc, hloc, hhandler⟩ := h
    rw [register, createAndAddHandler, hloc, run_ok_bind, hhandler, run_ok_bind]
    exact ⟨_, rfl⟩

/-- A location that is registered leaves the working directory as it is. -/
private theorem register_cwd {r' : Registry} (h : register fs r d = .ok r')
    (htype : d.type ∈ handlerTypes) : r'.cwd = r.cwd := by
  obtain ⟨loc, handler, -, -, rfl⟩ := register_cases h htype
  rfl

/-- Locations are registered in order if the handler of each can be constructed. -/
private theorem registerAll_isOk_iff {statements : List LocationStatement}
    (htypes : ∀ d ∈ statements, d.type ∈ handlerTypes) :
    (∃ r', statements.foldlM (register fs) r = .ok r') ↔
      ∀ d ∈ statements, ∃ handler, IsBuiltFrom fs r.cwd handler d := by
  induction statements generalizing r with
  | nil => exact iff_of_true ⟨r, rfl⟩ nofun
  | cons d rest ih =>
    have htype := htypes d List.mem_cons_self
    have hrest : ∀ e ∈ rest, e.type ∈ handlerTypes := fun e he =>
      htypes e (List.mem_cons_of_mem _ he)
    rw [List.foldlM_cons, List.forall_mem_cons, ← register_isOk_iff htype]
    constructor
    · intro h
      obtain ⟨last, hlast⟩ := h
      obtain ⟨next, hnext, hlast⟩ := run_bind_eq_ok.mp hlast
      have hall := (ih hrest).mp ⟨last, hlast⟩
      rw [register_cwd hnext htype] at hall
      exact ⟨⟨next, hnext⟩, hall⟩
    · intro h
      obtain ⟨⟨next, hnext⟩, hall⟩ := h
      rw [← register_cwd hnext htype] at hall
      rw [hnext]
      exact (ih hrest).mpr hall

/-- The scan of a config runs to its end if the handler of each location can be constructed. -/
theorem getHandlers_isOk_iff : (∃ r, getHandlers fs config { cwd } = .ok r) ↔
    ∀ d ∈ locationStatements config, ∃ handler, IsBuiltFrom fs cwd handler d := by
  rw [getHandlers_eq]
  exact registerAll_isOk_iff fun d hd => type_mem_of_mem_locationStatements hd

/-- The handler of a location can be constructed if each field it takes has a first value and its
paths can be normalised. -/
theorem exists_isBuiltFrom_iff (hfs : fs.isDirectory [] = false) (htype : d.type ∈ handlerTypes) :
    (∃ handler, IsBuiltFrom fs cwd handler d) ↔
      (∀ name ∈ requiredFields d.type, ∃ value, FirstValue d.config name value) ∧
        PathsBalanced cwd d := by
  constructor
  · intro h
    obtain ⟨handler, loc, hloc, hhandler⟩ := h
    obtain ⟨hfields, hroot⟩ := (construct_isOk_iff hfs htype).mp ⟨handler, hhandler⟩
    exact ⟨hfields, (convertToAbsolutePath_eq_ok_iff.mp hloc).1, hroot⟩
  · intro h
    obtain ⟨hfields, hlocation, hroot⟩ := h
    have hloc := (convertToAbsolutePath_eq_iff cwd d.location).mpr hlocation
    obtain ⟨handler, hhandler⟩ := (construct_isOk_iff hfs htype).mpr ⟨hfields, hroot⟩
    exact ⟨handler, _, hloc, hhandler⟩

/-- A field that is listed once with a value has a first value. -/
theorem exists_firstValue_of_listsOnce (h : listsOnce config name = true) :
    ∃ value, FirstValue config name value := by
  unfold listsOnce at h
  split at h
  · next value values hfields => exact ⟨value, values, by rw [hfields]; rfl⟩
  · cases h

/-- The scan registers the handlers of exactly the well-formed locations if all locations are
well-formed and their paths can be normalised. -/
theorem getHandlers_filter_iff (hfs : fs.isDirectory [] = false) :
    (∃ r, getHandlers fs config { cwd } = .ok r ∧
      Holds fs ((locationStatements config).filter wellFormed) r) ↔
      ∀ d ∈ locationStatements config, wellFormed d = true ∧ PathsBalanced cwd d := by
  constructor
  · intro h d hd
    obtain ⟨r, hrun, hholds⟩ := h
    have hall := holds_of_getHandlers hrun
    have hlength := hholds.built.length_eq.symm.trans hall.1.built.length_eq
    have hwell := List.length_filter_eq_length_iff.mp hlength d hd
    have hbuilt := getHandlers_isOk_iff.mp ⟨r, hrun⟩ d hd
    exact ⟨hwell, ((exists_isBuiltFrom_iff hfs (type_mem_of_mem_locationStatements hd)).mp
      hbuilt).2⟩
  · intro h
    have hbuilt : ∀ d ∈ locationStatements config, ∃ handler, IsBuiltFrom fs cwd handler d := by
      intro d hd
      obtain ⟨hwell, hpaths⟩ := h d hd
      apply (exists_isBuiltFrom_iff hfs (type_mem_of_mem_locationStatements hd)).mpr
      refine ⟨fun name hname => ?_, hpaths⟩
      exact exists_firstValue_of_listsOnce (List.all_eq_true.mp hwell name hname)
    obtain ⟨r, hrun⟩ := getHandlers_isOk_iff.mpr hbuilt
    refine ⟨r, hrun, ?_⟩
    rw [List.filter_eq_self.mpr fun d hd => (h d hd).1]
    exact (holds_of_getHandlers hrun).1

/-! ## The words of an accepted config -/

/-- A word of a config file has a byte. -/
private theorem token_ne_nil {t mid : Text} {toks : List (Sym Word)} {w : Word}
    (h : LexesTo endsNormal t toks mid) (hw : .word w ∈ toks) : w.token.value ≠ [] := by
  induction h with
  | refl => cases hw
  | head hstep hrest ih =>
    cases List.mem_append.mp hw with
    | inr hw => exact ih hw
    | inl hw =>
      cases hstep with
      | bare =>
        cases List.mem_singleton.mp hw
        exact List.cons_ne_nil _ _
      | quoted =>
        cases List.mem_singleton.mp hw
        exact List.cons_ne_nil _ _
      | _ => simp at hw

/-- No word of an accepted config is empty. -/
theorem allWords_of_parseText (hparse : parseText file = .ok (true, store))
    (hconfig : Config.Holds store 0 config) : config.AllWords (· ≠ []) := by
  obtain ⟨lexemes, rest, b, hlex, -, -, -, hbuild, hholds⟩ := exists_built hparse
  rw [hconfig.unique hholds]
  apply Builder.AllWords.current
  refine Builder.AllWords.build Builder.allWords_start (fun v hv => ?_) hbuild
  obtain ⟨lexeme, hlexeme, hvalue⟩ := List.mem_map.mp hv
  cases lexeme with
  | word w =>
    cases hvalue
    exact token_ne_nil hlex hlexeme
  | _ => cases hvalue

/-- The locations of a server block consist of its words. -/
private theorem allWords_locationsIn {p : Text → Prop} (h : config.AllWords p) :
    ∀ d ∈ locationsIn config, p d.location ∧ d.config.AllWords p := by
  induction config with
  | empty => exact nofun
  | simple words rest ih => exact ih h.2
  | nested words body rest _ ih =>
    intro d hd
    rw [locationsIn, List.mem_append] at hd
    cases hd with
    | inr hd => exact ih h.2.2 d hd
    | inl hd =>
      unfold asLocation at hd
      split at hd
      · split_ifs at hd
        · rw [List.mem_singleton] at hd
          subst hd
          exact ⟨h.1 _ (List.mem_cons_of_mem _ List.mem_cons_self), h.2.1⟩
        · cases hd
      · cases hd

/-- The locations of a config consist of its words. -/
theorem allWords_locationStatements {p : Text → Prop} (h : config.AllWords p) :
    ∀ d ∈ locationStatements config, p d.location ∧ d.config.AllWords p := by
  induction config with
  | empty => exact nofun
  | simple words rest ih => exact ih h.2
  | nested words body rest _ ih =>
    intro d hd
    rw [locationStatements, List.mem_append] at hd
    cases hd with
    | inr hd => exact ih h.2.2 d hd
    | inl hd =>
      split_ifs at hd
      · exact allWords_locationsIn h.2.1 d hd
      · cases hd

/-- In an accepted config no text is indexed that is empty. -/
theorem indexedTexts_ne_nil (hparse : parseText file = .ok (true, store))
    (hconfig : Config.Holds store 0 config) :
    ∀ d ∈ locationStatements config, ∀ t ∈ indexedTexts d, t ≠ [] := by
  intro d hd t ht
  obtain ⟨hlocation, hwords⟩ :=
    allWords_locationStatements (allWords_of_parseText hparse hconfig) d hd
  cases List.mem_cons.mp ht with
  | inl ht => exact ht ▸ hlocation
  | inr ht =>
    have hmem := List.mem_of_mem_take ht
    rw [configLookup_eq, Block.firstAt, Option.bind_some] at hmem
    cases hfields : d.config.fields (text "root") with
    | nil =>
      rw [hfields] at hmem
      cases hmem
    | cons values others =>
      rw [hfields] at hmem
      exact hwords.fields _ values (hfields ▸ List.mem_cons_self) t hmem

/-- The handlers of an accepted config are created safely exactly when every location lists each
field that its handler needs once, with a value, and no step up in a location or in the root of a
static handler lacks a component to remove. -/
theorem registersSafely_iff (hparse : parseText file = .ok (true, store))
    (hconfig : Config.Holds store 0 config) (hfs : fs.isDirectory [] = false) (cwd : Text) :
    RegistersSafely fs cwd config ↔
      ∀ d ∈ locationStatements config, wellFormed d = true ∧ PathsBalanced cwd d := by
  rw [← getHandlers_filter_iff hfs]
  exact ⟨fun h => h.runs, fun h => ⟨h, indexedTexts_ne_nil hparse hconfig⟩⟩

/-- The location of a static handler whose block lists these statements, in a server block. -/
def staticAt (location : Text) (block : Block Text) : Block Text :=
  oneServer (.nested [text "location", location, text "StaticHandler"] block .empty)

/-- What the parser leaves of this config. -/
def storeAt (location : Text) (statements : List Config.NginxConfigStatement) : Config.Store :=
  [⟨[⟨[text "server"], some 1⟩]⟩,
    ⟨[⟨[text "port", text "80"], none⟩,
      ⟨[text "location", location, text "StaticHandler"], some 2⟩]⟩,
    ⟨statements⟩]

/-- It holds the config when the statements are those of the block. -/
private theorem holds_storeAt {location : Text} {statements : List Config.NginxConfigStatement}
    {block : Block Text}
    (h : Config.Represents (storeAt location statements) [] statements block) :
    Config.Holds (storeAt location statements) 0 (staticAt location block) :=
  ⟨_, rfl, 1, _, [], rfl, List.not_mem_nil, rfl,
    ⟨_, rfl, 2, _, [], rfl, List.not_mem_nil, rfl, h, rfl⟩, rfl⟩

/-- A static handler with one root is registered. -/
theorem registersSafely_oneRoot :
    RegistersSafely ⟨fun _ => false, fun _ => none⟩ (text "/")
      (staticAt (text "/a") (.simple [text "root", text "/b"] .empty)) := by
  have hparse : parseText
      (text "server \x7b port 80; location /a StaticHandler \x7b root /b; \x7d \x7d") =
        .ok (true, storeAt (text "/a") [⟨[text "root", text "/b"], none⟩]) := rfl
  have hconfig : Config.Holds (storeAt (text "/a") [⟨[text "root", text "/b"], none⟩]) 0
      (staticAt (text "/a") (.simple [text "root", text "/b"] .empty)) :=
    holds_storeAt ⟨[], rfl, rfl⟩
  have hlocations :
      locationStatements (staticAt (text "/a") (.simple [text "root", text "/b"] .empty)) =
        [⟨text "/a", text "StaticHandler", .simple [text "root", text "/b"] .empty⟩] := by decide
  have hbalanced (path : Text) (h : convertToAbsolutePath (text "/") path =
      .ok (normalised (text "/") path)) : Balanced (components (text "/") path) :=
    (convertToAbsolutePath_eq_iff _ _).mp h
  apply (registersSafely_iff hparse hconfig rfl (text "/")).mpr
  rw [hlocations]
  intro d hd
  rw [List.mem_singleton] at hd
  subst hd
  refine ⟨by decide, hbalanced _ (by decide), fun _ value hvalue => ?_⟩
  rw [hvalue.unique ⟨[], rfl⟩]
  exact hbalanced (text "/b") (by decide)

/-- An accepted config in which a static handler has no root reads the first of no values. -/
theorem not_registersSafely_noRoot :
    ¬ ∀ file store config fs cwd, parseText file = .ok (true, store) →
      Config.Holds store 0 config → fs.isDirectory [] = false → RegistersSafely fs cwd config := by
  intro h
  let fs : FileSystem := ⟨fun _ => false, fun _ => none⟩
  have hholds : Config.Holds (storeAt (text "/a") []) 0 (staticAt (text "/a") .empty) :=
    holds_storeAt rfl
  have hfault : getHandlers fs (staticAt (text "/a") .empty) { cwd := text "/" } =
      .error (.fault .indexOutOfRange) := rfl
  have hsafe := h (text "server \x7b port 80; location /a StaticHandler \x7b \x7d \x7d") _ _ fs
    (text "/") rfl hholds rfl
  obtain ⟨r, hrun, -⟩ := hsafe.runs
  cases hfault.symm.trans hrun

end Aite.Routing
