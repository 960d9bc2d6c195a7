import Aite.Config.Lookup
import Aite.Routing.AbsolutePath

/-!
# Constructing request handlers

The constructor of a handler reads the fields it needs from the block of its location. A
field that is listed too often or not at all is reported in the log only; the first value is
used either way, which is undefined when there is none.
-/

namespace Aite.Handlers

open BlockGrammar Config Routing

/-- What the program asks of the file system. -/
structure FileSystem where
  /-- `is_directory(p, err)` -/
  isDirectory : Text → Bool
  /-- The bytes of a file that can be opened. -/
  contents : Text → Option Text

/-- `values[0]` -/
def firstValue (values : List Text) : Run Text :=
  match values with
  | [] => .error (.fault .indexOutOfRange)
  | value :: _ => .ok value

/-- Handler that serves client the requested static files. -/
structure StaticFileRequestHandler where
  /-- Corresponding base directory specified from config file. -/
  root : Text
  /-- Serving path of this request handler. -/
  location : Text
  deriving DecidableEq, Repr

/-- Handler that serves as a proxy between other HTTP resources. -/
structure ReverseProxyRequestHandler where
  location : Text
  host : Text
  port : Text
  deriving DecidableEq, Repr

/-- Handler that stores memes and shows them. -/
structure MemeHandler where
  root : Text
  /-- Whether `parent_server_` points to a server. -/
  initialised : Bool := false
  deriving DecidableEq, Repr

/-- The normalised root, with a slash behind an existing directory. -/
def setRootPath (fs : FileSystem) (cwd rootPath : Text) : Run Text := do
  let root ← convertToAbsolutePath cwd rootPath
  if fs.isDirectory root then
    match root.getLast? with
    | none => .error (.fault .backOfEmpty)
    | some c => .ok (if c ≠ '/'.toUInt8 then root ++ text "/" else root)
  else .ok root

/-- The constructor of the static file handler. -/
def newStaticFileRequestHandler (fs : FileSystem) (cwd location : Text) (config : Block Text) :
    Run StaticFileRequestHandler := do
  let value ← firstValue (configLookup config [] (text "root"))
  let root ← setRootPath fs cwd value
  .ok { root, location }

/-- The constructor of the proxy. -/
def newReverseProxyRequestHandler (location : Text) (config : Block Text) :
    Run ReverseProxyRequestHandler := do
  let host ← firstValue (configLookup config [] (text "host"))
  let port ← firstValue (configLookup config [] (text "port"))
  .ok { location, host, port }

/-- The constructor of the meme handler. Quotes around its root are removed. -/
def newMemeHandler (config : Block Text) : Run MemeHandler := do
  let value ← firstValue (configLookup config [] (text "root"))
  .ok { root := stripQuotes value }

/-- `initMeme(this)` -/
def MemeHandler.initMeme (handler : MemeHandler) : MemeHandler := { handler with initialised := true }

/-- A request handler of any type. -/
inductive Handler where
  | echo
  | staticFile (handler : StaticFileRequestHandler)
  | reverseProxy (handler : ReverseProxyRequestHandler)
  | notFound
  | sleep
  | meme (handler : MemeHandler)
  | status
  | health
  deriving DecidableEq, Repr

/-- `server::handler_types` -/
def handlerTypes : List Text :=
  ["EchoHandler", "StaticHandler", "ReverseProxyHandler", "NotFoundHandler", "StatusHandler",
    "HealthHandler", "SleepHandler", "MemeHandler"].map text

/-- Construct a handler of the given type, none when there is no such type. -/
def construct (fs : FileSystem) (cwd type loc : Text) (config : Block Text) :
    Run (Option Handler) :=
  if type = text "EchoHandler" then .ok (some .echo)
  else if type = text "StaticHandler" then do
    let handler ← newStaticFileRequestHandler fs cwd loc config
    .ok (some (.staticFile handler))
  else if type = text "ReverseProxyHandler" then do
    let handler ← newReverseProxyRequestHandler loc config
    .ok (some (.reverseProxy handler))
  else if type = text "NotFoundHandler" then .ok (some .notFound)
  else if type = text "SleepHandler" then .ok (some .sleep)
  else if type = text "MemeHandler" then do
    let handler ← newMemeHandler config
    .ok (some (.meme handler.initMeme))
  else if type = text "StatusHandler" then .ok (some .status)
  else if type = text "HealthHandler" then .ok (some .health)
  else .ok none

/-- A constructor that returns gives a handler. -/
private theorem bind_some_ne_none {A : Type} (x : Run A) (f : A → Handler) :
    (x >>= fun handler => .ok (some (f handler)) : Run (Option Handler)) ≠ .ok none := by
  cases x <;> exact nofun

/-- Every listed type has handlers. -/
theorem construct_ne_none {fs : FileSystem} {cwd type loc : Text} {config : Block Text}
    (htype : type ∈ handlerTypes) : construct fs cwd type loc config ≠ .ok none := by
  simp only [handlerTypes, List.map_cons, List.map_nil, List.mem_cons, List.not_mem_nil,
    or_false] at htype
  unfold construct
  split_ifs
  · exact nofun
  · exact bind_some_ne_none _ _
  · exact bind_some_ne_none _ _
  · exact nofun
  · exact nofun
  · exact bind_some_ne_none _ _
  · exact nofun
  · exact nofun
  · simp_all only [or_self]

/-- A constructor that returns gives this handler only if it is the constructor's result. -/
private theorem bind_some_eq {A : Type} {x : Run A} {f : A → Handler} {handler : Handler}
    (h : (x >>= fun a => .ok (some (f a)) : Run (Option Handler)) = .ok (some handler)) :
    ∃ a, x = .ok a ∧ f a = handler := by
  obtain ⟨a, hx, h⟩ := run_bind_eq_ok.mp h
  exact ⟨a, hx, Option.some.inj (Except.ok.inj h)⟩

/-- What is constructed as each of the handlers that have members. -/
theorem construct_cases {fs : FileSystem} {cwd type loc : Text} {config : Block Text}
    {handler : Handler} (h : construct fs cwd type loc config = .ok (some handler)) :
    match handler with
    | .staticFile handler => newStaticFileRequestHandler fs cwd loc config = .ok handler
    | .reverseProxy handler => newReverseProxyRequestHandler loc config = .ok handler
    | .meme handler => ∃ new, newMemeHandler config = .ok new ∧ new.initMeme = handler
    | _ => True := by
  unfold construct at h
  split_ifs at h
  · cases h
    trivial
  · obtain ⟨new, hnew, rfl⟩ := bind_some_eq h
    exact hnew
  · obtain ⟨new, hnew, rfl⟩ := bind_some_eq h
    exact hnew
  · cases h
    trivial
  · cases h
    trivial
  · obtain ⟨new, hnew, rfl⟩ := bind_some_eq h
    exact ⟨new, hnew, rfl⟩
  · cases h
    trivial
  · cases h
    trivial
  · cases h

end Aite.Handlers
