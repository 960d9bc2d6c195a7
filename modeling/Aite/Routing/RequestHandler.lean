import Aite.Routing.AbsolutePath
import Aite.Http.RequestParser

/-!
# Choosing a request handler

The server keeps a map from normalised locations to handlers. A request target is normalised
and its path is shortened component by component until a location is found. The root location
is the empty path.
-/

namespace Aite.Routing

/-- The address of a request handler. -/
abbrev HandlerPtr := ℕ

/-- The registered handlers, and the working directory of the server's process. -/
structure Server where
  locationToHandler : List (Text × HandlerPtr) := []
  typeToHandler : List (Text × List HandlerPtr) := []
  cwd : Text := text "/"

/-- `parent_path()` of a path without empty components; the root directory has none. -/
def parentPath (uri : Text) : Text :=
  let parent := ((uri.reverse.dropWhile (· ≠ '/'.toUInt8)).drop 1).reverse
  if parent = [] ∧ uri.head? = some '/'.toUInt8 ∧ uri ≠ text "/" then text "/" else parent

/-- `has_parent_path()` -/
def hasParentPath (uri : Text) : Bool := parentPath uri ≠ []

/-- Look through all path prefixes and check if any match a valid location, prioritizing the
longest path prefix. The loop is bounded by the fuel. -/
def searchPrefixes (server : Server) : ℕ → Text → Run (Option HandlerPtr)
  | 0, _ => .error .outOfFuel
  | fuel + 1, uri =>
    if hasParentPath uri then
      match server.locationToHandler.lookup uri with
      | some handler => .ok (some handler)
      | none => searchPrefixes server fuel (parentPath uri)
    else .ok (server.locationToHandler.lookup [])

/-- Get the appropriate request handler based on the request URI, or null. -/
def Server.getRequestHandler (server : Server) (requestUri : Text) : Run (Option HandlerPtr) := do
  let uri ← convertToAbsolutePath server.cwd requestUri
  searchPrefixes server (uri.length + 1) uri

/-- The type under which a handler is registered. -/
def Server.getHandlerType (server : Server) (ptr : Option HandlerPtr) : Text :=
  match ptr with
  | none => text "Bad"
  | some handler =>
    ((server.typeToHandler.find? fun entry => entry.2.contains handler).map Prod.fst).getD
      (text "Unknown")

/-- A parent path is shorter. -/
private theorem parentPath_length_lt {uri : Text} (h : hasParentPath uri = true) :
    (parentPath uri).length < uri.length := by
  simp only [hasParentPath, decide_eq_true_eq] at h
  revert h
  simp only [parentPath]
  split
  · next hroot =>
    obtain ⟨-, hhead, hne⟩ := hroot
    intro _
    cases uri with
    | nil => simp at hhead
    | cons c rest =>
      cases rest with
      | nil =>
        obtain rfl : c = '/'.toUInt8 := by simpa using hhead
        exact absurd rfl hne
      | cons d rest => simp [text]
  · intro h
    have hlength := List.length_pos_of_ne_nil h
    have hle := (uri.reverse.dropWhile_suffix (· ≠ '/'.toUInt8)).length_le
    simp only [List.length_reverse, List.length_drop] at hlength hle ⊢
    omega

/-- The search for a location ends. -/
theorem searchPrefixes_isOk (server : Server) {fuel : ℕ} {uri : Text} (h : uri.length < fuel) :
    ∃ handler, searchPrefixes server fuel uri = .ok handler := by
  induction fuel generalizing uri with
  | zero => omega
  | succ fuel ih =>
    unfold searchPrefixes
    by_cases hparent : hasParentPath uri
    · rw [if_pos hparent]
      cases server.locationToHandler.lookup uri with
      | some handler => exact ⟨some handler, rfl⟩
      | none =>
        apply ih
        have := parentPath_length_lt hparent
        omega
    · rw [if_neg hparent]
      exact ⟨_, rfl⟩

/-- Once the target is normalised, a handler or null is found. -/
theorem getRequestHandler_of_balanced {server : Server} {target : Text}
    (h : Balanced (components server.cwd target)) :
    ∃ handler, server.getRequestHandler target = .ok handler := by
  unfold Server.getRequestHandler
  rw [(convertToAbsolutePath_eq_iff server.cwd target).mpr h]
  apply searchPrefixes_isOk
  omega

/-- A target that is routed was normalised. -/
theorem normalises_of_routed {server : Server} {target : Text} {result : Option HandlerPtr}
    (h : server.getRequestHandler target = .ok result) :
    ∃ n, convertToAbsolutePath server.cwd target = .ok n := by
  obtain ⟨n, hn, -⟩ := run_bind_eq_ok.mp h
  exact ⟨n, hn⟩

/-- The path is normalised without undefined behaviour, and so is the choice of a handler. -/
structure Normalises (server : Server) (path : Text) : Prop where
  converts : convertToAbsolutePath server.cwd path = .ok (normalised server.cwd path)
  routes : ∃ handler, server.getRequestHandler path = .ok handler

/-- Path normalisation succeeds exactly on paths in which no `..` lacks a component to remove. -/
theorem normalises_iff_balanced (server : Server) (path : Text) :
    Normalises server path ↔ Balanced (components server.cwd path) := by
  rw [← convertToAbsolutePath_eq_iff]
  constructor
  · exact fun h => h.converts
  · intro h
    exact ⟨h, getRequestHandler_of_balanced ((convertToAbsolutePath_eq_iff _ _).mp h)⟩

/-- A target that the parser accepts pops an empty stack. -/
theorem not_normalises_parent_of_root :
    (∃ r : Http.ParseResult Http.Beast.lists,
      Http.parse .methodStart {} (text "GET /.. HTTP/1.1\r\n\r\n") = .ok r ∧
        r.verdict = .true ∧ r.req.target = text "/..") ∧
    ¬ ∀ server path, Normalises server path := by
  constructor
  · exact ⟨_, rfl, rfl, rfl⟩
  · intro h
    have hfault : convertToAbsolutePath (text "/") (text "/..") =
        .error (.fault .popBackOfEmpty) := by decide
    have hok := (h {} (text "/..")).converts
    rw [hfault] at hok
    cases hok

end Aite.Routing
