import Aite.Handlers.Construct
import Aite.Http.Beast
import Aite.Strings

/-!
# The reverse proxy

A request is sent on to another server with the location of the proxy cut off its target, and
the response is returned with that location put in front of absolute references. The exchange
with the other server fails at whichever step fails first.
-/

namespace Aite.Handlers

open Http

/-- What the proxy asks of a response's container beyond the common interface. -/
structure ResponseIO (B : Beast) where
  /-- `resp.find(name) != resp.end()` -/
  contains : B.Fields → Text → Bool
  /-- `fields.erase(name)` -/
  erase : B.Fields → Text → B.Fields
  /-- Removes `chunked` from the transfer encoding. -/
  unchunk : B.Fields → B.Fields

variable {B : Beast}

/-- `resp.chunked(false)` -/
def unchunked (io : ResponseIO B) (resp : Response B) : Response B :=
  { resp with fields := io.erase (io.unchunk resp.fields) (text "Content-Length") }

/-- The known statuses of responses that must not have a body. -/
def forbidsBody (status : ℕ) : Bool := status ∈ [100, 101, 102, 204, 304]

/-- `resp.prepare_payload()` -/
def preparePayload (io : ResponseIO B) (resp : Response B) : Run (Response B) :=
  if resp.body ≠ [] ∧ forbidsBody resp.result = true then .error (.thrown .invalidArgument)
  else
    let length := text (toString resp.body.length)
    .ok { resp with fields := io.unchunk (B.set resp.fields (text "Content-Length") length) }

/-! ## The exchange with the other server -/

/-- How the end of the connection is reported. -/
inductive Shutdown where
  | closed
  | notConnected
  | failed
  deriving DecidableEq, Repr

/-- What each step of an exchange meets. -/
structure Upstream (B : Beast) where
  /-- Whether `resolver.resolve(query)` finds the host. -/
  resolves : Text → Text → Bool
  /-- Whether `stream.connect(results)` reaches one of its addresses. -/
  connects : Text → Text → Bool
  /-- Whether `http::write(stream, req)` sends the request. -/
  writes : Request B → Bool
  /-- The response that `http::read(stream, buffer, resp)` receives. -/
  reads : Request B → Option (Response B)
  /-- The error of `shutdown(shutdown_both, err)`. -/
  shutdown : Request B → Shutdown

/-- `HttpClient::perform_request` -/
def performRequest (net : Upstream B) (host port : Text) (req : Request B) : Run (Response B) :=
  if !net.resolves host port || !net.connects host port || !net.writes req then
    .error (.thrown .systemError)
  else
    match net.reads req with
    | none => .error (.thrown .systemError)
    | some resp =>
      -- not_connected happens sometimes and is not reported
      if net.shutdown req = .failed then .error (.thrown .systemError) else .ok resp

/-! ## The handler -/

/-- The loop that replaces one text by another, from `pos` on. -/
def replaceLoop (source target : Text) : ℕ → Text → ℕ → Run Text
  | 0, _, _ => .error .outOfFuel
  | fuel + 1, newBody, pos =>
    match find newBody source pos with
    | none => .ok newBody
    | some pos =>
      -- skip double slashes
      let suffix := pos + source.length
      if suffix < newBody.length ∧ newBody[suffix]? = some '/'.toUInt8 then
        replaceLoop source target fuel newBody suffix
      else
        replaceLoop source target fuel (newBody.take pos ++ target ++ newBody.drop suffix)
          (pos + target.length)

namespace ReverseProxyRequestHandler

/-- The body with the location between the given prefix and separator, wherever these are. -/
def replacedAbsolutePaths (h : ReverseProxyRequestHandler) (body urlPrefix separator : Text) :
    Run Text :=
  replaceLoop (urlPrefix ++ separator) (urlPrefix ++ h.location ++ separator) (body.length + 1)
    body 0

/-- Rewrite common absolute paths in the body. -/
def prepareProxiedResp (io : ResponseIO B) (h : ReverseProxyRequestHandler) (resp : Response B) :
    Run (Response B) := do
  let resp := unchunked io resp
  let body ← h.replacedAbsolutePaths resp.body (text "href=\"") (text "/")
  let body ← h.replacedAbsolutePaths body (text "src=\"") (text "/")
  let body ← h.replacedAbsolutePaths body (text "url(\"") (text "/")
  let body ← h.replacedAbsolutePaths body (text "url(") (text "\\2f ")
  preparePayload io { resp with body }

/-- Remove the proxy's path from the path of a request. -/
def forwardedTarget (h : ReverseProxyRequestHandler) (target : Text) : Run Text :=
  if h.location.length ≤ target.length then
    let proxiedTarget := target.drop h.location.length
    .ok (if proxiedTarget = [] then text "/" else proxiedTarget)
  else .error (.thrown .outOfRange)

/-- The request that is sent on. -/
def proxiedRequest (h : ReverseProxyRequestHandler) (req : Request B) (target : Text) :
    Request B :=
  { req with
    target
    fields := B.set (B.set req.fields (text "Host") (h.host ++ text ":" ++ h.port))
      (text "Accept-Encoding") (text "identity") }

/-- A redirect to an absolute path is one to a path below the location. -/
def redirected (io : ResponseIO B) (h : ReverseProxyRequestHandler) (resp : Response B) :
    Response B :=
  if io.contains resp.fields (text "Location") ∧ 300 ≤ resp.result ∧ resp.result ≤ 399 then
    let redirect := B.get resp.fields (text "Location")
    let redirect := if redirect.head? = some '/'.toUInt8 then h.location ++ redirect else redirect
    { resp with fields := B.set resp.fields (text "Location") redirect }
  else resp

/-- What the handler answers, given its client. -/
def handleRequest (io : ResponseIO B) (client : Text → Text → Request B → Run (Response B))
    (h : ReverseProxyRequestHandler) (req : Request B) : Run (Response B) := do
  let proxiedTarget ← h.forwardedTarget req.target
  let resp ← client h.host h.port (h.proxiedRequest req proxiedTarget)
  h.prepareProxiedResp io (h.redirected io resp)

end ReverseProxyRequestHandler

/-- A proxy at `/proxy`. -/
def proxyHandler : ReverseProxyRequestHandler where
  location := text "/proxy"
  host := text "localhost"
  port := text "8080"

/-- A container of lists answers what the proxy asks. -/
def listsResponseIO : ResponseIO Beast.lists where
  contains fields name := (fields : List (Text × Text)).any fun field => iequals field.1 name
  erase fields name := (fields : List (Text × Text)).filter fun field => !iequals field.1 name
  unchunk fields := (fields : List (Text × Text)).filter fun field =>
    !iequals field.1 (text "Transfer-Encoding")

end Aite.Handlers
