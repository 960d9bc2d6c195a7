import Aite.Http.ErrorPage
import Aite.Http.RequestHead
import Aite.Routing.RequestHandler
import Aite.Strings

/-!
# A session

A session is driven by the completion of the operation it has started: a read of at most
`maxLength` bytes for a header, a read of an exact number of body bytes, or a write. Each
completion runs a callback, which ends by starting the next operation or none.

The handlers and the registered locations are a parameter. Every message that is logged with
the endpoint's address asks the socket for it, which throws once the peer is gone.
-/

namespace Aite

open Http Routing

variable {B : Beast}

/-- The size of the buffer for headers. -/
def maxLength : ℕ := 1024

/-- The content length of a header: 0 without the field, -1 when it is not a number. -/
def contentLength (fields : B.Fields) : ℤ :=
  let value := B.get fields (text "Content-Length")
  if value = [] then 0 else (stoi value).getD (-1)

/-- The operation a session waits for. -/
inductive Pending where
  | none
  /-- `read_some` into the header buffer. -/
  | readSome
  /-- `read` of an exact number of bytes into the body buffer. -/
  | read (length : ℕ)
  | write
  deriving DecidableEq, Repr

/-- What a session reports when it writes a response. -/
structure Metric where
  handlerType : Text
  target : Text
  result : ℕ
  deriving DecidableEq, Repr

/-- What a session works with: the registered handlers, and what a handler answers to the
request of the given call, unless it throws. -/
structure World (B : Beast) where
  server : Server
  handleRequest : ℕ → HandlerPtr → Request B → Except Exn (Response B)

/-- The members of a session, followed by the record of what it has done. -/
structure Session (B : Beast) where
  parserState : State := .methodStart
  request : Request B := {}
  response : Response B := {}
  /-- Without value until it is first assigned. -/
  requestHandler : Option (Option HandlerPtr) := none
  bodyData : Text := []
  connected : Bool := true
  pending : Pending := .none
  /-- The calls of handlers. -/
  handled : List (HandlerPtr × Request B) := []
  /-- The responses for which a write was started. -/
  written : List (Response B) := []
  metrics : List Metric := []
  /-- The requests reported to the server. -/
  logged : List (Text × ℕ) := []

namespace Session

/-- Log a message with the endpoint's address. -/
def logAddress (s : Session B) : Run Unit :=
  if s.connected then .ok () else .error (.thrown .systemError)

/-- Log the handler type, the target and the status of a response. -/
def logSessionMetric (w : World B) (s : Session B) : Run (Session B) := do
  s.logAddress
  match s.requestHandler with
  | none => .error (.fault .uninitialised)
  | some ptr =>
    .ok { s with
      metrics := s.metrics ++ [⟨w.server.getHandlerType ptr, s.request.target, s.response.result⟩] }

/-- Read from the socket and bind the read handler. -/
def readHeader (s : Session B) : Run (Session B) := do
  s.logAddress
  .ok { s with pending := .readSome }

/-- Read exactly this much of the body. -/
def readBody (s : Session B) (contentLength : ℕ) : Run (Session B) := do
  s.logAddress
  .ok { s with pending := .read contentLength }

/-- Start the write of the response. -/
def startWrite (s : Session B) : Session B :=
  { s with pending := .write, written := s.written ++ [s.response] }

/-- Report the request and the status of its response to the server. -/
def logRequest (s : Session B) : Session B :=
  { s with logged := s.logged ++ [(s.request.target, s.response.result)] }

/-- Write to the socket and bind the write handler. -/
def write (w : World B) (s : Session B) : Run (Session B) := do
  let s ← s.logSessionMetric w
  s.logAddress
  .ok s.startWrite.logRequest

/-- The server starts a session. -/
def start (s : Session B) : Run (Session B) := do
  s.logAddress
  s.readHeader

/-- `response_ = request_handler_->handle_request(request_)` -/
def callHandler (w : World B) (s : Session B) (handler : HandlerPtr) : Run (Session B) :=
  match w.handleRequest s.handled.length handler s.request with
  | .error e => .error (.thrown e)
  | .ok response => .ok { s with response, handled := s.handled ++ [(handler, s.request)] }

/-- `request_.body().append(bytes)` -/
def appendBody (s : Session B) (bytes : Text) : Session B :=
  { s with request := { s.request with body := s.request.body ++ bytes } }

/-- Parse the request and dispatch it to the handler of its location. -/
def handleReadHeader (w : World B) (s : Session B) (data : Text) : Run (Session B) := do
  let r ← parse s.parserState s.request data
  let s := { s with parserState := r.state, request := r.req }
  let length := contentLength s.request.fields
  if r.verdict = .false ∨ length < 0 then
    s.logAddress
    let message := text "Invalid request headers or content length"
    write w { s with response := showErrorPage B 400 message }
  else if r.verdict = .true then
    s.logAddress
    let requestHandler ← w.server.getRequestHandler s.request.target
    let s := { s with requestHandler := some requestHandler }
    match requestHandler with
    | none =>
      s.logAddress
      let message := text "Error getting handler for uri " ++ s.request.target
      write w { s with response := showErrorPage B 400 message }
    | some handler =>
      if length = 0 then
        let s ← s.callHandler w handler
        s.logAddress
        s.write w
      else
        -- the remainder of the buffer is the start of the body
        let requestBodyBytes := data.length - r.consumed
        s.logAddress
        if length ≤ requestBodyBytes then
          let s := s.appendBody ((data.drop r.consumed).take length.toNat)
          let s ← s.callHandler w handler
          s.logAddress
          s.write w
        else
          let s := s.appendBody (data.drop r.consumed)
          s.readBody (length.toNat - requestBodyBytes)
  else
    s.logAddress
    s.readHeader

/-- Append what was read to the body, call the request handler, then write back. -/
def handleReadBody (w : World B) (s : Session B) : Run (Session B) := do
  let s := s.appendBody s.bodyData
  match s.requestHandler with
  | none => .error (.fault .uninitialised)
  | some none => write w { s with response := showErrorPage B 400 (text "N/A") }
  | some (some handler) =>
    let s ← s.callHandler w handler
    s.write w

/-- Prepare for the next request. Clearing the request removes its fields only. -/
def handleWrite (s : Session B) : Run (Session B) := do
  s.logAddress
  let s := { s with
    parserState := .methodStart
    request := { s.request with fields := B.empty, body := [] }
    bodyData := [] }
  s.readHeader

/-- The error branch of every callback. -/
def handleError (s : Session B) : Run (Session B) := do
  s.logAddress
  .ok s

/-- The completion of the operation a session waits for. -/
inductive Event where
  | headerRead (data : Text)
  | bodyRead (data : Text)
  | written
  /-- The operation failed, a body read possibly after some bytes. -/
  | failed (data : Text)
  deriving DecidableEq, Repr

/-- The bytes an event takes from the connection. -/
def Event.bytes : Event → Text
  | .headerRead data => data
  | .bodyRead data => data
  | .written => []
  | .failed data => data

/-- An event completes the operation the session waits for. -/
def Enabled (s : Session B) : Event → Prop
  | .headerRead data => s.pending = .readSome ∧ data ≠ [] ∧ data.length ≤ maxLength
  | .bodyRead data => s.pending = .read data.length
  | .written => s.pending = .write
  | .failed data => s.pending ≠ .none ∧
      (data = [] ∨ ∃ length, s.pending = .read length ∧ data.length < length)

section Enabled

variable {s : Session B} {e : Event}

/-- While it waits for a header, a session gets one, unless the read fails. -/
theorem Enabled.of_readSome (h : s.Enabled e) (hpending : s.pending = .readSome) :
    (∃ data, e = .headerRead data ∧ data ≠ []) ∨ ∃ data, e = .failed data := by
  cases e with
  | headerRead data => exact .inl ⟨data, rfl, h.2.1⟩
  | bodyRead data => cases hpending.symm.trans h
  | written => cases hpending.symm.trans h
  | failed data => exact .inr ⟨data, rfl⟩

/-- While it waits for the rest of a body, a session gets it, unless the read fails. -/
theorem Enabled.of_read {length : ℕ} (h : s.Enabled e) (hpending : s.pending = .read length) :
    (∃ data, e = .bodyRead data ∧ data.length = length) ∨ ∃ data, e = .failed data := by
  cases e with
  | headerRead data => cases hpending.symm.trans h.1
  | bodyRead data => exact .inl ⟨data, rfl, (Pending.read.inj (hpending.symm.trans h)).symm⟩
  | written => cases hpending.symm.trans h
  | failed data => exact .inr ⟨data, rfl⟩

/-- While it waits for the end of a write, a session gets to it, unless the write fails. -/
theorem Enabled.of_write (h : s.Enabled e) (hpending : s.pending = .write) :
    e = .written ∨ ∃ data, e = .failed data := by
  cases e with
  | headerRead data => cases hpending.symm.trans h.1
  | bodyRead data => cases hpending.symm.trans h
  | written => exact .inl rfl
  | failed data => exact .inr ⟨data, rfl⟩

/-- A session that waits for nothing gets nothing. -/
theorem Enabled.pending_ne (h : s.Enabled e) : s.pending ≠ .none := by
  intro hpending
  cases e with
  | headerRead data => cases hpending.symm.trans h.1
  | bodyRead data => cases hpending.symm.trans h
  | written => cases hpending.symm.trans h
  | failed data => exact h.1 hpending

end Enabled

/-- Run the callback of an event. -/
def deliver (w : World B) (s : Session B) : Event → Run (Session B)
  | .headerRead data => handleReadHeader w { s with pending := .none } data
  | .bodyRead data => handleReadBody w { s with pending := .none, bodyData := s.bodyData ++ data }
  | .written => handleWrite { s with pending := .none }
  | .failed data =>
    handleError { s with pending := .none, bodyData := s.bodyData ++ data }

/-- The events that complete one operation after the other lead from one state to another. -/
inductive Runs (w : World B) : Session B → List Event → Session B → Prop where
  | nil (s) : Runs w s [] s
  | cons {s t u e rest} (henabled : s.Enabled e) (hdeliver : deliver w s e = .ok t)
      (hrest : Runs w t rest u) : Runs w s (e :: rest) u

end Session

/-- A session and the bytes that its peer has sent and that were not read yet. -/
structure Connection (B : Beast) where
  session : Session B
  wire : Text

/-- An event takes its bytes from the front of the wire and runs its callback. -/
structure Connection.Step (w : World B) (c : Connection B) (e : Session.Event)
    (d : Connection B) : Prop where
  enabled : c.session.Enabled e
  delivers : c.session.deliver w e = .ok d.session
  wire : c.wire = e.bytes ++ d.wire

/-- Runs of a connection in which every step meets a condition. -/
inductive Connection.Reaches (w : World B)
    (P : Connection B → Session.Event → Connection B → Prop) (c : Connection B) :
    Connection B → Prop where
  | refl : Reaches w P c c
  | step {d f e} (hrun : Reaches w P c d) (hP : P d e f) (hstep : d.Step w e f) : Reaches w P c f

/-- What holds at the beginning of a run and is kept by its steps holds in every state reached. -/
theorem Connection.Reaches.induct {w : World B}
    {P : Connection B → Session.Event → Connection B → Prop} {I : Connection B → Prop}
    {c d : Connection B} (h : Connection.Reaches w P c d) (hstart : I c)
    (hkeeps : ∀ d e f, I d → P d e f → d.Step w e f → I f) : I d := by
  induction h with
  | refl => exact hstart
  | step _ hP hstep ih => exact hkeeps _ _ _ ih hP hstep

end Aite
