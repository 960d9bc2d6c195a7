import Aite.Handlers.Echo
import Aite.Handlers.MemeUpload
import Aite.Handlers.ReverseProxy
import Aite.Handlers.StaticFile
import Aite.Lib.SharedStore
import Aite.Routing.Table
import Aite.Server.StatusPage
import Aite.Session.Callbacks
import Aite.Session.PeerReset

/-!
# The whole server

All sessions share the gallery, the counts of the requests and the file system. The server runs
with one thread, one of the numbers it can be started with: a callback of a session, in which a
handler may read and change what is shared, runs to its end before another one begins. Several
threads would read and change the maps of the server without a common lock, and nothing that is
said here holds of them. The report of a request is an action of its own, which comes at any time
after its response was started. A callback that throws ends the process, and behind one that runs
into undefined behaviour nothing is known, so no run goes on behind either.
-/

namespace Aite

open Handlers Http KeyedList Routing SharedStore
open Session

variable {B : Beast}

/-- What the handlers share. -/
structure Shared where
  memes : Memes := []
  requests : Requests := []
  fs : FileSystem

/-- What the server works with and does not change. What an upload and an exchange with another
server meet is given for each call of each session. -/
structure Deployment (B : Beast) where
  registry : Registry
  io : RequestIO B
  responseIO : ResponseIO B
  intToStatus : ℕ → ℕ
  outside : ℕ → ℕ → Outside
  upstream : ℕ → ℕ → Upstream B
  /-- Whether two paths name the same file. -/
  sameFile : Text → Text → Bool

/-- Why a handler does not answer. -/
inductive Failure where
  | abort (a : Abort)
  /-- A number is converted that does not exist. -/
  | undefinedConversion
  deriving DecidableEq, Repr

/-- The files after a whole file was written. -/
def writeFile (sameFile : Text → Text → Bool) (fs : FileSystem) (path content : Text) :
    FileSystem :=
  { fs with contents := fun other => if sameFile other path then some content else fs.contents other }

namespace Deployment

variable (d : Deployment B)

/-- What a handler does with the request of a call. -/
def handlerCall (client call : ℕ) (shared : Shared) (req : Request B) :
    Handler → Shared × Except Failure (Response B)
  | .echo => (shared, .ok (EchoRequestHandler.handleRequest d.io.write req))
  | .staticFile h => (shared, .ok (h.handleRequest shared.fs req))
  | .reverseProxy h =>
    (shared, (h.handleRequest d.responseIO (performRequest (d.upstream client call)) req).mapError
      .abort)
  | .notFound => (shared, .ok (NotFoundRequestHandler.handleRequest req))
  | .sleep => (shared, .ok (SleepHandler.handleRequest req))
  | .meme h =>
    let outcome := h.handleRequest d.io shared.fs d.registry.cwd (d.outside client call)
      shared.memes req
    ({ shared with
        memes := outcome.memes
        fs := match outcome.file with
          | none => shared.fs
          | some (path, content) => writeFile d.sameFile shared.fs path content },
      outcome.response.mapError .abort)
  | .status =>
    -- the server has passed itself to the handler
    match StatusRequestHandler.handleRequest
        (some ⟨shared.requests, d.registry.handlerToPrefixes⟩) req with
    | some response => (shared, .ok response)
    | none => (shared, .error .undefinedConversion)
  | .health => (shared, .ok (HealthRequestHandler.handleRequest true req))

/-- `request_handler_->handle_request(request_)` -/
def handleRequest (client call : ℕ) (shared : Shared) (ptr : HandlerPtr) (req : Request B) :
    Shared × Except Failure (Response B) :=
  match d.registry.handlers[ptr]? with
  | none => (shared, .error (.abort (.fault .dangling)))
  | some handler => d.handlerCall client call shared req handler

/-- The answers that a session gets at one moment. What a handler leaves undefined is none of the
exceptions that it throws. -/
def world (client : ℕ) (shared : Shared) : World B where
  server := d.registry.toServer
  handleRequest call ptr req :=
    match (d.handleRequest client call shared ptr req).2 with
    | .ok response => .ok response
    | .error (.abort (.thrown exn)) => .error exn
    | .error _ => .error .handlerError

end Deployment

/-! ## The actions -/

/-- What was done to the shared data, for the record. -/
inductive Entry (B : Beast) where
  /-- A handler was called and has answered. -/
  | call (client call : ℕ) (ptr : HandlerPtr) (request : Request B) (response : Response B)
  /-- A request was reported with the status of its response. -/
  | report (client : ℕ) (reqResp : Text × ℕ)

/-- The shared data, followed by the record of what was done to it. -/
structure Store (B : Beast) where
  shared : Shared
  log : List (Entry B) := []

/-- A session, and its calls of `log_request` that are still to come. -/
structure Client (B : Beast) where
  session : Session B
  outstanding : ℕ := 0

/-- A callback of the session runs, its peer resets the connection, or a request is reported. -/
inductive ClientAction where
  | callback (e : Event)
  | reset
  | report
  deriving DecidableEq, Repr

/-- Whether an event completes the operation that the session waits for. -/
instance (s : Session B) (e : Event) : Decidable (s.Enabled e) :=
  match e with
  | .headerRead _ => inferInstanceAs (Decidable (_ ∧ _ ∧ _))
  | .bodyRead _ => inferInstanceAs (Decidable (_ = _))
  | .written => inferInstanceAs (Decidable (_ = _))
  | .failed data =>
    match h : s.pending with
    | .none => isFalse fun henabled => henabled.1 h
    | .read length => decidable_of_iff (data = [] ∨ data.length < length) (by
        simp [Enabled, h])
    | .readSome => decidable_of_iff (data = []) (by simp [Enabled, h])
    | .write => decidable_of_iff (data = []) (by simp [Enabled, h])

/-- The store after a callback, by the call that the session has made in it. -/
def Store.afterCallback (d : Deployment B) (client : ℕ) (store : Store B) (s t : Session B) :
    Store B :=
  match t.handled[s.handled.length]? with
  | none => store
  | some (ptr, req) =>
    { shared := (d.handleRequest client s.handled.length store.shared ptr req).1
      log := store.log ++ [.call client s.handled.length ptr req t.response] }

/-- A callback that has started a write leaves a report to come. -/
def Client.afterCallback (c : Client B) (t : Session B) : Client B where
  session := t
  outstanding :=
    if t.written.length = c.session.written.length then c.outstanding else c.outstanding + 1

/-- What a client does, unless it may not or its callback does not return. -/
def Client.act (d : Deployment B) (client : ℕ) (store : Store B) (c : Client B) :
    ClientAction → Option (Store B × Client B)
  | .callback e =>
    if c.session.Enabled e then
      match c.session.deliver (d.world client store.shared) e with
      | .ok t => some (store.afterCallback d client c.session t, c.afterCallback t)
      | .error _ => none
    else none
  | .reset => some (store, { c with session := { c.session with connected := false } })
  | .report =>
    if 0 < c.outstanding then
      let reqResp := reqRespOf d.intToStatus c.session.request c.session.response
      some
        ({ shared :=
            { store.shared with requests := logRequest store.shared.requests reqResp }
           log := store.log ++ [.report client reqResp] },
          { c with outstanding := c.outstanding - 1 })
    else none

/-- The clients of a server whose connections were accepted, on its one thread: their actions come
one after the other, in any order. -/
def Deployment.site (d : Deployment B) : System (Store B) (Client B) ClientAction where
  init c := (Serving.handleAccept true : Run (Session B)) = .ok c.session ∧ c.outstanding = 0
  step := fun client store c a => c.act d client store a

/-- The state in which the server starts. -/
def Deployment.start (_ : Deployment B) (fs : FileSystem) : Global (Store B) (Client B) where
  store := { shared := { fs } }

/-! ## What an action does -/

variable {d : Deployment B} {client : ℕ} {store : Store B} {c : Client B}
  {r : Store B × Client B} {s t : Session B} {e : Event} {w : World B}

/-- A callback makes no call, or one whose answer is written. -/
theorem handled_of_deliver (h : s.deliver w e = .ok t) :
    t.handled = s.handled ∨ ∃ ptr req, t.handled = s.handled ++ [(ptr, req)] ∧
      w.handleRequest s.handled.length ptr req = .ok t.response ∧
        t.written = s.written ++ [t.response] := by
  cases does_of_deliver h with
  | waits _ _ _ => exact .inl rfl
  | refuses _ _ => exact .inl rfl
  | calls _ _ _ _ _ hcall => exact .inr ⟨_, _, rfl, hcall, rfl⟩
  | awaits _ _ _ _ => exact .inl rfl
  | completes _ hcall => exact .inr ⟨_, _, rfl, hcall, rfl⟩
  | rejects _ => exact .inl rfl
  | restarts => exact .inl rfl
  | ends => exact .inl rfl

/-- No handler counts requests. -/
theorem requests_handleRequest (client number : ℕ) (shared : Shared) (ptr : HandlerPtr)
    (req : Request B) :
    (d.handleRequest client number shared ptr req).1.requests = shared.requests := by
  unfold Deployment.handleRequest
  cases d.registry.handlers[ptr]? with
  | none => rfl
  | some handler =>
    cases handler with
    | status =>
      simp only [Deployment.handlerCall]
      split <;> rfl
    | _ => rfl

/-- An answer that a session gets is the handler's. -/
theorem Deployment.world_eq_ok {shared : Shared} {call : ℕ} {ptr : HandlerPtr} {req : Request B}
    {response : Response B} :
    (d.world client shared).handleRequest call ptr req = .ok response ↔
      (d.handleRequest client call shared ptr req).2 = .ok response := by
  simp only [world]
  split <;> simp_all

/-- What a callback of a client has done to the shared data. -/
inductive Calls (d : Deployment B) (client : ℕ) (store : Store B) (s t : Session B) :
    Store B → Prop where
  | none (hhandled : t.handled = s.handled) : Calls d client store s t store
  | one {ptr req} (hhandled : t.handled = s.handled ++ [(ptr, req)])
      (hanswer : (d.handleRequest client s.handled.length store.shared ptr req).2 = .ok t.response)
      (hwritten : t.written = s.written ++ [t.response]) :
      Calls d client store s t
        { shared := (d.handleRequest client s.handled.length store.shared ptr req).1
          log := store.log ++ [.call client s.handled.length ptr req t.response] }

/-- What a client has done. -/
theorem Client.act_cases {a : ClientAction} (h : c.act d client store a = some r) :
    (∃ e t, a = .callback e ∧ c.session.Enabled e ∧
      c.session.deliver (d.world client store.shared) e = .ok t ∧
        Calls d client store c.session t r.1 ∧ r.2 = c.afterCallback t) ∨
    (a = .reset ∧ r = (store, { c with session := { c.session with connected := false } })) ∨
    (a = .report ∧ 0 < c.outstanding ∧
      r = ({ shared := { store.shared with
              requests := logRequest store.shared.requests
                (reqRespOf d.intToStatus c.session.request c.session.response) }
             log := store.log ++ [.report client
              (reqRespOf d.intToStatus c.session.request c.session.response)] },
        { c with outstanding := c.outstanding - 1 })) := by
  cases a with
  | callback e =>
    rw [Client.act] at h
    split_ifs at h with henabled
    cases hdeliver : c.session.deliver (d.world client store.shared) e with
    | error _ =>
      rw [hdeliver] at h
      cases h
    | ok t =>
      rw [hdeliver] at h
      obtain rfl := Option.some.inj h
      refine .inl ⟨e, t, rfl, henabled, hdeliver, ?_, rfl⟩
      simp only [Store.afterCallback]
      cases handled_of_deliver hdeliver with
      | inl hhandled =>
        rw [hhandled, List.getElem?_eq_none (le_refl _)]
        exact .none hhandled
      | inr hcalled =>
        obtain ⟨ptr, req, hhandled, hanswer, hwritten⟩ := hcalled
        rw [hhandled, List.getElem?_concat_length]
        exact .one hhandled (Deployment.world_eq_ok.mp hanswer) hwritten
  | reset => exact .inr (.inl ⟨rfl, (Option.some.inj h).symm⟩)
  | report =>
    rw [Client.act] at h
    split_ifs at h with houtstanding
    exact .inr (.inr ⟨rfl, houtstanding, (Option.some.inj h).symm⟩)

/-! ## A small server -/

/-- A server with an echo, a status page and memes. -/
def smallSite : Deployment Beast.lists where
  registry :=
    { handlers := [.echo, .status, .meme memesHandler]
      locationToHandler := [(text "/echo", 0), (text "/status", 1), (text "/meme", 2)]
      typeToHandler :=
        [(text "EchoHandler", [0]), (text "StatusHandler", [1]), (text "MemeHandler", [2])]
      handlerToPrefixes := [(text "EchoHandler", [text "/echo"]),
        (text "StatusHandler", [text "/status"]), (text "MemeHandler", [text "/meme"])] }
  io := listsIO
  responseIO := listsResponseIO
  intToStatus := id
  outside _ _ := somewhere
  upstream _ _ :=
    { resolves := fun _ _ => false, connects := fun _ _ => false, writes := fun _ => false
      reads := fun _ => none, shutdown := fun _ => .closed }
  sameFile path other := path = other

/-- The config of the small server. -/
def smallConfig : BlockGrammar.Block Text :=
  Routing.oneServer
    (.nested [text "location", text "/echo", text "EchoHandler"] .empty
      (.nested [text "location", text "/status", text "StatusHandler"] .empty
        (.nested [text "location", text "/meme", text "MemeHandler"]
          (.simple [text "root", memesHandler.root] .empty) .empty)))

/-- The state in which two clients have connected. -/
def twoClients : Global (Store Beast.lists) (Client Beast.lists) where
  store := { shared := { fs := { isDirectory := fun _ => false, contents := fun _ => none } } }
  locals := List.replicate 2 { session := { pending := .readSome } }

/-- The small server was made from its config. -/
theorem getHandlers_smallConfig :
    getHandlers twoClients.store.shared.fs smallConfig {} = .ok smallSite.registry := rfl

/-- The clients have connected. -/
theorem runs_twoClients (d : Deployment Beast.lists) :
    SharedStore.Run d.site (d.start twoClients.store.shared.fs) (twoClients.locals.map .join)
      twoClients := by
  have hinit : d.site.init { session := { pending := .readSome } } := ⟨rfl, rfl⟩
  exact (SharedStore.Run.refl.snoc (.join hinit)).snoc (.join hinit)

/-- A client asks for a target, the response is written, and the request is reported. -/
def asks (client : ℕ) (target : Text) : List (ℕ × ClientAction) :=
  [(client, .callback (.headerRead (text "GET " ++ target ++ text " HTTP/1.0\r\n\r\n"))),
    (client, .report), (client, .callback .written)]

end Aite
