import Aite.Handlers.BodyRewriting
import Aite.Session.BodyFraming

/-!
# When the other server fails

The proxy does its exchange with the other server within a callback of a session. An exception
there is caught by nobody: it leaves the callback and the thread that runs it, which ends the
process with all of its sessions. So a proxied request is answered exactly when the exchange
goes well from beginning to end.
-/

namespace Aite

open Handlers Http Insertion Routing
open Session

variable {B : Beast}

/-- The server's process with its sessions, until a callback throws. -/
inductive Process (B : Beast) where
  | running (sessions : List (Session B))
  | terminated

/-- A thread of the pool runs the callback of one session. Nothing catches what it throws. -/
def Process.runCallback (w : World B) (sessions : List (Session B)) (i : ℕ) (e : Event) :
    Process B :=
  match sessions[i]? with
  | none => .running sessions
  | some s =>
    match s.deliver w e with
    | .ok t => .running (sessions.set i t)
    | .error _ => .terminated

/-- The callback hands this request to this handler. -/
inductive Dispatches (w : World B) (s : Session B) : Event → HandlerPtr → Request B → Prop where
  /-- The header of a request without a body was read to its end. -/
  | header {data r ptr} (hparse : parse s.parserState s.request data = .ok r)
      (hverdict : r.verdict = .true) (hlength : contentLength r.req.fields = 0)
      (hrouted : w.server.getRequestHandler r.req.target = .ok (some ptr)) :
      Dispatches w s (.headerRead data) ptr r.req
  /-- The header of a request was read to its end with the body behind it. -/
  | message {data r ptr} (hparse : parse s.parserState s.request data = .ok r)
      (hverdict : r.verdict = .true) (hpositive : 0 < contentLength r.req.fields)
      (hlength : contentLength r.req.fields ≤ (data.length - r.consumed : ℕ))
      (hrouted : w.server.getRequestHandler r.req.target = .ok (some ptr)) :
      Dispatches w s (.headerRead data) ptr { r.req with
        body := r.req.body ++ (data.drop r.consumed).take (contentLength r.req.fields).toNat }
  /-- The rest of a body was read. -/
  | body {data ptr} (hhandler : s.requestHandler = some (some ptr)) :
      Dispatches w s (.bodyRead data) ptr { s.request with
        body := s.request.body ++ (s.bodyData ++ data) }

/-- A handler of the server is this proxy. -/
def ProxyAt (w : World B) (ptr : HandlerPtr) (io : ResponseIO B) (h : ReverseProxyRequestHandler)
    (net : ℕ → Upstream B) : Prop :=
  ∀ call req, h.handleRequest io (performRequest (net call)) req =
    (w.handleRequest call ptr req).mapError Abort.thrown

/-- The process goes on with all sessions, and this session has started to write one response. -/
def AnsweredOnce (w : World B) (sessions : List (Session B)) (i : ℕ) (s : Session B) (e : Event) :
    Prop :=
  ∃ t response, Process.runCallback w sessions i e = .running (sessions.set i t) ∧
    t.written = s.written ++ [response]

/-- The request that the proxy sends on. -/
def sentRequest (h : ReverseProxyRequestHandler) (req : Request B) : Request B :=
  h.proxiedRequest req ((h.forwardedTarget req.target).toOption.getD [])

/-- Every step of the exchange goes well: the target is not shorter than the location, the other
server is found, reached, sent the request and heard, the connection is closed or already was,
and the response has a body only if its status allows one. -/
structure GoesWell (h : ReverseProxyRequestHandler) (net : Upstream B) (req : Request B) : Prop where
  long : h.location.length ≤ req.target.length
  resolves : net.resolves h.host h.port = true
  connects : net.connects h.host h.port = true
  writes : net.writes (sentRequest h req) = true
  reads : ∃ resp, net.reads (sentRequest h req) = some resp ∧
    (resp.body = [] ∨ forbidsBody resp.result = false)
  shutdown : net.shutdown (sentRequest h req) ≠ .failed

/-! ## The handler -/

/-- Preparing a payload fails for a forbidden body. -/
private theorem preparePayload_isOk_iff (io : ResponseIO B) (resp : Response B) :
    (∃ out, preparePayload io resp = .ok out) ↔
      resp.body = [] ∨ forbidsBody resp.result = false := by
  unfold preparePayload
  by_cases h : resp.body ≠ [] ∧ forbidsBody resp.result = true
  · simp [h]
  · rw [if_neg h]
    simp only [Except.ok.injEq, exists_eq', true_iff]
    by_contra hnone
    rw [not_or, Bool.not_eq_false] at hnone
    exact h hnone

/-- A redirect has the status and the body of the response. -/
private theorem redirected_eq (io : ResponseIO B) (h : ReverseProxyRequestHandler)
    (resp : Response B) :
    (h.redirected io resp).result = resp.result ∧ (h.redirected io resp).body = resp.body := by
  unfold ReverseProxyRequestHandler.redirected
  split_ifs <;> exact ⟨rfl, rfl⟩

/-- A response is prepared unless it has a forbidden body. -/
theorem prepareProxiedResp_isOk_iff (io : ResponseIO B) (h : ReverseProxyRequestHandler)
    (resp : Response B) :
    (∃ out, h.prepareProxiedResp io (h.redirected io resp) = .ok out) ↔
      resp.body = [] ∨ forbidsBody resp.result = false := by
  obtain ⟨hresult, hbody⟩ := redirected_eq io h resp
  rw [prepareProxiedResp_passes, preparePayload_isOk_iff]
  simp only [unchunked]
  rw [passes_eq_nil_iff h fun _ hr => hr, hresult, hbody]

/-- The exchange succeeds with a response when each of its steps does. -/
theorem performRequest_eq_ok_iff {net : Upstream B} {host port : Text} {req : Request B}
    {resp : Response B} :
    performRequest net host port req = .ok resp ↔
      net.resolves host port = true ∧ net.connects host port = true ∧ net.writes req = true ∧
        net.reads req = some resp ∧ net.shutdown req ≠ .failed := by
  unfold performRequest
  by_cases hshutdown : net.shutdown req = .failed
  · cases net.resolves host port <;> cases net.connects host port <;> cases net.writes req <;>
      cases net.reads req <;> simp [hshutdown]
  · cases net.resolves host port <;> cases net.connects host port <;> cases net.writes req <;>
      cases net.reads req <;> simp [hshutdown]

/-- The proxy answers exactly when the exchange goes well. -/
theorem handleRequest_isOk_iff (io : ResponseIO B) (h : ReverseProxyRequestHandler)
    (net : Upstream B) (req : Request B) :
    (∃ out, h.handleRequest io (performRequest net) req = .ok out) ↔ GoesWell h net req := by
  by_cases hlong : h.location.length ≤ req.target.length
  · obtain ⟨target, htarget⟩ : ∃ target, h.forwardedTarget req.target = .ok target :=
      ⟨_, if_pos hlong⟩
    have hsent : sentRequest h req = h.proxiedRequest req target := by
      rw [sentRequest, htarget]
      rfl
    have hrun : h.handleRequest io (performRequest net) req =
        performRequest net h.host h.port (sentRequest h req) >>= fun resp =>
          h.prepareProxiedResp io (h.redirected io resp) := by
      rw [ReverseProxyRequestHandler.handleRequest, htarget, run_ok_bind, hsent]
    rw [hrun]
    constructor
    · rintro ⟨out, hout⟩
      obtain ⟨resp, hperform, hout⟩ := run_bind_eq_ok.mp hout
      obtain ⟨hresolves, hconnects, hwrites, hreads, hshutdown⟩ :=
        performRequest_eq_ok_iff.mp hperform
      exact ⟨hlong, hresolves, hconnects, hwrites,
        ⟨resp, hreads, (prepareProxiedResp_isOk_iff io h resp).mp ⟨out, hout⟩⟩, hshutdown⟩
    · rintro ⟨-, hresolves, hconnects, hwrites, ⟨resp, hreads, hbody⟩, hshutdown⟩
      rw [performRequest_eq_ok_iff.mpr ⟨hresolves, hconnects, hwrites, hreads, hshutdown⟩,
        run_ok_bind]
      exact (prepareProxiedResp_isOk_iff io h resp).mpr hbody
  · constructor
    · rintro ⟨out, hout⟩
      rw [ReverseProxyRequestHandler.handleRequest,
        ReverseProxyRequestHandler.forwardedTarget, if_neg hlong] at hout
      cases hout
    · exact fun hwell => absurd hwell.long hlong

/-- A failed exchange throws a system error. -/
private theorem performRequest_error {net : Upstream B} {host port : Text} {req : Request B}
    {a : Abort} (ha : performRequest net host port req = .error a) : a = .thrown .systemError := by
  unfold performRequest at ha
  split at ha
  · exact (Except.error.inj ha).symm
  · split at ha
    · exact (Except.error.inj ha).symm
    · split at ha
      · exact (Except.error.inj ha).symm
      · cases ha

/-- The proxy ends without an answer only by an exception. -/
theorem handleRequest_error {io : ResponseIO B} {h : ReverseProxyRequestHandler} {net : Upstream B}
    {req : Request B} {a : Abort}
    (ha : h.handleRequest io (performRequest net) req = .error a) :
    ∃ thrown, thrown ≠ .handlerError ∧ a = .thrown thrown := by
  unfold ReverseProxyRequestHandler.handleRequest at ha
  cases hforward : h.forwardedTarget req.target with
  | error b =>
    rw [hforward, run_error_bind] at ha
    unfold ReverseProxyRequestHandler.forwardedTarget at hforward
    split at hforward
    · cases hforward
    · exact ⟨.outOfRange, by decide,
        (Except.error.inj ha).symm.trans (Except.error.inj hforward).symm⟩
  | ok target =>
    rw [hforward, run_ok_bind] at ha
    cases hperform : performRequest net h.host h.port (h.proxiedRequest req target) with
    | error b =>
      rw [hperform, run_error_bind] at ha
      exact ⟨.systemError, by decide, (Except.error.inj ha).symm.trans (performRequest_error hperform)⟩
    | ok resp =>
      rw [hperform, run_ok_bind, prepareProxiedResp_passes, preparePayload] at ha
      split at ha
      · exact ⟨.invalidArgument, by decide, (Except.error.inj ha).symm⟩
      · cases ha

/-! ## The callback -/

variable {w : World B} {s : Session B} {e : Event} {ptr : HandlerPtr} {req : Request B}

/-- The session when its callback calls a handler. -/
def calling (s : Session B) (parserState : State) (bodyData : Text) (ptr : HandlerPtr)
    (req : Request B) : Session B :=
  { s with
    pending := .none
    parserState
    request := req
    requestHandler := some (some ptr)
    bodyData }

/-- With its peer connected, the callback calls the handler and writes what it answers. -/
theorem deliver_of_dispatches (hdispatch : Dispatches w s e ptr req)
    (hconnected : s.connected = true) : ∃ parserState bodyData, s.deliver w e =
      (do let u ← (calling s parserState bodyData ptr req).callHandler w ptr; u.write w) := by
  cases hdispatch with
  | @header data r ptr hparse hverdict hlength hrouted =>
    refine ⟨r.state, s.bodyData, ?_⟩
    simp (disch := exact hconnected) only [Session.deliver, Session.handleReadHeader, hparse,
      run_ok_bind, hlength, hverdict, hrouted, logAddress_write, reduceCtorEq, lt_irrefl, or_self,
      if_false, if_true, logAddress_of_connected]
    rfl
  | @message data r ptr hparse hverdict hpositive hlength hrouted =>
    refine ⟨r.state, s.bodyData, ?_⟩
    have hne : ¬ contentLength r.req.fields = 0 := by omega
    have hnonneg : ¬ contentLength r.req.fields < 0 := by omega
    simp (disch := exact hconnected) only [Session.deliver, Session.handleReadHeader, hparse,
      run_ok_bind, hne, hnonneg, hverdict, hrouted, logAddress_write, reduceCtorEq, or_self,
      if_false, if_true, logAddress_of_connected, hlength]
    rfl
  | @body data ptr hhandler =>
    refine ⟨s.parserState, s.bodyData ++ data, ?_⟩
    simp only [Session.deliver, Session.handleReadBody, Session.appendBody, hhandler]
    rfl

/-- Without its peer, a write throws. -/
private theorem write_of_not_connected (hconnected : s.connected = false) :
    ∃ a, s.write w = .error a := by
  rw [Session.write, Session.logSessionMetric, logAddress_of_not_connected hconnected,
    run_error_bind]
  exact ⟨_, rfl⟩

/-- Without its peer, a callback throws, at the latest when it logs the response. -/
theorem deliver_of_not_connected (hconnected : s.connected = false) (e : Event) :
    ∃ a, s.deliver w e = .error a := by
  cases e with
  | headerRead data =>
    simp (disch := exact hconnected) only [Session.deliver, Session.handleReadHeader,
      logAddress_of_not_connected, run_error_bind, ite_self]
    cases parse s.parserState s.request data with
    | error a => exact ⟨a, rfl⟩
    | ok r => exact ⟨_, rfl⟩
  | bodyRead data =>
    simp only [Session.deliver, Session.handleReadBody, Session.appendBody, Session.callHandler]
    cases hhandler : s.requestHandler with
    | none => exact ⟨_, rfl⟩
    | some ptr =>
      cases ptr with
      | none => exact write_of_not_connected hconnected
      | some handler =>
        simp only
        cases w.handleRequest s.handled.length handler _ with
        | error thrown => exact ⟨_, rfl⟩
        | ok response => exact write_of_not_connected hconnected
  | written =>
    simp (disch := exact hconnected) only [Session.deliver, Session.handleWrite,
      logAddress_of_not_connected, run_error_bind]
    exact ⟨_, rfl⟩
  | failed data =>
    simp (disch := exact hconnected) only [Session.deliver, Session.handleError,
      logAddress_of_not_connected, run_error_bind]
    exact ⟨_, rfl⟩

/-- A callback that returns goes on with the process; one that throws ends it. -/
private theorem answeredOnce_iff_deliver {sessions : List (Session B)} {i : ℕ}
    (hs : sessions[i]? = some s) :
    AnsweredOnce w sessions i s e ↔
      ∃ t response, s.deliver w e = .ok t ∧ t.written = s.written ++ [response] := by
  unfold AnsweredOnce Process.runCallback
  rw [hs]
  obtain ⟨hi, rfl⟩ := List.getElem?_eq_some_iff.mp hs
  constructor
  · rintro ⟨t, response, hrun, hwritten⟩
    cases hdeliver : sessions[i].deliver w e with
    | error a => simp [hdeliver] at hrun
    | ok u =>
      simp only [hdeliver, Process.running.injEq] at hrun
      have hset := congrArg (·[i]?) hrun
      simp only [List.getElem?_set_self hi, Option.some.injEq] at hset
      exact ⟨u, response, rfl, hset ▸ hwritten⟩
  · rintro ⟨t, response, hdeliver, hwritten⟩
    exact ⟨t, response, by simp only [hdeliver], hwritten⟩

/-- A proxied request is answered once, and the process goes on with all sessions, exactly when
the peer is still there and the exchange with the other server goes well. -/
theorem answeredOnce_iff {io : ResponseIO B} {h : ReverseProxyRequestHandler}
    {net : ℕ → Upstream B} (hproxy : ProxyAt w ptr io h net) {sessions : List (Session B)} {i : ℕ}
    (hs : sessions[i]? = some s) (hdispatch : Dispatches w s e ptr req) :
    AnsweredOnce w sessions i s e ↔
      s.connected = true ∧ GoesWell h (net s.handled.length) req := by
  rw [answeredOnce_iff_deliver hs, ← handleRequest_isOk_iff io, hproxy]
  cases hconnected : s.connected with
  | false =>
    obtain ⟨a, hdeliver⟩ := deliver_of_not_connected (w := w) hconnected e
    simp [hdeliver]
  | true =>
    obtain ⟨parserState, bodyData, hdeliver⟩ := deliver_of_dispatches hdispatch hconnected
    rw [hdeliver]
    cases hanswer : w.handleRequest s.handled.length ptr req with
    | error thrown =>
      rw [callHandler_error (s := calling s parserState bodyData ptr req) hanswer]
      simp [Except.mapError]
    | ok response =>
      rw [callHandler_ok (s := calling s parserState bodyData ptr req) hanswer, run_ok_bind]
      obtain ⟨t, hwrite, -, -, -, hwritten⟩ := write_ok (w := w)
        (s := { calling s parserState bodyData ptr req with
          response := response
          handled := s.handled ++ [(ptr, req)] }) hconnected rfl
      constructor
      · exact fun _ => ⟨rfl, response, rfl⟩
      · exact fun _ => ⟨t, response, hwrite, hwritten⟩

/-! ## A server with one proxy -/

/-- The other server answers with a page when it can be reached. -/
def pageUpstream (reachable : Bool) : Upstream Beast.lists where
  resolves _ _ := true
  connects _ _ := reachable
  writes _ := true
  reads _ := some { body := linkedPage }
  shutdown _ := .closed

/-- A server with a proxy at `/proxy`. -/
def proxyWorld (net : ℕ → Upstream Beast.lists) : World Beast.lists where
  server :=
    { locationToHandler := [(text "/proxy", 0)]
      typeToHandler := [(text "ReverseProxyHandler", [0])] }
  handleRequest call _ req :=
    match proxyHandler.handleRequest listsResponseIO (performRequest (net call)) req with
    | .ok response => .ok response
    | .error (.thrown e) => .error e
    | .error _ => .error .handlerError

/-- The handler of the server is the proxy. -/
theorem proxyAt_proxyWorld (net : ℕ → Upstream Beast.lists) :
    ProxyAt (proxyWorld net) 0 listsResponseIO proxyHandler net := by
  intro call req
  simp only [proxyWorld]
  cases hanswer : proxyHandler.handleRequest listsResponseIO (performRequest (net call)) req with
  | ok response => rfl
  | error a =>
    obtain ⟨thrown, -, rfl⟩ := handleRequest_error hanswer
    rfl

/-- A request for the proxy. -/
def proxyRequest : Text := text "GET /proxy/ HTTP/1.1\r\n\r\n"

/-- A session that waits for its first request. -/
def waiting : Session Beast.lists := { pending := .readSome }

/-- The request is handed to the proxy. -/
theorem dispatches_proxyRequest (net : ℕ → Upstream Beast.lists) :
    ∃ req : Request Beast.lists, req.target = text "/proxy/" ∧
      Dispatches (proxyWorld net) waiting (.headerRead proxyRequest) 0 req :=
  ⟨_, rfl, .header rfl rfl rfl rfl⟩

/-- With the other server there, one session is answered and another one goes on. -/
theorem answeredOnce_reachable :
    AnsweredOnce (proxyWorld fun _ => pageUpstream true) [waiting, waiting] 0 waiting
      (.headerRead proxyRequest) := by
  obtain ⟨req, htarget, hdispatch⟩ := dispatches_proxyRequest fun _ => pageUpstream true
  refine (answeredOnce_iff (proxyAt_proxyWorld _) rfl hdispatch).mpr ⟨rfl, ?_⟩
  refine ⟨?_, rfl, rfl, rfl, ⟨_, rfl, Or.inr rfl⟩, Shutdown.noConfusion⟩
  rw [htarget]
  decide

/-- When the connection to the other server fails, the process ends. -/
theorem not_answeredOnce_unreachable :
    ¬ ∀ (net : ℕ → Upstream Beast.lists) (sessions : List (Session Beast.lists)) (i : ℕ)
      (s : Session Beast.lists) (e : Event) (ptr : HandlerPtr) (req : Request Beast.lists),
      sessions[i]? = some s → s.connected = true → Dispatches (proxyWorld net) s e ptr req →
        AnsweredOnce (proxyWorld net) sessions i s e := by
  intro h
  obtain ⟨req, -, hdispatch⟩ := dispatches_proxyRequest fun _ => pageUpstream false
  obtain ⟨t, response, hrun, -⟩ := h (fun _ => pageUpstream false) [waiting, waiting] 0 waiting
    (.headerRead proxyRequest) 0 req rfl rfl hdispatch
  have hterminated : Process.runCallback (proxyWorld fun _ => pageUpstream false)
      [waiting, waiting] 0 (.headerRead proxyRequest) = .terminated := rfl
  rw [hterminated] at hrun
  cases hrun

end Aite
