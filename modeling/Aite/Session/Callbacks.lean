import Aite.Session.Exchange

/-!
# What a callback does

A callback that returns has done one of eight things, with everything else of the session left as
it was. Invariants of sessions are read off this list.
-/

namespace Aite

open Http Routing
open Session

variable {B : Beast}

namespace Session

/-- The response of a session is being written, and was reported. -/
def answering (s : Session B) (metrics : List Metric) : Session B :=
  logRequest (startWrite { s with metrics })

/-- What a callback does that returns. -/
inductive Does (w : World B) (s : Session B) : Event → Session B → Prop where
  /-- The header goes on. -/
  | waits {data : Text} {r : ParseResult B} (hparse : parse s.parserState s.request data = .ok r)
      (hverdict : r.verdict = .indeterminate) (hlength : 0 ≤ contentLength r.req.fields) :
      Does w s (.headerRead data)
        { s with parserState := r.state, request := r.req, pending := .readSome }
  /-- The header, or its target, is answered with an error page. -/
  | refuses {data : Text} {r : ParseResult B} {message : Text} {metrics : List Metric}
      {requestHandler : Option (Option HandlerPtr)}
      (hparse : parse s.parserState s.request data = .ok r)
      (hhandler : requestHandler = s.requestHandler ∨ requestHandler = some none) :
      Does w s (.headerRead data) <| answering { s with
        parserState := r.state, request := r.req, requestHandler
        response := showErrorPage B 400 message } metrics
  /-- The request has come whole, and its handler is called. -/
  | calls {data : Text} {r : ParseResult B} {handler : HandlerPtr} {body : Text}
      {response : Response B} {metrics : List Metric}
      (hparse : parse s.parserState s.request data = .ok r) (haccepted : r.verdict = .true)
      (hrouted : w.server.getRequestHandler r.req.target = .ok (some handler))
      (hlength : (body.length : ℤ) = contentLength r.req.fields)
      (hbody : body <+: data.drop r.consumed)
      (hcall : w.handleRequest s.handled.length handler { r.req with body := r.req.body ++ body } =
        .ok response) :
      Does w s (.headerRead data) <| answering { s with
        parserState := r.state, request := { r.req with body := r.req.body ++ body }
        requestHandler := some (some handler), response
        handled := s.handled ++ [(handler, { r.req with body := r.req.body ++ body })] } metrics
  /-- A part of the body is still to come. -/
  | awaits {data : Text} {r : ParseResult B} {handler : HandlerPtr} {length : ℕ}
      (hparse : parse s.parserState s.request data = .ok r) (haccepted : r.verdict = .true)
      (hrouted : w.server.getRequestHandler r.req.target = .ok (some handler))
      (hlength : ((data.drop r.consumed).length + length : ℤ) = contentLength r.req.fields) :
      Does w s (.headerRead data) { s with
        parserState := r.state
        request := { r.req with body := r.req.body ++ data.drop r.consumed }
        requestHandler := some (some handler), pending := .read length }
  /-- The rest of the body has come, and the handler is called. -/
  | completes {data : Text} {handler : HandlerPtr} {response : Response B} {metrics : List Metric}
      (hhandler : s.requestHandler = some (some handler))
      (hcall : w.handleRequest s.handled.length handler
        { s.request with body := s.request.body ++ (s.bodyData ++ data) } = .ok response) :
      Does w s (.bodyRead data) <| answering { s with
        bodyData := s.bodyData ++ data
        request := { s.request with body := s.request.body ++ (s.bodyData ++ data) }, response
        handled := s.handled ++
          [(handler, { s.request with body := s.request.body ++ (s.bodyData ++ data) })] } metrics
  /-- The rest of the body has come, and there is no handler. -/
  | rejects {data : Text} {metrics : List Metric} (hhandler : s.requestHandler = some none) :
      Does w s (.bodyRead data) <| answering { s with
        bodyData := s.bodyData ++ data
        request := { s.request with body := s.request.body ++ (s.bodyData ++ data) }
        response := showErrorPage B 400 (text "N/A") } metrics
  /-- The response was written, and the next header is read. -/
  | restarts :
      Does w s .written { s with
        pending := .readSome, parserState := .methodStart
        request := { s.request with fields := B.empty, body := [] }, bodyData := [] }
  /-- The operation failed. -/
  | ends {data : Text} :
      Does w s (.failed data) { s with pending := .none, bodyData := s.bodyData ++ data }

variable {w : World B} {s t u : Session B} {e : Event}

/-- A write that returns. -/
theorem exists_answering (h : u.write w = .ok t) : ∃ metrics, t = u.answering metrics :=
  exists_of_write h

/-- A handler that returns and the write of its response. -/
private theorem exists_called {handler : HandlerPtr}
    (h : (do let v ← u.callHandler w handler; v.write w) = .ok t) :
    ∃ response metrics, w.handleRequest u.handled.length handler u.request = .ok response ∧
      t = answering { u with
        response, handled := u.handled ++ [(handler, u.request)] } metrics := by
  obtain ⟨v, hcall, hwrite⟩ := run_bind_eq_ok.mp h
  obtain ⟨metrics, rfl⟩ := exists_answering hwrite
  unfold Session.callHandler at hcall
  cases hanswer : w.handleRequest u.handled.length handler u.request with
  | error thrown =>
    rw [hanswer] at hcall
    cases hcall
  | ok response =>
    rw [hanswer] at hcall
    obtain rfl := Except.ok.inj hcall
    exact ⟨response, metrics, rfl, rfl⟩

/-- Reading a header. -/
private theorem does_of_header {data : Text} (h : s.deliver w (.headerRead data) = .ok t) :
    s.Does w (.headerRead data) t := by
  obtain ⟨r, hparse, h⟩ := run_bind_eq_ok.mp h
  dsimp only at hparse h
  by_cases hbad : r.verdict = .false ∨ contentLength r.req.fields < 0
  · rw [if_pos hbad] at h
    obtain ⟨-, -, h⟩ := run_bind_eq_ok.mp h
    obtain ⟨metrics, rfl⟩ := exists_answering h
    exact .refuses hparse (.inl rfl)
  · rw [if_neg hbad] at h
    obtain ⟨hrefused, hnonneg⟩ := not_or.mp hbad
    by_cases hgood : r.verdict = .true
    · rw [if_pos hgood] at h
      obtain ⟨-, -, h⟩ := run_bind_eq_ok.mp h
      obtain ⟨ptr, hrouted, h⟩ := run_bind_eq_ok.mp h
      cases ptr with
      | none =>
        obtain ⟨-, -, h⟩ := run_bind_eq_ok.mp h
        obtain ⟨metrics, rfl⟩ := exists_answering h
        exact .refuses hparse (.inr rfl)
      | some handler =>
        simp only [logAddress_write] at h
        by_cases hlength : contentLength r.req.fields = 0
        · rw [if_pos hlength] at h
          obtain ⟨response, metrics, hcall, rfl⟩ := exists_called h
          have hcalls := @Does.calls B w s data r handler [] response metrics hparse hgood hrouted
            hlength.symm List.nil_prefix
          simp only [List.append_nil] at hcalls
          exact hcalls hcall
        · rw [if_neg hlength] at h
          obtain ⟨-, -, h⟩ := run_bind_eq_ok.mp h
          by_cases hwhole : contentLength r.req.fields ≤ (data.length - r.consumed : ℕ)
          · rw [if_pos hwhole] at h
            obtain ⟨response, metrics, hcall, rfl⟩ := exists_called h
            refine .calls hparse hgood hrouted ?_ (List.take_prefix _ _) hcall
            rw [List.length_take, List.length_drop]
            omega
          · rw [if_neg hwhole] at h
            obtain ⟨-, -, h⟩ := run_bind_eq_ok.mp h
            rw [← Except.ok.inj h]
            refine .awaits hparse hgood hrouted ?_
            rw [List.length_drop]
            omega
    · rw [if_neg hgood] at h
      obtain ⟨-, -, h⟩ := run_bind_eq_ok.mp h
      rw [eq_of_readHeader h]
      have hverdict : r.verdict = .indeterminate := by
        cases hv : r.verdict <;> simp_all
      exact .waits hparse hverdict (not_lt.mp hnonneg)

/-- Every callback that returns does one of these things. -/
theorem does_of_deliver (h : s.deliver w e = .ok t) : s.Does w e t := by
  cases e with
  | headerRead data => exact does_of_header h
  | bodyRead data =>
    simp only [Session.deliver, Session.handleReadBody] at h
    split at h
    · cases h
    · rename_i hhandler
      obtain ⟨metrics, rfl⟩ := exists_answering h
      exact .rejects hhandler
    · rename_i handler hhandler
      obtain ⟨response, metrics, hcall, rfl⟩ := exists_called h
      exact .completes hhandler hcall
  | written =>
    rw [eq_of_written h]
    exact .restarts
  | failed data =>
    rw [eq_of_failed h]
    exact .ends

end Session

end Aite
