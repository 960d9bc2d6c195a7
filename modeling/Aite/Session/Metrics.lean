import Aite.Session.BodyFraming
import Aite.Session.RequestCounts

/-!
# What is reported of a response

With each response a session reports the type of the handler and the target of the request. It
takes both from its members, which only a header that is accepted sets anew. So a report is about
its own request as long as no header is rejected. A header that is rejected is reported with what
the members still hold of an earlier request, and on a new session they hold nothing.
-/

namespace Aite

open Http Routing
open Session

variable {B : Beast}

/-- The requests of a session, each as the completions that delivered it: those whose response
was written, and the one that comes after them. -/
structure Delivered where
  answered : List (List Event) := []
  current : List Event := []

/-- A request ends with the write of its response. -/
def Delivered.extend (delivered : Delivered) : Counting.Action → Delivered
  | .callback .written => ⟨delivered.answered ++ [delivered.current], []⟩
  | .callback e => { delivered with current := delivered.current ++ [e] }
  | .logRequest => delivered

/-- The requests in the order in which they were sent. -/
def Delivered.requests (delivered : Delivered) : List (List Event) :=
  delivered.answered ++ [delivered.current]

/-- Runs in which every action meets a condition, with the requests that they deliver. -/
inductive Counting.Delivers (w : World B) (intToStatus : ℕ → ℕ)
    (P : Counting B → Counting.Action → Prop) (c : Counting B) : Delivered → Counting B → Prop where
  | refl : Delivers w intToStatus P c {} c
  | step {delivered d f a} (hrun : Delivers w intToStatus P c delivered d) (hP : P d a)
      (henabled : d.Enabled a) (hact : d.act w intToStatus a = .ok f) :
      Delivers w intToStatus P c (delivered.extend a) f

/-- The target in the header of a request, once it is accepted. -/
def targetOf : State → List Event → Option Text
  | state, .headerRead data :: rest =>
    match parseLoop state {} data with
    | .ok p => if p.verdict = .true then some p.parsed.uri else targetOf p.state rest
    | .error _ => none
  | _, _ => none

/-- The handler type and the target of a request, from nothing but the request. -/
def reportOf (server : Server) (request : List Event) : Option (Text × Text) := do
  let target ← targetOf .methodStart request
  let ptr ← (server.getRequestHandler target).toOption
  some (server.getHandlerType ptr, target)

/-- What the metrics of a response say of its request. -/
def Metric.report (metric : Metric) : Text × Text := (metric.handlerType, metric.target)

/-- The callback of an event gets past the parser. -/
def ParserReturns (s : Session B) : Event → Prop
  | .headerRead data => ∃ r, parse s.parserState s.request data = .ok r
  | _ => True

/-- No header is rejected, by the parser or for its content length. -/
def Unrejected (s : Session B) : Event → Prop
  | .headerRead data => ∀ r, parse s.parserState s.request data = .ok r →
      r.verdict ≠ .false ∧ 0 ≤ contentLength r.req.fields
  | _ => True

/-- Orderly actions that reject no header. -/
def Accepting (c : Counting B) (a : Counting.Action) : Prop :=
  Orderly c a ∧ ∀ e, a = .callback e → Unrejected c.session e

/-- Each response has its metrics, these and the target given to `log_request` are those of the
request at the same place, and the handler is not read before it was assigned by a callback that
meets the condition. -/
structure ReportsOwn (w : World B) (P : Counting B → Counting.Action → Prop) (delivered : Delivered)
    (c : Counting B) : Prop where
  written : c.session.metrics.length = c.session.written.length
  metrics : c.session.metrics.map (some ∘ Metric.report) <+:
    delivered.requests.map (reportOf w.server)
  recorded : c.recorded.map (some ∘ Prod.fst) <+:
    delivered.requests.map (Option.map Prod.snd ∘ reportOf w.server)
  assigned : ∀ e, P c (.callback e) → c.session.Enabled e → ParserReturns c.session e →
    c.session.deliver w e ≠ .error (.fault .uninitialised)

/-- A request that both runs have is reported alike, whatever came before it. -/
structure ReportAlike (delivered : Delivered) (c : Counting B) (delivered' : Delivered)
    (c' : Counting B) : Prop where
  metrics : ∀ (k k' : ℕ) request (metric metric' : Metric), delivered.requests[k]? = some request →
    delivered'.requests[k']? = some request → c.session.metrics[k]? = some metric →
      c'.session.metrics[k']? = some metric' → metric.report = metric'.report
  recorded : ∀ (k k' : ℕ) request (reqResp reqResp' : Text × ℕ),
    delivered.requests[k]? = some request →
    delivered'.requests[k']? = some request → c.recorded[k]? = some reqResp →
      c'.recorded[k']? = some reqResp' → reqResp.1 = reqResp'.1

variable {w : World B} {intToStatus : ℕ → ℕ} {s t u : Session B} {e : Event}

/-! ## What a callback reports -/

/-- The write of a response was started, and it was reported with the handler and the target that
the session has now. -/
structure Reported (w : World B) (s t : Session B) : Prop where
  pending : t.pending = .write
  written : t.written.length = s.written.length + 1
  metrics : ∃ ptr result, t.requestHandler = some ptr ∧
    t.metrics = s.metrics ++ [⟨w.server.getHandlerType ptr, t.request.target, result⟩]

/-- Nothing was reported. -/
structure Silent (s t : Session B) : Prop where
  written : t.written = s.written
  metrics : t.metrics = s.metrics

/-- A write that returns reports what the session has. -/
theorem reported_of_write (h : u.write w = .ok t) (hu : Silent s u) :
    Reported w s t ∧ t.requestHandler = u.requestHandler ∧
      t.request.target = u.request.target := by
  obtain ⟨v, hmetric, h⟩ := run_bind_eq_ok.mp h
  obtain ⟨-, -, h⟩ := run_bind_eq_ok.mp h
  obtain ⟨-, -, hmetric⟩ := run_bind_eq_ok.mp hmetric
  cases hhandler : u.requestHandler with
  | none =>
    rw [hhandler] at hmetric
    cases hmetric
  | some ptr =>
    rw [hhandler, Except.ok.injEq] at hmetric
    rw [← Except.ok.inj h, ← hmetric]
    refine ⟨⟨rfl, ?_, ptr, u.response.result, rfl, ?_⟩, rfl, rfl⟩
    · change (u.written ++ [u.response]).length = s.written.length + 1
      rw [hu.written, List.length_append, List.length_singleton]
    · change u.metrics ++ [_] = s.metrics ++ [_]
      rw [hu.metrics]
      rfl

/-- Calling a handler and writing its answer reports what the session has. -/
theorem reported_of_callHandler {handler : HandlerPtr}
    (h : (do let v ← u.callHandler w handler; v.write w) = .ok t) (hu : Silent s u) :
    Reported w s t ∧ t.requestHandler = u.requestHandler ∧
      t.request.target = u.request.target := by
  obtain ⟨v, hcall, h⟩ := run_bind_eq_ok.mp h
  unfold Session.callHandler at hcall
  cases hanswer : w.handleRequest u.handled.length handler u.request with
  | error thrown =>
    rw [hanswer] at hcall
    cases hcall
  | ok response =>
    rw [hanswer, Except.ok.injEq] at hcall
    subst hcall
    have hreported := reported_of_write (s := s) h ⟨hu.written, hu.metrics⟩
    exact hreported

/-- What a callback does with a header that is not rejected. -/
inductive HeaderRead (w : World B) (s : Session B) (data : Text) (t : Session B) : Prop where
  /-- More of the header is to come. -/
  | more {p} (hparse : parseLoop s.parserState {} data = .ok p) (hverdict : p.verdict ≠ .true)
      (hstate : t.parserState = p.state) (hpending : t.pending = .readSome) (hsilent : Silent s t)
  /-- The handler and the target are those of this request. -/
  | finished {p ptr} (hparse : parseLoop s.parserState {} data = .ok p)
      (hverdict : p.verdict = .true)
      (hrouted : w.server.getRequestHandler p.parsed.uri = .ok ptr)
      (hhandler : t.requestHandler = some ptr) (htarget : t.request.target = p.parsed.uri)
      (hreports : Reported w s t ∨ Silent s t ∧ ∃ length, t.pending = .read length)

/-- Reading a header that is not rejected. -/
theorem headerRead_of_unrejected {data : Text} (h : s.deliver w (.headerRead data) = .ok t)
    (hunrejected : Unrejected s (.headerRead data)) : HeaderRead w s data t := by
  obtain ⟨r, hparse, h⟩ := run_bind_eq_ok.mp h
  obtain ⟨hverdict, hlength⟩ := hunrejected r hparse
  obtain ⟨p, hloop, hsame, hstate, htarget, -⟩ := parse_eq_ok hparse
  have hgood : ¬ (r.verdict = .false ∨ contentLength r.req.fields < 0) := by
    rw [not_or, not_lt]
    exact ⟨hverdict, hlength⟩
  dsimp only at h
  rw [if_neg hgood] at h
  by_cases hfinished : r.verdict = .true
  · rw [if_pos hfinished] at h
    have hparsed : p.verdict = .true := hsame.symm.trans hfinished
    obtain ⟨-, -, h⟩ := run_bind_eq_ok.mp h
    obtain ⟨ptr, hrouted, h⟩ := run_bind_eq_ok.mp h
    rw [htarget hparsed] at hrouted
    cases ptr with
    | none =>
      obtain ⟨-, -, h⟩ := run_bind_eq_ok.mp h
      obtain ⟨hreported, hhandler, hkept⟩ := reported_of_write (s := s) h ⟨rfl, rfl⟩
      exact .finished hloop hparsed hrouted hhandler
        (hkept.trans (htarget hparsed)) (.inl hreported)
    | some handler =>
      simp only [logAddress_write] at h
      by_cases hzero : contentLength r.req.fields = 0
      · rw [if_pos hzero] at h
        obtain ⟨hreported, hhandler, hkept⟩ := reported_of_callHandler (s := s) h ⟨rfl, rfl⟩
        exact .finished hloop hparsed hrouted hhandler
          (hkept.trans (htarget hparsed)) (.inl hreported)
      · rw [if_neg hzero] at h
        obtain ⟨-, -, h⟩ := run_bind_eq_ok.mp h
        by_cases hwhole : contentLength r.req.fields ≤ (data.length - r.consumed : ℕ)
        · rw [if_pos hwhole] at h
          obtain ⟨hreported, hhandler, hkept⟩ := reported_of_callHandler (s := s) h ⟨rfl, rfl⟩
          exact .finished hloop hparsed hrouted hhandler
            (hkept.trans (htarget hparsed)) (.inl hreported)
        · rw [if_neg hwhole] at h
          obtain ⟨-, -, h⟩ := run_bind_eq_ok.mp h
          rw [← Except.ok.inj h]
          exact .finished hloop hparsed hrouted rfl (htarget hparsed)
            (.inr ⟨⟨rfl, rfl⟩, _, rfl⟩)
  · rw [if_neg hfinished] at h
    obtain ⟨-, -, h⟩ := run_bind_eq_ok.mp h
    rw [eq_of_readHeader h]
    exact .more hloop (hsame ▸ hfinished) hstate rfl ⟨rfl, rfl⟩

/-- Reading the rest of a body reports what the session has. -/
private theorem reported_of_bodyRead {data : Text} (h : s.deliver w (.bodyRead data) = .ok t) :
    Reported w s t ∧ t.requestHandler = s.requestHandler ∧
      t.request.target = s.request.target := by
  simp only [Session.deliver, Session.handleReadBody] at h
  split at h
  · cases h
  · obtain ⟨hreported, hhandler, hkept⟩ := reported_of_write (s := s) h ⟨rfl, rfl⟩
    exact ⟨hreported, hhandler, hkept⟩
  · obtain ⟨hreported, hhandler, hkept⟩ := reported_of_callHandler (s := s) h ⟨rfl, rfl⟩
    exact ⟨hreported, hhandler, hkept⟩

/-- A header that the parser rejects is reported with the handler and the target that the session
holds, or reads a handler that was never assigned. -/
theorem reports_rejected {data : Text} {r : ParseResult B}
    (hparse : parse s.parserState s.request data = .ok r) (hverdict : r.verdict = .false)
    (hconnected : s.connected = true) :
    (s.requestHandler = none → s.deliver w (.headerRead data) = .error (.fault .uninitialised)) ∧
      ∀ ptr, s.requestHandler = some ptr → ∃ t, s.deliver w (.headerRead data) = .ok t ∧
        t.metrics = s.metrics ++ [⟨w.server.getHandlerType ptr, s.request.target, 400⟩] := by
  obtain ⟨p, -, hsame, -, -, hkept⟩ := parse_eq_ok hparse
  have hrequest : r.req = s.request := by
    apply hkept
    rw [← hsame, hverdict]
    exact Tribool.noConfusion
  simp only [Session.deliver, Session.handleReadHeader, Session.write, Session.logSessionMetric,
    Session.logAddress, hparse, hverdict, hconnected, hrequest, true_or, if_true, run_ok_bind]
  constructor
  · intro hhandler
    rw [hhandler]
    rfl
  · intro ptr hhandler
    rw [hhandler]
    exact ⟨_, rfl, rfl⟩

/-! ## When the handler is read -/

/-- What is defined is defined with a log message before it. -/
private theorem logAddress_defined {α : Type} {x : Run α} {f : Fault}
    (h : x ≠ .error (.fault f)) : (do s.logAddress; x) ≠ .error (.fault f) := by
  unfold Session.logAddress
  cases s.connected with
  | true => exact h
  | false => simp

/-- Past the parser, a header that is not rejected is reported with an assigned handler. -/
private theorem headerRead_assigned {data : Text}
    (hreturns : ParserReturns s (.headerRead data)) (hunrejected : Unrejected s (.headerRead data)) :
    s.deliver w (.headerRead data) ≠ .error (.fault .uninitialised) := by
  obtain ⟨r, hparse⟩ := hreturns
  obtain ⟨hverdict, hlength⟩ := hunrejected r hparse
  have hgood : ¬ (r.verdict = .false ∨ contentLength r.req.fields < 0) := by
    rw [not_or, not_lt]
    exact ⟨hverdict, hlength⟩
  change (do let r ← parse s.parserState s.request data; _) ≠ _
  rw [hparse, run_ok_bind]
  dsimp only
  rw [if_neg hgood]
  by_cases hfinished : r.verdict = .true
  · rw [if_pos hfinished]
    apply logAddress_defined
    cases hptr : w.server.getRequestHandler r.req.target with
    | error e =>
      rw [run_error_bind, getRequestHandler_error hptr]
      simp
    | ok ptr =>
      rw [run_ok_bind]
      cases ptr with
      | none =>
        apply logAddress_defined
        exact write_defined rfl _
      | some handler =>
        simp only [logAddress_write]
        by_cases hzero : contentLength r.req.fields = 0
        · rw [if_pos hzero]
          exact callHandler_defined rfl _
        · rw [if_neg hzero]
          apply logAddress_defined
          by_cases hwhole : contentLength r.req.fields ≤ (data.length - r.consumed : ℕ)
          · rw [if_pos hwhole]
            exact callHandler_defined rfl _
          · rw [if_neg hwhole]
            apply logAddress_defined
            simp
  · rw [if_neg hfinished]
    apply logAddress_defined
    apply logAddress_defined
    simp

/-- A callback reads the handler only where it is assigned. -/
private theorem deliver_assigned (hbody : ∀ length, s.pending = .read length →
    ∃ ptr, s.requestHandler = some ptr) (henabled : s.Enabled e) (hreturns : ParserReturns s e)
    (hunrejected : Unrejected s e) : s.deliver w e ≠ .error (.fault .uninitialised) := by
  cases e with
  | headerRead data => exact headerRead_assigned hreturns hunrejected
  | bodyRead data =>
    obtain ⟨ptr, hptr⟩ := hbody _ henabled
    simp only [Session.deliver, Session.handleReadBody, Session.appendBody, hptr]
    cases ptr with
    | none => exact write_defined rfl _
    | some handler => exact callHandler_defined rfl _
  | written =>
    apply logAddress_defined
    apply logAddress_defined
    simp
  | failed data =>
    apply logAddress_defined
    simp

/-! ## Runs -/

/-- The requests have been reported, and no others. -/
def Reports (w : World B) (requests : List (List Event)) (s : Session B) : Prop :=
  s.metrics.map (some ∘ Metric.report) = requests.map (reportOf w.server)

/-- The session has the target and the handler of a request whose header was accepted. -/
structure HoldsRequest (w : World B) (current : List Event) (s : Session B) : Prop where
  target : ∀ rest, targetOf .methodStart (current ++ rest) = some s.request.target
  handler : ∃ ptr, s.requestHandler = some ptr ∧
    w.server.getRequestHandler s.request.target = .ok ptr

/-- How far a session is with its current request. -/
inductive Progress (w : World B) (delivered : Delivered) (s : Session B) : Prop where
  | header (hpending : s.pending = .readSome)
      (hreads : ∀ rest, targetOf .methodStart (delivered.current ++ rest) =
        targetOf s.parserState rest)
      (hreports : Reports w delivered.answered s)
  | body {length} (hpending : s.pending = .read length)
      (hholds : HoldsRequest w delivered.current s) (hreports : Reports w delivered.answered s)
  | writing (hpending : s.pending = .write) (hholds : HoldsRequest w delivered.current s)
      (hreports : Reports w delivered.requests s)
  | ended (hpending : s.pending = .none)
      (hreports : Reports w delivered.answered s ∨ Reports w delivered.requests s)

variable {delivered : Delivered}

/-- The report of a request that the session holds. -/
private theorem reportOf_of_holds {current : List Event} (h : HoldsRequest w current s)
    {ptr : Option HandlerPtr} (hptr : s.requestHandler = some ptr) (rest : List Event) :
    reportOf w.server (current ++ rest) =
      some (w.server.getHandlerType ptr, s.request.target) := by
  obtain ⟨ptr', hhandler, hrouted⟩ := h.handler
  obtain rfl : ptr' = ptr := Option.some.inj (hhandler.symm.trans hptr)
  simp only [reportOf, h.target rest, hrouted, Except.toOption, Option.bind_eq_bind,
    Option.bind_some]

/-- A request stays held while its target and handler are kept. -/
private theorem HoldsRequest.extend {current : List Event} (h : HoldsRequest w current s)
    (hhandler : t.requestHandler = s.requestHandler)
    (htarget : t.request.target = s.request.target) (e : Event) :
    HoldsRequest w (current ++ [e]) t where
  target rest := by
    rw [List.append_assoc, htarget]
    exact h.target _
  handler := by
    rw [hhandler, htarget]
    exact h.handler

/-- A header that is accepted makes the session hold its request. -/
private theorem holds_of_finished {data : Text} {p : Parsed} {ptr : Option HandlerPtr}
    (hreads : ∀ rest, targetOf .methodStart (delivered.current ++ rest) =
      targetOf s.parserState rest)
    (hparse : parseLoop s.parserState {} data = .ok p) (hverdict : p.verdict = .true)
    (hrouted : w.server.getRequestHandler p.parsed.uri = .ok ptr)
    (hhandler : t.requestHandler = some ptr) (htarget : t.request.target = p.parsed.uri) :
    HoldsRequest w (delivered.current ++ [.headerRead data]) t where
  target rest := by
    rw [List.append_assoc, hreads, List.singleton_append, targetOf, hparse, htarget]
    exact if_pos hverdict
  handler := ⟨ptr, hhandler, htarget ▸ hrouted⟩

/-- A request that is held and reported. -/
private theorem writing_of_reported {current : List Event} (hholds : HoldsRequest w current t)
    (hreports : Reports w delivered.answered s) (hreported : Reported w s t) :
    Progress w ⟨delivered.answered, current⟩ t := by
  obtain ⟨ptr, result, hptr, hmetrics⟩ := hreported.metrics
  refine .writing hreported.pending hholds ?_
  have hreport := reportOf_of_holds hholds hptr []
  rw [List.append_nil] at hreport
  unfold Reports Delivered.requests at *
  rw [hmetrics, List.map_append, List.map_append, hreports, List.map_singleton,
    List.map_singleton, hreport]
  rfl

/-- What is reported does not change with a callback that reports nothing. -/
private theorem reports_of_silent {requests : List (List Event)} (hreports : Reports w requests s)
    (hsilent : Silent s t) : Reports w requests t := by
  unfold Reports at *
  rw [hsilent.metrics, hreports]

/-- A callback that rejects no header makes progress with its own request. -/
theorem progress_callback (hs : Progress w delivered s) (henabled : s.Enabled e)
    (hunrejected : Unrejected s e) (h : s.deliver w e = .ok t) :
    Progress w (delivered.extend (.callback e)) t ∧ (Silent s t ∨ Reported w s t) := by
  cases hs with
  | header hpending hreads hreports =>
    rcases henabled.of_readSome hpending with ⟨data, rfl, -⟩ | ⟨data, rfl⟩
    · cases headerRead_of_unrejected h hunrejected with
      | more hparse hverdict hstate hpending' hsilent =>
        refine ⟨.header hpending' (fun rest => ?_) (reports_of_silent hreports hsilent),
          .inl hsilent⟩
        change targetOf .methodStart (delivered.current ++ [.headerRead data] ++ rest) = _
        rw [List.append_assoc, hreads, List.singleton_append, targetOf, hparse, hstate]
        exact if_neg hverdict
      | finished hparse hverdict hrouted hhandler htarget houtcome =>
        have hholds := holds_of_finished hreads hparse hverdict hrouted hhandler htarget
        cases houtcome with
        | inl hreported => exact ⟨writing_of_reported hholds hreports hreported, .inr hreported⟩
        | inr hwaits =>
          obtain ⟨hsilent, length, hpending'⟩ := hwaits
          exact ⟨.body hpending' hholds (reports_of_silent hreports hsilent), .inl hsilent⟩
    · rw [eq_of_failed h]
      exact ⟨.ended rfl (.inl (reports_of_silent hreports ⟨rfl, rfl⟩)), .inl ⟨rfl, rfl⟩⟩
  | body hpending hholds hreports =>
    rcases henabled.of_read hpending with ⟨data, rfl, -⟩ | ⟨data, rfl⟩
    · obtain ⟨hreported, hhandler, htarget⟩ := reported_of_bodyRead h
      exact ⟨writing_of_reported (hholds.extend hhandler htarget _) hreports hreported,
        .inr hreported⟩
    · rw [eq_of_failed h]
      exact ⟨.ended rfl (.inl (reports_of_silent hreports ⟨rfl, rfl⟩)), .inl ⟨rfl, rfl⟩⟩
  | writing hpending hholds hreports =>
    rcases henabled.of_write hpending with rfl | ⟨data, rfl⟩
    · rw [eq_of_written h]
      exact ⟨.header rfl (fun _ => rfl) (reports_of_silent hreports ⟨rfl, rfl⟩), .inl ⟨rfl, rfl⟩⟩
    · rw [eq_of_failed h]
      refine ⟨.ended rfl (.inr (reports_of_silent (s := s) ?_ ⟨rfl, rfl⟩)), .inl ⟨rfl, rfl⟩⟩
      -- a failed write adds nothing to what is known of its request
      obtain ⟨ptr, hptr, -⟩ := hholds.handler
      have hbefore := reportOf_of_holds hholds hptr []
      rw [List.append_nil] at hbefore
      have hafter := reportOf_of_holds hholds hptr [.failed data]
      unfold Reports at *
      rw [hreports]
      simp only [Delivered.requests, Delivered.extend, List.map_append, List.map_singleton, hbefore,
        hafter]
  | ended hpending hreports => exact absurd hpending henabled.pending_ne

variable {c d : Counting B}

/-- What is kept by the actions of a run that rejects no header. -/
structure ReportsKept (w : World B) (intToStatus : ℕ → ℕ) (delivered : Delivered) (c : Counting B) :
    Prop where
  accounted : Accounted w intToStatus c
  targets : c.answered.map (fun answer => answer.1.target) = c.session.metrics.map Metric.target
  written : c.session.metrics.length = c.session.written.length
  progress : Progress w delivered c.session

/-- A callback keeps the reports right. -/
private theorem reportsKept_callback (hc : ReportsKept w intToStatus delivered c)
    (haccounted : Accounted w intToStatus (c.afterCallback t)) (henabled : c.session.Enabled e)
    (hunrejected : Unrejected c.session e) (h : c.session.deliver w e = .ok t) :
    ReportsKept w intToStatus (delivered.extend (.callback e)) (c.afterCallback t) := by
  obtain ⟨hprogress, hreported⟩ := progress_callback hc.progress henabled hunrejected h
  unfold Counting.afterCallback at *
  cases hreported with
  | inl hsilent =>
    rw [if_pos (congrArg List.length hsilent.written)] at haccounted ⊢
    refine ⟨haccounted, ?_, ?_, hprogress⟩
    · rw [hc.targets, hsilent.metrics]
    · rw [hsilent.metrics, hsilent.written, hc.written]
  | inr hreported =>
    have hlength : ¬ t.written.length = c.session.written.length := by
      rw [hreported.written]
      omega
    obtain ⟨ptr, result, -, hmetrics⟩ := hreported.metrics
    rw [if_neg hlength] at haccounted ⊢
    refine ⟨haccounted, ?_, ?_, hprogress⟩
    · simp only [List.map_append, List.map_singleton, hc.targets, hmetrics]
    · rw [hmetrics, hreported.written, List.length_append, List.length_singleton, hc.written]

/-- An orderly action that rejects no header keeps the reports right. -/
theorem reportsKept_act {a : Counting.Action} (hc : ReportsKept w intToStatus delivered c)
    (haccepting : Accepting c a) (henabled : c.Enabled a) (hact : c.act w intToStatus a = .ok d) :
    ReportsKept w intToStatus (delivered.extend a) d := by
  have haccounted := accounted_act hc.accounted haccepting.1 henabled hact
  cases a with
  | callback e =>
    obtain ⟨t, hdeliver, hd⟩ := run_bind_eq_ok.mp hact
    obtain rfl : c.afterCallback t = d := Except.ok.inj hd
    exact reportsKept_callback hc haccounted henabled (haccepting.2 e rfl) hdeliver
  | logRequest =>
    obtain rfl : c.reportRequest intToStatus = d := Except.ok.inj hact
    exact ⟨haccounted, hc.targets, hc.written, hc.progress⟩

/-- What has been reported so far is a first part of what is to be reported. -/
private theorem metrics_begin (hc : Progress w delivered s) :
    s.metrics.map (some ∘ Metric.report) <+: delivered.requests.map (reportOf w.server) := by
  have hanswered (hreports : Reports w delivered.answered s) :
      s.metrics.map (some ∘ Metric.report) <+: delivered.requests.map (reportOf w.server) := by
    rw [hreports, Delivered.requests, List.map_append]
    exact List.prefix_append _ _
  have hall (hreports : Reports w delivered.requests s) :
      s.metrics.map (some ∘ Metric.report) <+: delivered.requests.map (reportOf w.server) := by
    rw [hreports]
  cases hc with
  | header _ _ hreports => exact hanswered hreports
  | body _ _ hreports => exact hanswered hreports
  | writing _ _ hreports => exact hall hreports
  | ended _ hreports => exact hreports.elim hanswered hall

/-- Reports that are kept right are about their own requests. -/
private theorem reportsOwn_of_kept (hc : ReportsKept w intToStatus delivered c) :
    ReportsOwn w Accepting delivered c where
  written := hc.written
  metrics := metrics_begin hc.progress
  recorded := by
    have hrecorded := (countsOwn_of_accounted hc.accounted).recorded.map (some ∘ Prod.fst)
    have htargets : (c.reqResps intToStatus).map (some ∘ Prod.fst) =
        (c.session.metrics.map (some ∘ Metric.report)).map (Option.map Prod.snd) := by
      have hanswered := congrArg (List.map some) hc.targets
      simp only [Counting.reqResps, List.map_map] at hanswered ⊢
      exact hanswered
    rw [htargets] at hrecorded
    have hown := (metrics_begin hc.progress).map (Option.map Prod.snd)
    rw [List.map_map (l := delivered.requests)] at hown
    exact hrecorded.trans hown
  assigned e haccepting henabled hreturns := by
    apply deliver_assigned _ henabled hreturns (haccepting.2 e rfl)
    intro length hread
    cases hc.progress with
    | header hpending => cases hpending.symm.trans hread
    | body _ hholds =>
      obtain ⟨ptr, hptr, -⟩ := hholds.handler
      exact ⟨ptr, hptr⟩
    | writing hpending => cases hpending.symm.trans hread
    | ended hpending => cases hpending.symm.trans hread

/-- In every run of orderly actions that rejects no header, each report is about its own request,
and the handler is assigned before it is read. -/
theorem reportsOwn_of_accepting (hstart : Session.start {} = .ok s)
    (hrun : Counting.Delivers w intToStatus Accepting { session := s } delivered c) :
    ReportsOwn w Accepting delivered c := by
  suffices hkept : ReportsKept w intToStatus delivered c from reportsOwn_of_kept hkept
  induction hrun with
  | refl =>
    obtain rfl : { pending := .readSome } = s := Except.ok.inj hstart
    exact ⟨accounted_start rfl, rfl, rfl, .header rfl (fun _ => rfl) rfl⟩
  | step _ haccepting henabled hact ih => exact reportsKept_act ih haccepting henabled hact

/-- Elements at the same place of a list and of a longer one agree. -/
private theorem eq_of_map_prefix {α β γ : Type} {f : α → γ} {g : β → γ} {first : List α}
    {whole : List β} (h : first.map f <+: whole.map g) {k : ℕ} {a : α} {b : β}
    (ha : first[k]? = some a) (hb : whole[k]? = some b) : f a = g b := by
  obtain ⟨rest, hrest⟩ := h
  have hk : k < (first.map f).length := by
    rw [List.length_map]
    exact (List.getElem?_eq_some_iff.mp ha).1
  have hat := congrArg (·[k]?) hrest
  simp only [List.getElem?_append_left hk, List.getElem?_map, ha, hb, Option.map_some] at hat
  exact Option.some.inj hat

/-- Reports that are about their own requests do not depend on what came before them. -/
theorem reportAlike_of_reportsOwn {P P' : Counting B → Counting.Action → Prop}
    {delivered' : Delivered} {c' : Counting B} (h : ReportsOwn w P delivered c)
    (h' : ReportsOwn w P' delivered' c') : ReportAlike delivered c delivered' c' where
  metrics k k' request metric metric' hk hk' hmetric hmetric' := by
    have hown := eq_of_map_prefix h.metrics hmetric hk
    have hown' := eq_of_map_prefix h'.metrics hmetric' hk'
    exact Option.some.inj (hown.trans hown'.symm)
  recorded k k' request reqResp reqResp' hk hk' hreqResp hreqResp' := by
    have hown := eq_of_map_prefix h.recorded hreqResp hk
    have hown' := eq_of_map_prefix h'.recorded hreqResp' hk'
    exact Option.some.inj (hown.trans hown'.symm)

/-- In runs of orderly actions that reject no header, each report is about its own request: it is
found from that request alone, and two runs report the same of a request that both have, whatever
came before it. The handler is assigned before it is read. -/
theorem reports_own_request (w : World B) (intToStatus : ℕ → ℕ) {delivered' : Delivered}
    {c' : Counting B} (hstart : Session.start {} = .ok s)
    (hrun : Counting.Delivers w intToStatus Accepting { session := s } delivered c)
    (hrun' : Counting.Delivers w intToStatus Accepting { session := s } delivered' c') :
    ReportsOwn w Accepting delivered c ∧ ReportAlike delivered c delivered' c' :=
  ⟨reportsOwn_of_accepting hstart hrun, reportAlike_of_reportsOwn
    (reportsOwn_of_accepting hstart hrun) (reportsOwn_of_accepting hstart hrun')⟩

/-! ## Good and bad requests -/

/-- A well-formed request is not rejected. -/
theorem unrejected_of_wellFormed {m : Message} (hm : m.WellFormed B) (hs : s.Idle) (rest : Text) :
    Unrejected s (.headerRead (m.head.render ++ rest)) := by
  intro r hparse
  rw [hs.parserState, parse_message hm hs.fields hs.body, Except.ok.injEq] at hparse
  subst hparse
  refine ⟨Tribool.noConfusion, ?_⟩
  have hlength := contentLength_of_declares (B := B) hm.declares hm.small
  change 0 ≤ contentLength (m.head.fields B.empty)
  omega

/-- A request is reported alike whether or not another one came before it. -/
theorem reports_own_request_two : ∃ (delivered delivered' : Delivered)
    (c c' : Counting Beast.lists),
    delivered.requests = [[.headerRead getMessage.render], [.headerRead postMessage.render]] ∧
      delivered'.requests = [[.headerRead postMessage.render]] ∧
      c.session.metrics.map Metric.report =
        [(text "EchoHandler", text "/"), (text "EchoHandler", text "/echo")] ∧
      c'.session.metrics.map Metric.report = [(text "EchoHandler", text "/echo")] ∧
      ReportsOwn echoWorld Accepting delivered c ∧ ReportAlike delivered c delivered' c' := by
  have haccepting {m : Message} (hm : m.WellFormed Beast.lists) {d : Counting Beast.lists}
      (hidle : d.session.Idle) (hdone : d.outstanding = 0) :
      Accepting d (.callback (.headerRead m.render)) := by
    constructor
    · intro hlate
      exact absurd hdone (Nat.ne_of_gt hlate)
    · intro e he
      rw [← Counting.Action.callback.inj he]
      exact unrejected_of_wellFormed hm hidle _
  have hwritten (d : Counting Beast.lists) : Accepting d (.callback .written) := by
    refine ⟨fun _ => trivial, fun e he => ?_⟩
    rw [← Counting.Action.callback.inj he]
    trivial
  have hlog (d : Counting Beast.lists) : Accepting d .logRequest :=
    ⟨trivial, fun e he => by cases he⟩
  have hrun : ∃ delivered c, Counting.Delivers echoWorld id Accepting
      { session := ({ pending := .readSome } : Session Beast.lists) } delivered c ∧
      delivered.requests = [[.headerRead getMessage.render], [.headerRead postMessage.render]] ∧
      c.session.metrics.map Metric.report =
        [(text "EchoHandler", text "/"), (text "EchoHandler", text "/echo")] :=
    ⟨_, _, .step (a := .callback (.headerRead postMessage.render))
      (.step (a := .logRequest)
        (.step (a := .callback .written)
          (.step (a := .callback (.headerRead getMessage.render)) .refl
            (haccepting served_getMessage.wellFormed ⟨rfl, rfl, rfl, rfl, rfl, rfl⟩ rfl)
            ⟨rfl, by decide, by decide⟩ rfl)
          (hwritten _) rfl rfl)
        (hlog _) Nat.one_pos rfl)
      (haccepting served_postMessage.wellFormed ⟨rfl, rfl, rfl, rfl, rfl, rfl⟩ rfl)
      ⟨rfl, by decide, by decide⟩ rfl, rfl, rfl⟩
  have hrun' : ∃ delivered c, Counting.Delivers echoWorld id Accepting
      { session := ({ pending := .readSome } : Session Beast.lists) } delivered c ∧
      delivered.requests = [[.headerRead postMessage.render]] ∧
      c.session.metrics.map Metric.report = [(text "EchoHandler", text "/echo")] :=
    ⟨_, _, .step (a := .callback (.headerRead postMessage.render)) .refl
      (haccepting served_postMessage.wellFormed ⟨rfl, rfl, rfl, rfl, rfl, rfl⟩ rfl)
      ⟨rfl, by decide, by decide⟩ rfl, rfl, rfl⟩
  obtain ⟨delivered, c, hdelivers, hrequests, hmetrics⟩ := hrun
  obtain ⟨delivered', c', hdelivers', hrequests', hmetrics'⟩ := hrun'
  exact ⟨delivered, delivered', c, c', hrequests, hrequests', hmetrics, hmetrics',
    reports_own_request echoWorld id rfl hdelivers hdelivers'⟩

/-- The first bad request reads a handler that was never assigned, and a later one is reported with
the target of the request before it. -/
theorem not_reports_own_request :
    (¬ ∀ delivered (c : Counting Beast.lists),
      Counting.Delivers echoWorld id Orderly { session := { pending := .readSome } } delivered c →
        ReportsOwn echoWorld Orderly delivered c) ∧
    ¬ ∀ delivered (c : Counting Beast.lists) delivered' (c' : Counting Beast.lists),
      Counting.Delivers echoWorld id Orderly { session := { pending := .readSome } } delivered c →
        Counting.Delivers echoWorld id Orderly { session := { pending := .readSome } } delivered' c' →
          ReportAlike delivered c delivered' c' := by
  constructor
  · intro h
    have hassigned := (h {} _ .refl).assigned (.headerRead (text "\r\n"))
      (fun hlate => absurd hlate (Nat.lt_irrefl 0)) ⟨rfl, by decide, by decide⟩ ⟨_, rfl⟩
    exact hassigned rfl
  · intro h
    have horderly {d : Counting Beast.lists} (hdone : d.outstanding = 0) (e : Event) :
        Orderly d (.callback e) := by
      intro hlate
      exact absurd hdone (Nat.ne_of_gt hlate)
    have hget : ∃ delivered c, Counting.Delivers echoWorld id Orderly
        { session := ({ pending := .readSome } : Session Beast.lists) } delivered c ∧
        delivered.requests[1]? = some [.headerRead (text "\r\n")] ∧
        c.session.metrics[1]? = some ⟨text "EchoHandler", text "/", 400⟩ :=
      ⟨_, _, .step (a := .callback (.headerRead (text "\r\n")))
        (.step (a := .logRequest)
          (.step (a := .callback .written)
            (.step (a := .callback (.headerRead getMessage.render)) .refl (horderly rfl _)
              ⟨rfl, by decide, by decide⟩ rfl)
            (fun _ => trivial) rfl rfl)
          trivial Nat.one_pos rfl)
        (horderly rfl _) ⟨rfl, by decide, by decide⟩ rfl, rfl, rfl⟩
    have hpost : ∃ delivered c, Counting.Delivers echoWorld id Orderly
        { session := ({ pending := .readSome } : Session Beast.lists) } delivered c ∧
        delivered.requests[1]? = some [.headerRead (text "\r\n")] ∧
        c.session.metrics[1]? = some ⟨text "EchoHandler", text "/echo", 400⟩ :=
      ⟨_, _, .step (a := .callback (.headerRead (text "\r\n")))
        (.step (a := .logRequest)
          (.step (a := .callback .written)
            (.step (a := .callback (.headerRead postMessage.render)) .refl (horderly rfl _)
              ⟨rfl, by decide, by decide⟩ rfl)
            (fun _ => trivial) rfl rfl)
          trivial Nat.one_pos rfl)
        (horderly rfl _) ⟨rfl, by decide, by decide⟩ rfl, rfl, rfl⟩
    obtain ⟨delivered, c, hdelivers, hrequest, hmetric⟩ := hget
    obtain ⟨delivered', c', hdelivers', hrequest', hmetric'⟩ := hpost
    have hsame := (h delivered c delivered' c' hdelivers hdelivers').metrics 1 1 _ _ _ hrequest
      hrequest' hmetric hmetric'
    revert hsame
    decide

end Aite
