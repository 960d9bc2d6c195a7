import Aite.Lib.KeyedList
import Aite.Session.KeepAlive
import Mathlib.Logic.Relation

/-!
# The requests that the server counts

After it has started the write of a response, `write` goes on to report the request and the
status to the server. It reads them from the session, and the callbacks that follow the write may
run before it does so, on another thread or within the write itself. So the report is a step of
its own here, which comes at any time after the write was started. It is about the right request
as long as no callback finishes another header or body before it.
-/

namespace Aite

open Http Routing KeyedList
open Session

variable {B : Beast}

/-- `requests_`: how often a target was answered with a status. -/
abbrev Requests := List ((Text × ℕ) × ℕ)

/-- Count one more request of a target that was answered with a status. -/
def logRequest (requests : Requests) (reqResp : Text × ℕ) : Requests :=
  alter reqResp (fun
    | some count => count + 1
    | none => 1) requests

/-- What is reported of a request and its response. The library knows the statuses, and takes all
others for one. -/
def reqRespOf (intToStatus : ℕ → ℕ) (request : Request B) (response : Response B) : Text × ℕ :=
  (request.target, intToStatus response.result)

/-- A session whose reports are steps of their own, and the counts of the server. What the session
itself notes as reported is not used. -/
structure Counting (B : Beast) where
  session : Session B
  /-- The calls of `log_request` that are still to come. -/
  outstanding : ℕ := 0
  requests : Requests := []
  /-- The arguments of the calls. -/
  recorded : List (Text × ℕ) := []
  /-- The request and the response of each write when it was started. -/
  answered : List (Request B × Response B) := []

namespace Counting

/-- The threads run a callback of the session, or the rest of a `write`. -/
inductive Action where
  | callback (e : Event)
  | logRequest
  deriving DecidableEq, Repr

/-- A callback that has started a write leaves a call of `log_request` to come. -/
def afterCallback (c : Counting B) (t : Session B) : Counting B :=
  if t.written.length = c.session.written.length then { c with session := t }
  else { c with
    session := t
    outstanding := c.outstanding + 1
    answered := c.answered ++ [(t.request, t.response)] }

/-- The rest of a `write` reads the request and the response of the session as they are now. -/
def reportRequest (intToStatus : ℕ → ℕ) (c : Counting B) : Counting B :=
  let reqResp := reqRespOf intToStatus c.session.request c.session.response
  { c with
    outstanding := c.outstanding - 1
    requests := Aite.logRequest c.requests reqResp
    recorded := c.recorded ++ [reqResp] }

/-- What should be reported. -/
def reqResps (intToStatus : ℕ → ℕ) (c : Counting B) : List (Text × ℕ) :=
  c.answered.map fun answer => reqRespOf intToStatus answer.1 answer.2

/-- Run an action. -/
def act (w : World B) (intToStatus : ℕ → ℕ) (c : Counting B) : Action → Run (Counting B)
  | .callback e => do
    let t ← c.session.deliver w e
    .ok (c.afterCallback t)
  | .logRequest => .ok (c.reportRequest intToStatus)

/-- An action is due. -/
def Enabled (c : Counting B) : Action → Prop
  | .callback e => c.session.Enabled e
  | .logRequest => 0 < c.outstanding

/-- Runs in which every action meets a condition, in any order. -/
def Reaches (w : World B) (intToStatus : ℕ → ℕ) (P : Counting B → Action → Prop) :
    Counting B → Counting B → Prop :=
  Relation.ReflTransGen fun c d => ∃ a, P c a ∧ c.Enabled a ∧ c.act w intToStatus a = .ok d

end Counting

/-- A handler has answered the request with the response, or the response is an error page. -/
inductive AnswerTo (w : World B) (request : Request B) (response : Response B) : Prop where
  | handler (call handler) (h : w.handleRequest call handler request = .ok response)
  | errorPage (message) (h : response = showErrorPage B 400 message)

/-- The reports made are those of the first responses in order, each with the target of the
request it answers and its own status, and once all are made, the server has counted exactly the
responses that were written. -/
structure CountsOwn (w : World B) (intToStatus : ℕ → ℕ) (c : Counting B) : Prop where
  answers : ∀ answer ∈ c.answered, AnswerTo w answer.1 answer.2
  written : c.session.written = c.answered.map Prod.snd
  recorded : c.recorded <+: c.reqResps intToStatus
  counted : c.outstanding = 0 → Tallies c.requests (c.reqResps intToStatus)

/-- A callback that neither finishes a header nor reads a body. -/
def LeavesRequest (s : Session B) : Event → Prop
  | .headerRead data => ∀ r, parse s.parserState s.request data = .ok r →
      r.verdict = .indeterminate ∧ 0 ≤ contentLength r.req.fields
  | .bodyRead _ => False
  | .written => True
  | .failed _ => True

/-- While a report is still to come, no callback finishes a header or reads a body. -/
def Orderly (c : Counting B) : Counting.Action → Prop
  | .callback e => 0 < c.outstanding → LeavesRequest c.session e
  | .logRequest => True

variable {w : World B} {intToStatus : ℕ → ℕ} {s t u : Session B} {e : Event}

/-! ## What a callback writes -/

/-- A write is started with the response of the session. -/
private theorem written_of_write (h : s.write w = .ok t) :
    t.written = s.written ++ [s.response] ∧ t.request = s.request ∧ t.response = s.response := by
  obtain ⟨metrics, rfl⟩ := exists_of_write h
  exact ⟨rfl, rfl, rfl⟩

/-- A callback starts no write, or the write of an answer to the request of the session. -/
inductive Responds (w : World B) (s t : Session B) : Prop where
  | silent (hwritten : t.written = s.written)
  | answer (hwritten : t.written = s.written ++ [t.response])
      (hanswer : AnswerTo w t.request t.response)

/-- The write of an answer. -/
private theorem responds_of_write (h : u.write w = .ok t) (hu : u.written = s.written)
    (hanswer : AnswerTo w u.request u.response) : Responds w s t := by
  obtain ⟨hwritten, hrequest, hresponse⟩ := written_of_write h
  apply Responds.answer
  · rw [hwritten, hu, hresponse]
  · rw [hrequest, hresponse]
    exact hanswer

/-- A handler that returns has answered the request. -/
private theorem answer_of_callHandler {handler : HandlerPtr} (h : s.callHandler w handler = .ok t) :
    t.written = s.written ∧ AnswerTo w t.request t.response := by
  unfold Session.callHandler at h
  cases hanswer : w.handleRequest s.handled.length handler s.request with
  | error thrown =>
    rw [hanswer] at h
    cases h
  | ok response =>
    rw [hanswer, Except.ok.injEq] at h
    rw [← h]
    exact ⟨rfl, .handler _ _ hanswer⟩

/-- Calling a handler and writing its answer. -/
private theorem responds_of_callHandler {handler : HandlerPtr}
    (h : (do let v ← u.callHandler w handler; v.write w) = .ok t) (hu : u.written = s.written) :
    Responds w s t := by
  obtain ⟨v, hcall, hwrite⟩ := run_bind_eq_ok.mp h
  obtain ⟨hwritten, hanswer⟩ := answer_of_callHandler hcall
  exact responds_of_write hwrite (hwritten.trans hu) hanswer

/-- Reading a header. -/
private theorem responds_of_header {data : Text} (h : s.deliver w (.headerRead data) = .ok t) :
    Responds w s t := by
  obtain ⟨r, -, h⟩ := run_bind_eq_ok.mp h
  dsimp only at h
  by_cases hbad : r.verdict = .false ∨ contentLength r.req.fields < 0
  · rw [if_pos hbad] at h
    obtain ⟨-, -, h⟩ := run_bind_eq_ok.mp h
    exact responds_of_write h rfl (.errorPage _ rfl)
  · rw [if_neg hbad] at h
    by_cases hgood : r.verdict = .true
    · rw [if_pos hgood] at h
      obtain ⟨-, -, h⟩ := run_bind_eq_ok.mp h
      obtain ⟨ptr, -, h⟩ := run_bind_eq_ok.mp h
      cases ptr with
      | none =>
        obtain ⟨-, -, h⟩ := run_bind_eq_ok.mp h
        exact responds_of_write h rfl (.errorPage _ rfl)
      | some handler =>
        simp only [logAddress_write] at h
        by_cases hlength : contentLength r.req.fields = 0
        · rw [if_pos hlength] at h
          exact responds_of_callHandler h rfl
        · rw [if_neg hlength] at h
          obtain ⟨-, -, h⟩ := run_bind_eq_ok.mp h
          by_cases hwhole : contentLength r.req.fields ≤ (data.length - r.consumed : ℕ)
          · rw [if_pos hwhole] at h
            exact responds_of_callHandler h rfl
          · rw [if_neg hwhole] at h
            obtain ⟨-, -, h⟩ := run_bind_eq_ok.mp h
            rw [← Except.ok.inj h]
            exact .silent rfl
    · rw [if_neg hgood] at h
      obtain ⟨-, -, h⟩ := run_bind_eq_ok.mp h
      rw [eq_of_readHeader h]
      exact .silent rfl

/-- Every callback. -/
theorem responds_of_deliver (h : s.deliver w e = .ok t) : Responds w s t := by
  cases e with
  | headerRead data => exact responds_of_header h
  | bodyRead data =>
    simp only [Session.deliver, Session.handleReadBody] at h
    split at h
    · cases h
    · exact responds_of_write h rfl (.errorPage _ rfl)
    · exact responds_of_callHandler h rfl
  | written =>
    rw [eq_of_written h]
    exact .silent rfl
  | failed data =>
    rw [eq_of_failed h]
    exact .silent rfl

/-- A callback that neither finishes a header nor reads a body keeps what is reported. -/
private theorem keeps_of_leavesRequest (h : s.deliver w e = .ok t) (hleaves : LeavesRequest s e) :
    t.written = s.written ∧ t.request.target = s.request.target ∧ t.response = s.response := by
  cases e with
  | headerRead data =>
    obtain ⟨r, hparse, h⟩ := run_bind_eq_ok.mp h
    obtain ⟨hverdict, hlength⟩ := hleaves r hparse
    have hbad : ¬ (r.verdict = .false ∨ contentLength r.req.fields < 0) := by
      rw [hverdict]
      simpa using hlength
    have hgood : r.verdict ≠ .true := by
      rw [hverdict]
      decide
    dsimp only at h
    rw [if_neg hbad, if_neg hgood] at h
    obtain ⟨-, -, h⟩ := run_bind_eq_ok.mp h
    obtain ⟨p, -, hsame, -, -, hkept⟩ := parse_eq_ok hparse
    rw [eq_of_readHeader h]
    exact ⟨rfl, congrArg _ (hkept (hsame ▸ hgood)), rfl⟩
  | bodyRead data => exact hleaves.elim
  | written =>
    rw [eq_of_written h]
    exact ⟨rfl, rfl, rfl⟩
  | failed data =>
    rw [eq_of_failed h]
    exact ⟨rfl, rfl, rfl⟩

/-! ## Orderly runs -/

/-- Either all reports are made, or just the one of the last response is to come and would still
be right. -/
inductive Owes (intToStatus : ℕ → ℕ) (c : Counting B) : Prop where
  | nothing (houtstanding : c.outstanding = 0)
      (hrecorded : c.reqResps intToStatus = c.recorded)
  | last (houtstanding : c.outstanding = 1)
      (hrecorded : c.reqResps intToStatus =
        c.recorded ++ [reqRespOf intToStatus c.session.request c.session.response])

/-- What is kept by the actions of an orderly run. -/
structure Accounted (w : World B) (intToStatus : ℕ → ℕ) (c : Counting B) : Prop where
  answers : ∀ answer ∈ c.answered, AnswerTo w answer.1 answer.2
  written : c.session.written = c.answered.map Prod.snd
  owes : Owes intToStatus c
  tallies : Tallies c.requests c.recorded

variable {c d : Counting B}

/-- Nothing has happened yet on a new session. -/
theorem accounted_start (hs : s.written = []) :
    Accounted w intToStatus { session := s } where
  answers _ h := absurd h List.not_mem_nil
  written := hs
  owes := .nothing rfl rfl
  tallies := Tallies.nil

/-- A callback keeps account of the responses. -/
private theorem accounted_callback (hc : Accounted w intToStatus c)
    (horderly : 0 < c.outstanding → LeavesRequest c.session e)
    (h : c.session.deliver w e = .ok t) : Accounted w intToStatus (c.afterCallback t) := by
  obtain ⟨hanswers, hwritten, howes, htallies⟩ := hc
  unfold Counting.afterCallback
  cases responds_of_deliver h with
  | silent hsilent =>
    rw [if_pos (congrArg List.length hsilent)]
    refine ⟨hanswers, hsilent.trans hwritten, ?_, htallies⟩
    cases howes with
    | nothing houtstanding hrecorded => exact .nothing houtstanding hrecorded
    | last houtstanding hrecorded =>
      have hpositive : 0 < c.outstanding := by omega
      obtain ⟨-, htarget, hresponse⟩ := keeps_of_leavesRequest h (horderly hpositive)
      refine .last houtstanding (hrecorded.trans ?_)
      simp only [reqRespOf, htarget, hresponse]
  | answer hanswered hanswer =>
    have hlength : ¬ t.written.length = c.session.written.length := by
      rw [hanswered, List.length_append, List.length_singleton]
      omega
    rw [if_neg hlength]
    refine ⟨?_, ?_, ?_, htallies⟩
    · intro answer hmem
      cases List.mem_append.mp hmem with
      | inl hmem => exact hanswers answer hmem
      | inr hmem =>
        rw [List.mem_singleton.mp hmem]
        exact hanswer
    · change t.written = (c.answered ++ [(t.request, t.response)]).map Prod.snd
      rw [hanswered, hwritten, List.map_append, List.map_singleton]
    · cases howes with
      | nothing houtstanding hrecorded =>
        apply Owes.last
        · change c.outstanding + 1 = 1
          omega
        · rw [Counting.reqResps, List.map_append, List.map_singleton]
          exact congrArg (· ++ _) hrecorded
      | last houtstanding hrecorded =>
        -- a write cannot be started while a report is to come
        have hpositive : 0 < c.outstanding := by omega
        obtain ⟨hkept, -, -⟩ := keeps_of_leavesRequest h (horderly hpositive)
        exact absurd (congrArg List.length hkept) hlength

/-- A report that comes now is the right one. -/
private theorem accounted_reportRequest (hc : Accounted w intToStatus c)
    (henabled : 0 < c.outstanding) : Accounted w intToStatus (c.reportRequest intToStatus) := by
  obtain ⟨hanswers, hwritten, howes, htallies⟩ := hc
  refine ⟨hanswers, hwritten, ?_, htallies.alter ?_⟩
  · cases howes with
    | nothing houtstanding hrecorded => omega
    | last houtstanding hrecorded =>
      apply Owes.nothing _ hrecorded
      change c.outstanding - 1 = 0
      omega
  · intro v
    cases v with
    | none => rfl
    | some count => rfl

/-- An orderly action keeps account of the responses. -/
theorem accounted_act {a : Counting.Action} (hc : Accounted w intToStatus c) (horderly : Orderly c a)
    (henabled : c.Enabled a) (hact : c.act w intToStatus a = .ok d) : Accounted w intToStatus d := by
  cases a with
  | callback e =>
    obtain ⟨t, hdeliver, hd⟩ := run_bind_eq_ok.mp hact
    rw [← Except.ok.inj hd]
    exact accounted_callback hc horderly hdeliver
  | logRequest =>
    rw [← Except.ok.inj hact]
    exact accounted_reportRequest hc henabled

/-- Accounted responses are counted under their own requests. -/
theorem countsOwn_of_accounted (hc : Accounted w intToStatus c) :
    CountsOwn w intToStatus c := by
  obtain ⟨hanswers, hwritten, howes, htallies⟩ := hc
  cases howes with
  | nothing houtstanding hrecorded =>
    refine ⟨hanswers, hwritten, ?_, fun _ => ?_⟩
    · rw [hrecorded]
    · rw [hrecorded]
      exact htallies
  | last houtstanding hrecorded =>
    refine ⟨hanswers, hwritten, ?_, fun hnone => by omega⟩
    rw [hrecorded]
    exact List.prefix_append _ _

/-- In every run in which no callback finishes a header or reads a body while a report is still
to come, each response is counted under its own request. -/
theorem countsOwn_of_orderly (w : World B) (intToStatus : ℕ → ℕ)
    (hstart : Session.start {} = .ok s)
    (hrun : Counting.Reaches w intToStatus Orderly { session := s } c) :
    CountsOwn w intToStatus c := by
  apply countsOwn_of_accounted
  induction hrun with
  | refl =>
    obtain rfl : { pending := .readSome } = s := Except.ok.inj hstart
    exact accounted_start rfl
  | tail _ hstep ih =>
    obtain ⟨a, horderly, henabled, hact⟩ := hstep
    exact accounted_act ih horderly henabled hact

/-! ## Two requests -/

/-- The session reads each request whole, and each is well-formed. -/
def WellFormedRequests (_ : Counting B) : Counting.Action → Prop
  | .callback (.headerRead data) => ∃ m : Message, m.WellFormed B ∧ data = m.render
  | _ => True

/-- Two requests whose reports come before the next request is read, the first one after the
write was done. -/
theorem countsOwn_two : ∃ (s : Session Beast.lists) (c : Counting Beast.lists),
    Session.start {} = .ok s ∧ c.outstanding = 0 ∧
      c.recorded = [(text "/", 200), (text "/echo", 200)] ∧ CountsOwn echoWorld id c := by
  have hrun : ∃ c, Counting.Reaches echoWorld id Orderly
      { session := ({ pending := .readSome } : Session Beast.lists) } c ∧
      c.outstanding = 0 ∧ c.recorded = [(text "/", 200), (text "/echo", 200)] :=
    ⟨_, .head ⟨.callback (.headerRead getMessage.render), fun h => absurd h (Nat.lt_irrefl 0),
        ⟨rfl, by decide, by decide⟩, rfl⟩
      (.head ⟨.callback .written, fun _ => trivial, rfl, rfl⟩
      (.head ⟨.logRequest, trivial, Nat.one_pos, rfl⟩
      (.head ⟨.callback (.headerRead postMessage.render), fun h => absurd h (Nat.lt_irrefl 0),
        ⟨rfl, by decide, by decide⟩, rfl⟩
      (.head ⟨.logRequest, trivial, Nat.one_pos, rfl⟩ .refl)))), rfl, rfl⟩
  obtain ⟨c, hreaches, houtstanding, hrecorded⟩ := hrun
  exact ⟨_, c, rfl, houtstanding, hrecorded, countsOwn_of_orderly echoWorld id rfl hreaches⟩

/-- When the next request is answered before the first report is made, it is counted twice and
the first one not at all. -/
theorem not_countsOwn_late : ∃ (s : Session Beast.lists) (c : Counting Beast.lists),
    Session.start {} = .ok s ∧
      Counting.Reaches echoWorld id WellFormedRequests { session := s } c ∧ c.outstanding = 0 ∧
      c.reqResps id = [(text "/", 200), (text "/echo", 200)] ∧
      c.requests = [((text "/echo", 200), 2)] ∧ ¬ CountsOwn echoWorld id c := by
  have hrun : ∃ c, Counting.Reaches echoWorld id WellFormedRequests
      { session := ({ pending := .readSome } : Session Beast.lists) } c ∧ c.outstanding = 0 ∧
      c.reqResps id = [(text "/", 200), (text "/echo", 200)] ∧
      c.requests = [((text "/echo", 200), 2)] :=
    ⟨_, .head ⟨.callback (.headerRead getMessage.render),
        ⟨getMessage, served_getMessage.wellFormed, rfl⟩, ⟨rfl, by decide, by decide⟩, rfl⟩
      (.head ⟨.callback .written, trivial, rfl, rfl⟩
      (.head ⟨.callback (.headerRead postMessage.render),
        ⟨postMessage, served_postMessage.wellFormed, rfl⟩, ⟨rfl, by decide, by decide⟩, rfl⟩
      (.head ⟨.logRequest, trivial, Nat.two_pos, rfl⟩
      (.head ⟨.logRequest, trivial, Nat.one_pos, rfl⟩ .refl)))), rfl, rfl, rfl⟩
  obtain ⟨c, hreaches, houtstanding, hreqResps, hrequests⟩ := hrun
  refine ⟨_, c, rfl, hreaches, houtstanding, hreqResps, hrequests, fun hcounts => ?_⟩
  have hcount := (hcounts.counted houtstanding).count (text "/", 200)
  rw [hreqResps, hrequests] at hcount
  revert hcount
  decide

end Aite
