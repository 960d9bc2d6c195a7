import Aite.Session.KeepAlive

/-!
# Where the body of a request ends

A header with a positive content length is accepted, and a first part of its body came with it.
The session should read the rest of the body, and no more, before it reads the next header. It
does so when it finds a handler. Without a handler it answers at once, and what is left of the
body on the wire is then read as a header.
-/

namespace Aite

open Http Routing
open Session

variable {B : Beast} {w : World B}

/-- The session has not yet asked for the next header. -/
def BeforeHeader (c : Connection B) (_ : Event) (_ : Connection B) : Prop :=
  c.session.pending ≠ .readSome

/-- A read for a header has no undefined behaviour, and when the next header is read, just the
rest of the body is gone from the wire. -/
structure FramesBody (w : World B) (s : Session B) (data rest : Text) : Prop where
  defined : ∀ f, s.deliver w (.headerRead data) ≠ .error (.fault f)
  positioned : ∀ (t : Session B) (after : Text) (c : Connection B),
    s.deliver w (.headerRead data) = .ok t →
      Connection.Reaches w BeforeHeader ⟨t, rest ++ after⟩ c → c.session.pending = .readSome →
        c.wire = after

/-- The header at the start of a buffer is accepted, its content length is positive, and the rest
of its body is the part that is not in the buffer. -/
structure AcceptsBody (s : Session B) (data rest : Text) (r : ParseResult B) : Prop where
  parsed : parse s.parserState s.request data = .ok r
  accepted : r.verdict = .true
  positive : 0 < contentLength r.req.fields
  length : contentLength r.req.fields = ((data.length - r.consumed : ℕ) : ℤ) + rest.length

/-- Where a connection is within the body of a request. -/
inductive Framing (rest after : Text) (c : Connection B) : Prop where
  | reading (hpending : c.session.pending = .read rest.length) (hwire : c.wire = rest ++ after)
  | writing (hpending : c.session.pending = .write) (hwire : c.wire = after)
  | next (hpending : c.session.pending = .readSome) (hwire : c.wire = after)
  | ended (hpending : c.session.pending = .none)

variable {s t : Session B}

/-- A write that was started is waited for. -/
theorem pending_of_write (h : s.write w = .ok t) : t.pending = .write := by
  obtain ⟨metrics, rfl⟩ := exists_of_write h
  rfl

/-- With a peer or without, a write whose handler pointer has a value is defined. -/
theorem write_defined {ptr : Option HandlerPtr} (h : s.requestHandler = some ptr) (f : Fault) :
    s.write w ≠ .error (.fault f) := by
  unfold Session.write Session.logSessionMetric Session.logAddress
  cases hconnected : s.connected <;> simp [h]

/-- Calling a handler and writing its answer leads to a write. -/
theorem pending_of_callHandler {handler : HandlerPtr}
    (h : (do let u ← s.callHandler w handler; u.write w) = .ok t) : t.pending = .write := by
  obtain ⟨u, -, h⟩ := run_bind_eq_ok.mp h
  exact pending_of_write h

/-- Calling a handler and writing its answer is defined. -/
theorem callHandler_defined {handler : HandlerPtr} {ptr : Option HandlerPtr}
    (hptr : s.requestHandler = some ptr) (f : Fault) :
    (do let u ← s.callHandler w handler; u.write w) ≠ .error (.fault f) := by
  unfold Session.callHandler
  cases w.handleRequest s.handled.length handler s.request with
  | error e => simp
  | ok response =>
    rw [run_ok_bind]
    exact write_defined (by exact hptr) f

/-- A body that was read leads to a write. -/
private theorem pending_of_bodyRead {data : Text} (h : s.deliver w (.bodyRead data) = .ok t) :
    t.pending = .write := by
  simp only [Session.deliver, Session.handleReadBody] at h
  split at h
  · cases h
  · exact pending_of_write h
  · exact pending_of_callHandler h

/-- Steps before the next header keep track of the body. -/
private theorem framing_step {rest after : Text} {c d : Connection B} {e : Event}
    (h : Framing rest after c) (hbefore : BeforeHeader c e d) (hstep : c.Step w e d) :
    Framing rest after d := by
  obtain ⟨henabled, hdelivers, hwire'⟩ := hstep
  cases h with
  | reading hpending hwire =>
    rcases henabled.of_read hpending with ⟨data, rfl, hlength⟩ | ⟨data, rfl⟩
    · have hsplit : rest = data ∧ after = d.wire :=
        List.append_inj (hwire.symm.trans hwire') hlength.symm
      exact .writing (pending_of_bodyRead hdelivers) hsplit.2.symm
    · exact .ended (congrArg Session.pending (eq_of_failed hdelivers))
  | writing hpending hwire =>
    rcases henabled.of_write hpending with rfl | ⟨data, rfl⟩
    · exact .next (congrArg Session.pending (eq_of_written hdelivers)) (hwire'.symm.trans hwire)
    · exact .ended (congrArg Session.pending (eq_of_failed hdelivers))
  | next hpending hwire => exact absurd hpending hbefore
  | ended hpending => exact absurd hpending henabled.pending_ne

/-- The session once it has accepted a header and asked for its handler. -/
private def acceptedSession (s : Session B) (r : ParseResult B) (ptr : Option HandlerPtr) :
    Session B :=
  { s with
    pending := .none
    parserState := r.state
    request := r.req
    requestHandler := some ptr }

/-- What happens to an accepted header, by its handler and what is left of its body. -/
private theorem deliver_accepted {data rest : Text} {r : ParseResult B}
    (hconnected : s.connected = true) (h : AcceptsBody s data rest r) :
    s.deliver w (.headerRead data) = (do
      let requestHandler ← w.server.getRequestHandler r.req.target
      match requestHandler with
      | none =>
        write w { acceptedSession s r none with
          response := showErrorPage B 400 (text "Error getting handler for uri " ++ r.req.target) }
      | some handler =>
        if rest = [] then do
          let body := (data.drop r.consumed).take (contentLength r.req.fields).toNat
          let u ← ((acceptedSession s r (some handler)).appendBody body).callHandler w handler
          u.write w
        else .ok { (acceptedSession s r (some handler)).appendBody (data.drop r.consumed) with
          pending := .read rest.length }) := by
  obtain ⟨hparsed, haccepted, hpositive, hlength⟩ := h
  have hnegative : ¬ contentLength r.req.fields < 0 := by omega
  have hzero : ¬ contentLength r.req.fields = 0 := by omega
  have hread : (contentLength r.req.fields ≤ ((data.length - r.consumed : ℕ) : ℤ)) =
      (rest = []) := by
    rw [← List.length_eq_zero_iff, eq_iff_iff]
    omega
  have hrest : (contentLength r.req.fields).toNat - (data.length - r.consumed) = rest.length := by
    omega
  simp (disch := exact hconnected) only [Session.deliver, Session.handleReadHeader, hparsed,
    run_ok_bind, haccepted, reduceCtorEq, hnegative, or_self, if_false, if_true,
    logAddress_of_connected, hzero, hread, hrest, Session.readBody, Session.appendBody,
    logAddress_write]
  cases w.server.getRequestHandler r.req.target with
  | error e => rfl
  | ok ptr => cases ptr <;> rfl

/-- The choice of a handler fails only where the target cannot be normalised. -/
theorem getRequestHandler_error {server : Server} {target : Text} {e : Abort}
    (h : server.getRequestHandler target = .error e) : e = .fault .popBackOfEmpty := by
  by_cases hbalanced : Balanced (components server.cwd target)
  · obtain ⟨handler, hok⟩ := getRequestHandler_of_balanced hbalanced
    rw [hok] at h
    cases h
  · unfold Server.getRequestHandler at h
    rw [convertToAbsolutePath_of_not_balanced hbalanced, run_error_bind, Except.error.injEq] at h
    exact h.symm

/-- Where a handler is found, or nothing is left of the body, the body is framed. -/
private theorem framing_of_accepted {data rest after : Text} {r : ParseResult B}
    {ptr : Option HandlerPtr} (hconnected : s.connected = true) (h : AcceptsBody s data rest r)
    (hptr : w.server.getRequestHandler r.req.target = .ok ptr) (hrest : ptr = none → rest = [])
    (ht : s.deliver w (.headerRead data) = .ok t) : Framing rest after ⟨t, rest ++ after⟩ := by
  rw [deliver_accepted hconnected h, hptr, run_ok_bind] at ht
  cases ptr with
  | none =>
    rw [hrest rfl]
    exact .writing (pending_of_write ht) rfl
  | some handler =>
    by_cases hempty : rest = []
    · simp only [hempty, if_true] at ht
      rw [hempty]
      exact .writing (pending_of_callHandler ht) rfl
    · simp only [hempty, if_false, Except.ok.injEq] at ht
      subst ht
      exact .reading rfl rfl

/-- Once a handler or its absence is known, reading the header is defined. -/
private theorem defined_of_accepted {data rest : Text} {r : ParseResult B}
    {ptr : Option HandlerPtr} (hconnected : s.connected = true) (h : AcceptsBody s data rest r)
    (hptr : w.server.getRequestHandler r.req.target = .ok ptr) (f : Fault) :
    s.deliver w (.headerRead data) ≠ .error (.fault f) := by
  rw [deliver_accepted hconnected h, hptr, run_ok_bind]
  cases ptr with
  | none => exact write_defined rfl f
  | some handler =>
    by_cases hempty : rest = []
    · simp only [hempty, if_true]
      exact callHandler_defined rfl f
    · simp [hempty]

/-- Without a handler, the next header is read from where the first read ended. -/
private theorem reaches_of_no_handler {data rest : Text} (after : Text) {r : ParseResult B}
    (hconnected : s.connected = true) (h : AcceptsBody s data rest r)
    (hptr : w.server.getRequestHandler r.req.target = .ok none) :
    ∃ t u, s.deliver w (.headerRead data) = .ok t ∧
      Connection.Reaches w BeforeHeader ⟨t, rest ++ after⟩ ⟨u, rest ++ after⟩ ∧
      u.pending = .readSome := by
  have hdeliver := deliver_accepted (w := w) hconnected h
  rw [hptr, run_ok_bind] at hdeliver
  obtain ⟨t, hwrite, hpending, hconnected', -⟩ := write_ok (w := w) (s :=
    { acceptedSession s r none with
      response := showErrorPage B 400 (text "Error getting handler for uri " ++ r.req.target) })
    hconnected rfl
  obtain ⟨u, hwritten, hidle, -⟩ := written_idle (w := w) hconnected'
  have hstep : Connection.Step w ⟨t, rest ++ after⟩ .written ⟨u, rest ++ after⟩ :=
    ⟨hpending, hwritten, rfl⟩
  refine ⟨t, u, hdeliver.trans hwrite, .step .refl ?_ hstep, hidle.pending⟩
  intro hread
  rw [show t.pending = .write from hpending] at hread
  cases hread

/-- After a header with a body was accepted, the next header is read right behind the body
exactly when the target can be normalised and, if no handler is found for it, the whole body came
with the header. -/
theorem framesBody_iff {data rest : Text} {r : ParseResult B} (hconnected : s.connected = true)
    (h : AcceptsBody s data rest r) :
    FramesBody w s data rest ↔ ∃ ptr, w.server.getRequestHandler r.req.target = .ok ptr ∧
      (ptr = none → rest = []) := by
  constructor
  · intro hframes
    cases hptr : w.server.getRequestHandler r.req.target with
    | error e =>
      have hfault := hframes.defined .popBackOfEmpty
      rw [deliver_accepted hconnected h, hptr, getRequestHandler_error hptr] at hfault
      exact absurd rfl hfault
    | ok ptr =>
      refine ⟨ptr, rfl, ?_⟩
      rintro rfl
      obtain ⟨t, u, hdeliver, hreaches, hpending⟩ :=
        reaches_of_no_handler [] hconnected h hptr
      simpa using hframes.positioned t [] _ hdeliver hreaches hpending
  · rintro ⟨ptr, hptr, hrest⟩
    refine ⟨defined_of_accepted hconnected h hptr, fun t after c ht hreaches hpending => ?_⟩
    have hframing : Framing rest after c := by
      apply hreaches.induct (framing_of_accepted hconnected h hptr hrest ht)
      intro d e f hd hbefore hstep
      exact framing_step hd hbefore hstep
    cases hframing with
    | reading hread _ =>
      rw [hread] at hpending
      cases hpending
    | writing hwrite _ =>
      rw [hwrite] at hpending
      cases hpending
    | next _ hwire => exact hwire
    | ended hended =>
      rw [hended] at hpending
      cases hpending

/-- The first two bytes of a body come with its header. -/
private theorem acceptsBody_post :
    AcceptsBody ({ pending := .readSome } : Session Beast.lists)
      (postMessage.head.render ++ text "he") (text "llo")
      ⟨.true, postMessage.head.render.length, .expectingNewline3,
        { postMessage.request Beast.lists with body := [] }⟩ where
  parsed := parse_message served_postMessage.wellFormed rfl rfl (text "he")
  accepted := rfl
  positive := by
    have hfive : (0 : ℤ) < postMessage.body.length := by decide
    exact hfive.trans_eq (contentLength_of_declares (B := Beast.lists)
      served_postMessage.wellFormed.declares served_postMessage.wellFormed.small).symm
  length := by
    exact (contentLength_of_declares (B := Beast.lists)
      served_postMessage.wellFormed.declares served_postMessage.wellFormed.small).trans (by decide)

/-- With a handler, the rest of the body is read before the next header. -/
theorem framesBody_post : FramesBody echoWorld ({ pending := .readSome } : Session Beast.lists)
    (postMessage.head.render ++ text "he") (text "llo") :=
  (framesBody_iff rfl acceptsBody_post).mpr
    ⟨some 1, served_postMessage.routed, fun h => by cases h⟩

/-- Without a handler, the rest of the body is read as a header. -/
theorem not_framesBody_post : ∃ (s : Session Beast.lists) (data rest : Text)
    (r : ParseResult Beast.lists), s.Idle ∧ AcceptsBody s data rest r ∧
      ¬ FramesBody { echoWorld with server := {} } s data rest := by
  refine ⟨{ pending := .readSome }, postMessage.head.render ++ text "he", text "llo", _,
    ⟨rfl, rfl, rfl, rfl, rfl, rfl⟩, acceptsBody_post, fun hframes => ?_⟩
  have hptr : ({} : Server).getRequestHandler (text "/echo") = .ok none := by decide
  obtain ⟨t, u, hdeliver, hreaches, hpending⟩ :=
    reaches_of_no_handler (w := { echoWorld with server := {} }) [] rfl
      acceptsBody_post hptr
  have hwire := hframes.positioned t [] _ hdeliver hreaches hpending
  cases hwire

end Aite
