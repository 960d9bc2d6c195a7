import Aite.Session.UpstreamFailure

/-!
# When a peer resets its connection

Each callback of a session, and the one that accepts a connection, logs a message with the address
of the peer. The socket has no address once the peer is gone, and the exception it throws leaves
the thread. So an operation that fails ends its own session and nothing else while the address is
still known, and the whole process when it is not.
-/

namespace Aite

open Http Routing
open Session

variable {B : Beast}

/-- A new connection is accepted, perhaps after its peer is gone again, a peer resets its
connection, or a thread runs the callback of a session. -/
inductive ServerAction where
  | accept (connected : Bool)
  | reset (i : ℕ)
  | callback (i : ℕ) (e : Event)
  deriving DecidableEq, Repr

/-- The process that serves all sessions, followed by the record of what has happened. -/
structure Serving (B : Beast) where
  sessions : List (Session B) := []
  /-- The sessions to which an error was passed, as they were before. -/
  failed : List (ℕ × Session B) := []
  /-- The action whose exception has ended the process. -/
  stoppedBy : Option ServerAction := none

namespace Serving

/-- Log the address of a new connection and start its session. Accepting goes on after it. -/
def handleAccept (connected : Bool) : Run (Session B) := do
  let s : Session B := { connected }
  s.logAddress
  s.start

/-- The session to which an event passes an error. -/
def failing (r : Serving B) (i : ℕ) : Event → List (ℕ × Session B)
  | .failed _ => (r.sessions[i]?).toList.map fun s => (i, s)
  | _ => []

/-- The process does an action, or ends with its exception. -/
def act (w : World B) (r : Serving B) : ServerAction → Serving B
  | .accept connected =>
    match handleAccept connected with
    | .ok s => { r with sessions := r.sessions ++ [s] }
    | .error _ => { r with stoppedBy := some (.accept connected) }
  | .reset i => { r with sessions := r.sessions.modify i fun s => { s with connected := false } }
  | .callback i e =>
    match Process.runCallback w r.sessions i e with
    | .running sessions => { r with sessions, failed := r.failed ++ r.failing i e }
    | .terminated => { r with stoppedBy := some (.callback i e) }

/-- The process runs, and a callback completes the operation its session waits for. -/
def Enabled (r : Serving B) (a : ServerAction) : Prop :=
  r.stoppedBy = none ∧ ∀ i e, a = .callback i e → ∃ s, r.sessions[i]? = some s ∧ s.Enabled e

/-- Runs in which every action meets a condition. -/
def Reaches (w : World B) (P : Serving B → ServerAction → Prop) : Serving B → Serving B → Prop :=
  Relation.ReflTransGen fun r r' => ∃ a, P r a ∧ r.Enabled a ∧ r.act w a = r'

end Serving

/-- The peer is still there when its connection is accepted or a callback of its session runs. -/
def PeerPresent (r : Serving B) : ServerAction → Prop
  | .accept connected => connected = true
  | .reset _ => True
  | .callback i _ => ∀ s, r.sessions[i]? = some s → s.connected = true

/-- The callback would return if the peer were there. -/
def ReturnsWithPeer (w : World B) (s : Session B) (e : Event) : Prop :=
  ∃ t, Session.deliver w { s with connected := true } e = .ok t

/-- The callback of a session returns, and nothing changes but this session. -/
def GoesOn (w : World B) (r : Serving B) (i : ℕ) (e : Event) : Prop :=
  ∃ t, r.act w (.callback i e) =
    { r with sessions := r.sessions.set i t, failed := r.failed ++ r.failing i e }

/-- A session that waits for nothing and has done nothing since it was in this state. -/
structure ClosedSince (s t : Session B) : Prop where
  pending : t.pending = .none
  handled : t.handled = s.handled
  written : t.written = s.written

/-- No error and no new connection has stopped the process, the sessions to which an error was
passed are closed, and every callback that returns with the peer there returns. -/
structure OutlivesPeers (w : World B) (P : Serving B → ServerAction → Prop) (r : Serving B) :
    Prop where
  running : ∀ i data, r.stoppedBy ≠ some (.callback i (.failed data))
  accepting : ∀ connected, r.stoppedBy ≠ some (.accept connected)
  closed : ∀ i s, (i, s) ∈ r.failed → ∃ t, r.sessions[i]? = some t ∧ ClosedSince s t
  goesOn : ∀ i s e, r.sessions[i]? = some s → r.Enabled (.callback i e) → P r (.callback i e) →
    ReturnsWithPeer w s e → GoesOn w r i e

variable {w : World B} {s t : Session B} {e : Event}

/-- An error is always taken while the peer is there. -/
theorem returnsWithPeer_failed (w : World B) (s : Session B) (data : Text) :
    ReturnsWithPeer w s (.failed data) :=
  ⟨_, rfl⟩

variable {r r' : Serving B}

/-! ## One action -/

/-- A callback that returns. -/
theorem act_callback_ok {i : ℕ} (hs : r.sessions[i]? = some s) (h : s.deliver w e = .ok t) :
    r.act w (.callback i e) =
      { r with sessions := r.sessions.set i t, failed := r.failed ++ r.failing i e } := by
  simp only [Serving.act, Process.runCallback, hs, h]

/-- A callback that throws. -/
theorem act_callback_error {i : ℕ} {a : Abort} (hs : r.sessions[i]? = some s)
    (h : s.deliver w e = .error a) :
    r.act w (.callback i e) = { r with stoppedBy := some (.callback i e) } := by
  simp only [Serving.act, Process.runCallback, hs, h]

/-- While the process runs, a callback goes on exactly when it returns. -/
private theorem goesOn_iff_deliver (hrunning : r.stoppedBy = none) {i : ℕ}
    (hs : r.sessions[i]? = some s) : GoesOn w r i e ↔ ∃ t, s.deliver w e = .ok t := by
  unfold GoesOn
  cases hdeliver : s.deliver w e with
  | ok t => exact ⟨fun _ => ⟨t, rfl⟩, fun _ => ⟨t, act_callback_ok hs hdeliver⟩⟩
  | error a =>
    rw [act_callback_error hs hdeliver]
    constructor
    · rintro ⟨t, hstop⟩
      have hstopped := congrArg Serving.stoppedBy hstop
      simp [hrunning] at hstopped
    · rintro ⟨t, ht⟩
      cases ht

/-- A callback that returns with the peer there goes on exactly when the peer is there. -/
theorem goesOn_iff (hrunning : r.stoppedBy = none) {i : ℕ} (hs : r.sessions[i]? = some s)
    (hreturns : ReturnsWithPeer w s e) : GoesOn w r i e ↔ s.connected = true := by
  rw [goesOn_iff_deliver hrunning hs]
  constructor
  · rintro ⟨t, ht⟩
    by_contra hconnected
    rw [Bool.not_eq_true] at hconnected
    obtain ⟨a, ha⟩ := deliver_of_not_connected (w := w) hconnected e
    rw [ha] at ht
    cases ht
  · intro hconnected
    have hsame : { s with connected := true } = s := by rw [← hconnected]
    unfold ReturnsWithPeer at hreturns
    rw [hsame] at hreturns
    exact hreturns

/-- A new connection is accepted when its peer is still there. -/
theorem accept_of_present (w : World B) (r : Serving B) :
    r.act w (.accept true) = { r with sessions := r.sessions ++ [{ pending := .readSome }] } := rfl

/-- An error closes its session. -/
private theorem closedSince_of_failed {data : Text} (h : s.deliver w (.failed data) = .ok t) :
    ClosedSince s t := by
  rw [eq_of_failed h]
  exact ⟨rfl, rfl, rfl⟩

/-- The sessions to which an error was passed are closed. -/
def ClosesFailed (r : Serving B) : Prop :=
  ∀ i s, (i, s) ∈ r.failed → ∃ t, r.sessions[i]? = some t ∧ ClosedSince s t

/-- A new session leaves the closed ones alone. -/
private theorem closesFailed_accept (h : ClosesFailed r) (connected : Bool) :
    ClosesFailed (r.act w (.accept connected)) := by
  cases connected with
  | false => exact h
  | true =>
    intro i s hmem
    obtain ⟨t, ht, hclosed⟩ := h i s hmem
    refine ⟨t, ?_, hclosed⟩
    rw [accept_of_present]
    exact List.getElem?_append_left (List.getElem?_eq_some_iff.mp ht).1 ▸ ht

/-- A reset closes nothing and opens nothing. -/
private theorem closesFailed_reset (h : ClosesFailed r) (j : ℕ) :
    ClosesFailed (r.act w (.reset j)) := by
  intro i s hmem
  obtain ⟨t, ht, hclosed⟩ := h i s hmem
  change ∃ t, (r.sessions.modify j _)[i]? = some t ∧ _
  rw [List.getElem?_modify, ht]
  by_cases hj : j = i
  · simp only [hj, if_true]
    exact ⟨_, rfl, hclosed.pending, hclosed.handled, hclosed.written⟩
  · simp only [hj, if_false]
    exact ⟨t, rfl, hclosed⟩

/-- A callback runs in a session that is not closed, and an error closes it. -/
private theorem closesFailed_callback (h : ClosesFailed r) {i : ℕ}
    (henabled : r.Enabled (.callback i e)) : ClosesFailed (r.act w (.callback i e)) := by
  obtain ⟨s, hs, hwaits⟩ := henabled.2 i e rfl
  cases hdeliver : s.deliver w e with
  | error a =>
    rw [act_callback_error hs hdeliver]
    exact h
  | ok t =>
    rw [act_callback_ok hs hdeliver]
    intro j u hmem
    cases List.mem_append.mp hmem with
    | inl hbefore =>
      obtain ⟨v, hv, hclosed⟩ := h j u hbefore
      have hj : i ≠ j := by
        rintro rfl
        obtain rfl : s = v := Option.some.inj (hs.symm.trans hv)
        exact hwaits.pending_ne hclosed.pending
      exact ⟨v, (List.getElem?_set_ne hj).trans hv, hclosed⟩
    | inr hnow =>
      cases e with
      | failed data =>
        simp only [Serving.failing, hs, Option.toList_some, List.map_singleton,
          List.mem_singleton, Prod.mk.injEq] at hnow
        obtain ⟨rfl, rfl⟩ := hnow
        refine ⟨t, ?_, closedSince_of_failed hdeliver⟩
        exact List.getElem?_set_self (List.getElem?_eq_some_iff.mp hs).1
      | headerRead data => exact absurd hnow List.not_mem_nil
      | bodyRead data => exact absurd hnow List.not_mem_nil
      | written => exact absurd hnow List.not_mem_nil

/-! ## Runs -/

/-- What is kept by the actions of a run in which the peers are there. -/
structure PeersOutlived (r : Serving B) : Prop where
  running : ∀ i data, r.stoppedBy ≠ some (.callback i (.failed data))
  accepting : ∀ connected, r.stoppedBy ≠ some (.accept connected)
  closed : ClosesFailed r

/-- An action during which the peer is there keeps the process going. -/
private theorem peersOutlived_act {a : ServerAction} (h : PeersOutlived r)
    (hpresent : PeerPresent r a) (henabled : r.Enabled a) : PeersOutlived (r.act w a) := by
  cases a with
  | accept connected =>
    obtain rfl : connected = true := hpresent
    exact ⟨h.running, h.accepting, closesFailed_accept h.closed true⟩
  | reset i => exact ⟨h.running, h.accepting, closesFailed_reset h.closed i⟩
  | callback i e =>
    have hclosed := closesFailed_callback (w := w) h.closed henabled
    obtain ⟨s, hs, -⟩ := henabled.2 i e rfl
    cases hdeliver : s.deliver w e with
    | ok t =>
      rw [act_callback_ok hs hdeliver] at hclosed ⊢
      exact ⟨h.running, h.accepting, hclosed⟩
    | error a =>
      rw [act_callback_error hs hdeliver] at hclosed ⊢
      refine ⟨?_, fun connected hstop => ?_, hclosed⟩
      · intro j data hstop
        -- an error is taken while the peer is there
        obtain ⟨rfl, rfl⟩ := ServerAction.callback.inj (Option.some.inj hstop)
        have hgoes := (goesOn_iff henabled.1 hs (returnsWithPeer_failed w s data)).mpr
          (hpresent s hs)
        obtain ⟨t, ht⟩ := (goesOn_iff_deliver henabled.1 hs).mp hgoes
        rw [ht] at hdeliver
        cases hdeliver
      · cases Option.some.inj hstop

/-- In every run in which the peer is still there when its connection is accepted and when a
callback of its session runs, an error closes its session for good and stops nothing else. -/
theorem outlivesPeers_of_present (w : World B)
    (hrun : Serving.Reaches w PeerPresent {} r) : OutlivesPeers w PeerPresent r := by
  have hkept : PeersOutlived r := by
    induction hrun with
    | refl =>
      exact ⟨fun _ _ h => Option.some_ne_none _ h.symm, fun _ h => Option.some_ne_none _ h.symm,
        fun _ _ h => absurd h List.not_mem_nil⟩
    | tail _ hstep ih =>
      obtain ⟨a, hpresent, henabled, rfl⟩ := hstep
      exact peersOutlived_act ih hpresent henabled
  refine ⟨hkept.running, hkept.accepting, hkept.closed, ?_⟩
  intro i s e hs henabled hpresent hreturns
  exact (goesOn_iff henabled.1 hs hreturns).mpr (hpresent s hs)

/-! ## Two connections -/

/-- While the process runs, connections are accepted. -/
private theorem enabled_accept (hrunning : r.stoppedBy = none) (connected : Bool) :
    r.Enabled (.accept connected) :=
  ⟨hrunning, fun i e h => by cases h⟩

/-- While the process runs, connections are reset. -/
private theorem enabled_reset (hrunning : r.stoppedBy = none) (i : ℕ) : r.Enabled (.reset i) :=
  ⟨hrunning, fun i e h => by cases h⟩

/-- While the process runs, the callback of an operation that is done is run. -/
private theorem enabled_callback {i : ℕ} (hrunning : r.stoppedBy = none)
    (hs : r.sessions[i]? = some s) (he : s.Enabled e) : r.Enabled (.callback i e) := by
  refine ⟨hrunning, fun j f h => ?_⟩
  obtain ⟨rfl, rfl⟩ := ServerAction.callback.inj h
  exact ⟨s, hs, he⟩

/-- The first of two peers closes its connection and can still be asked for its address, and the
second one is served. -/
theorem outlivesPeers_two : ∃ r : Serving Beast.lists,
    r.stoppedBy = none ∧ r.failed.map Prod.fst = [0] ∧
      r.sessions.map (fun s => (s.pending, s.written.length)) = [(.none, 0), (.write, 1)] ∧
      OutlivesPeers echoWorld PeerPresent r := by
  have hpresent (i : ℕ) (e : Event) {r : Serving Beast.lists}
      (hs : (r.sessions[i]?).map Session.connected = some true) :
      PeerPresent r (.callback i e) := by
    intro s h
    rw [h] at hs
    exact Option.some.inj hs
  have hrun : ∃ r, Serving.Reaches echoWorld PeerPresent ({} : Serving Beast.lists) r ∧
      r.stoppedBy = none ∧ r.failed.map Prod.fst = [0] ∧
      r.sessions.map (fun s => (s.pending, s.written.length)) = [(.none, 0), (.write, 1)] :=
    ⟨_, .head ⟨.accept true, rfl, enabled_accept rfl true, rfl⟩
      (.head ⟨.accept true, rfl, enabled_accept rfl true, rfl⟩
      (.head ⟨.callback 0 (.failed []), hpresent _ _ rfl,
        enabled_callback rfl rfl ⟨Pending.noConfusion, Or.inl rfl⟩, rfl⟩
      (.head ⟨.callback 1 (.headerRead getMessage.render), hpresent _ _ rfl,
        enabled_callback rfl rfl ⟨rfl, by decide, by decide⟩, rfl⟩ .refl))), rfl, rfl, rfl⟩
  obtain ⟨r, hreaches, hrunning, hfailed, hsessions⟩ := hrun
  exact ⟨r, hrunning, hfailed, hsessions, outlivesPeers_of_present echoWorld hreaches⟩

/-- A peer that resets its connection before the read fails stops the server. -/
theorem not_outlivesPeers_reset : ∃ r : Serving Beast.lists,
    Serving.Reaches echoWorld (fun _ _ => True) {} r ∧
      r.stoppedBy = some (.callback 0 (.failed [])) ∧ r.sessions.length = 2 ∧
      ¬ OutlivesPeers echoWorld (fun _ _ => True) r := by
  have hrun : ∃ r, Serving.Reaches echoWorld (fun _ _ => True) ({} : Serving Beast.lists) r ∧
      r.stoppedBy = some (.callback 0 (.failed [])) ∧ r.sessions.length = 2 :=
    ⟨_, .head ⟨.accept true, trivial, enabled_accept rfl true, rfl⟩
      (.head ⟨.accept true, trivial, enabled_accept rfl true, rfl⟩
      (.head ⟨.reset 0, trivial, enabled_reset rfl 0, rfl⟩
      (.head ⟨.callback 0 (.failed []), trivial,
        enabled_callback rfl rfl ⟨Pending.noConfusion, Or.inl rfl⟩, rfl⟩ .refl))), rfl, rfl⟩
  obtain ⟨r, hreaches, hstopped, hsessions⟩ := hrun
  exact ⟨r, hreaches, hstopped, hsessions, fun h => h.running 0 [] hstopped⟩

end Aite
