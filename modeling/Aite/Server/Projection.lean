import Aite.Server.Site
import Aite.Session.DeclaredBodies

/-!
# One session of the server

Whatever the other clients do, the session of one client does what a single session does in some
world: one whose handlers answer each call as they have answered it in the run of the server. So
what holds of every run of a session holds of every session of the server.
-/

namespace Aite

open Handlers Http Routing SharedStore
open Session

variable {B : Beast}

/-- The life of a session: its callbacks run, and its peer may reset the connection. -/
inductive Session.Lives (w : World B) (s : Session B) : Session B → Prop where
  | refl : Lives w s s
  | callback {t u e} (hlives : Lives w s t) (henabled : t.Enabled e)
      (hdeliver : t.deliver w e = .ok u) : Lives w s u
  | reset {t} (hlives : Lives w s t) : Lives w s { t with connected := false }

variable {w w' : World B} {s t u : Session B} {e : Event}

/-! ## What a callback asks of its world -/

/-- The server is what a write asks for. -/
private theorem write_congr (hserver : w'.server = w.server) : u.write w' = u.write w := by
  simp only [Session.write, Session.logSessionMetric, hserver]

/-- A handler that is called answers alike in the other world. -/
private theorem called_congr {handler : HandlerPtr}
    (hanswers : ∀ ptr req response, w.handleRequest s.handled.length ptr req = .ok response →
      t.handled = s.handled ++ [(ptr, req)] →
        w'.handleRequest s.handled.length ptr req = .ok response)
    (h : (do let v ← u.callHandler w handler; v.write w) = .ok t) (hu : u.handled = s.handled) :
    (do let v ← u.callHandler w' handler; v.write w) = .ok t := by
  obtain ⟨v, hcall, hwrite⟩ := run_bind_eq_ok.mp h
  refine run_bind_eq_ok.mpr ⟨v, ?_, hwrite⟩
  obtain ⟨metrics, rfl⟩ := exists_answering hwrite
  unfold Session.callHandler at hcall ⊢
  rw [hu] at hcall ⊢
  cases hanswer : w.handleRequest s.handled.length handler u.request with
  | error thrown =>
    rw [hanswer] at hcall
    cases hcall
  | ok response =>
    rw [hanswer] at hcall
    obtain rfl := Except.ok.inj hcall
    rw [hanswers handler u.request response hanswer rfl]

/-- A callback that returns does the same in another world of the same server in which the call
that it makes, if any, is answered alike. -/
theorem deliver_congr (hserver : w'.server = w.server)
    (hanswers : ∀ ptr req response, w.handleRequest s.handled.length ptr req = .ok response →
      t.handled = s.handled ++ [(ptr, req)] →
        w'.handleRequest s.handled.length ptr req = .ok response)
    (h : s.deliver w e = .ok t) : s.deliver w' e = .ok t := by
  cases e with
  | headerRead data =>
    obtain ⟨r, hparse, h⟩ := run_bind_eq_ok.mp h
    refine run_bind_eq_ok.mpr ⟨r, hparse, ?_⟩
    dsimp only at h ⊢
    simp only [logAddress_write, hserver, write_congr hserver] at h ⊢
    by_cases hbad : r.verdict = .false ∨ contentLength r.req.fields < 0
    · rw [if_pos hbad] at h ⊢
      exact h
    · rw [if_neg hbad] at h ⊢
      by_cases hgood : r.verdict = .true
      · rw [if_pos hgood] at h ⊢
        obtain ⟨_, haddress, h⟩ := run_bind_eq_ok.mp h
        obtain ⟨ptr, hrouted, h⟩ := run_bind_eq_ok.mp h
        refine run_bind_eq_ok.mpr ⟨_, haddress, run_bind_eq_ok.mpr ⟨ptr, hrouted, ?_⟩⟩
        cases ptr with
        | none => exact h
        | some handler =>
          dsimp only at h ⊢
          by_cases hlength : contentLength r.req.fields = 0
          · rw [if_pos hlength] at h ⊢
            exact called_congr hanswers h rfl
          · rw [if_neg hlength] at h ⊢
            obtain ⟨_, haddress, h⟩ := run_bind_eq_ok.mp h
            refine run_bind_eq_ok.mpr ⟨_, haddress, ?_⟩
            by_cases hwhole : contentLength r.req.fields ≤ (data.length - r.consumed : ℕ)
            · rw [if_pos hwhole] at h ⊢
              exact called_congr hanswers h rfl
            · rw [if_neg hwhole] at h ⊢
              exact h
      · rw [if_neg hgood] at h ⊢
        exact h
  | bodyRead data =>
    simp only [Session.deliver, Session.handleReadBody, write_congr hserver] at h ⊢
    split at h
    · cases h
    · exact h
    · exact called_congr hanswers h rfl
  | written => exact h
  | failed data => exact h

/-! ## The world of one client -/

variable {d : Deployment B} {i : ℕ} {start c : Client B} {trace : List (Store B × ClientAction)}

/-- The calls of a session, up to this one, are answered as the handlers of the server answer on
stores that satisfy a condition. -/
def AnsweredOn (d : Deployment B) (i : ℕ) (P : Store B → Prop) (w : World B) (calls : ℕ) : Prop :=
  ∀ n < calls, ∃ store, P store ∧
    w.handleRequest n = (d.world i store.shared).handleRequest n

/-- A client alone lives in a world that answers each call as it was answered, and any later one in
any way. -/
private theorem lives_of_localRun {P : Store B → Prop} (hrun : LocalRun d.site i start trace c)
    (hstart : start.session.handled = []) (htrace : ∀ x ∈ trace, P x.1)
    (later : ℕ → HandlerPtr → Request B → Except Exn (Response B)) :
    ∃ w : World B, w.server = d.registry.toServer ∧
      start.session.Lives w c.session ∧ AnsweredOn d i P w c.session.handled.length ∧
        ∀ n, c.session.handled.length ≤ n → w.handleRequest n = later n := by
  induction hrun generalizing later with
  | refl =>
    rw [hstart]
    exact ⟨⟨d.registry.toServer, later⟩, rfl, .refl, fun n hn => absurd hn (Nat.not_lt_zero n),
      fun n _ => rfl⟩
  | @snoc trace store a c r _ hstep ih =>
    obtain ⟨hbefore, hstore⟩ := List.forall_mem_append.mp htrace
    rw [List.forall_mem_singleton] at hstore
    obtain ⟨store', c'⟩ := r
    obtain ⟨e, t, rfl, henabled, hdeliver, hcalls, rfl⟩ | ⟨rfl, hreset⟩ |
      ⟨rfl, -, hreport⟩ := Client.act_cases hstep
    · change ∃ w : World B, _ ∧ start.session.Lives w t ∧ AnsweredOn d i P w t.handled.length ∧
        ∀ n, t.handled.length ≤ n → w.handleRequest n = later n
      cases hcalls with
      | none hhandled =>
        obtain ⟨w, hserver, hlives, hanswered, hlater⟩ := ih hbefore later
        refine ⟨w, hserver, hlives.callback henabled (deliver_congr hserver ?_ hdeliver), ?_, ?_⟩
        · intro ptr req response _ hcalled
          rw [hhandled] at hcalled
          exact absurd hcalled.symm (by simp)
        · rw [hhandled]
          exact hanswered
        · rw [hhandled]
          exact hlater
      | one hhandled _ _ =>
        obtain ⟨w, hserver, hlives, hanswered, hlater⟩ := ih hbefore fun n =>
          if n = c.session.handled.length then (d.world i store.shared).handleRequest n else later n
        have hnow := hlater _ (le_refl _)
        rw [if_pos rfl] at hnow
        refine ⟨w, hserver, hlives.callback henabled (deliver_congr hserver ?_ hdeliver), ?_, ?_⟩
        · intro ptr req response hanswer _
          rw [hnow]
          exact hanswer
        · intro n hn
          rw [hhandled, List.length_append, List.length_singleton] at hn
          cases Nat.lt_succ_iff_lt_or_eq.mp hn with
          | inl hn => exact hanswered n hn
          | inr hn => exact ⟨store, hstore, hn ▸ hnow⟩
        · intro n hn
          rw [hhandled, List.length_append, List.length_singleton] at hn
          rw [hlater n (by omega), if_neg (by omega)]
    · obtain ⟨-, rfl⟩ := Prod.mk.inj hreset
      obtain ⟨w, hserver, hlives, hrest⟩ := ih hbefore later
      exact ⟨w, hserver, hlives.reset, hrest⟩
    · obtain ⟨-, rfl⟩ := Prod.mk.inj hreport
      obtain ⟨w, hserver, hlives, hrest⟩ := ih hbefore later
      exact ⟨w, hserver, hlives, hrest⟩

/-- A client of a run was accepted, and has lived alone on stores that the run has passed. -/
private theorem exists_localRun {fs : FileSystem} {moves : List (Move (Client B) ClientAction)}
    {g : Global (Store B) (Client B)} (hrun : SharedStore.Run d.site (d.start fs) moves g)
    (hc : g.locals[i]? = some c) :
    ∃ start trace, ({} : Session B).start = .ok start.session ∧ start.session.handled = [] ∧
      LocalRun d.site i start trace c ∧ ∀ x ∈ trace, Found d.site (d.start fs) x.1 := by
  obtain ⟨start, trace, -, ⟨haccepted, -⟩, hlocal, -, hfound⟩ := hrun.localRun rfl hc
  obtain ⟨-, -, hstart⟩ := run_bind_eq_ok.mp haccepted
  refine ⟨start, trace, hstart, ?_, hlocal, hfound⟩
  obtain ⟨-, -, hread⟩ := run_bind_eq_ok.mp hstart
  rw [eq_of_readHeader hread]

/-- What holds of a single session when it starts, and is kept by its callbacks and by a reset of
its connection, holds of it for life. -/
theorem Session.Lives.induct {I : Session B → Prop} (h : s.Lives w t) (hs : I s)
    (hcallback : ∀ t e u, I t → t.Enabled e → t.deliver w e = .ok u → I u)
    (hreset : ∀ t : Session B, I t → I { t with connected := false }) : I t := by
  induction h with
  | refl => exact hs
  | callback _ henabled hdeliver ih => exact hcallback _ _ _ ih henabled hdeliver
  | reset _ ih => exact hreset _ ih

/-- Between its callbacks, each session of the server is as a single session is. -/
theorem framed_of_run (L : FieldList B) {fs : FileSystem}
    {moves : List (Move (Client B) ClientAction)} {g : Global (Store B) (Client B)}
    (hrun : SharedStore.Run d.site (d.start fs) moves g) (hc : g.locals[i]? = some c) :
    ∃ w : World B, w.server = d.registry.toServer ∧ c.session.Framed L w := by
  obtain ⟨start, trace, hstart, hhandled, hlocal, hfound⟩ := exists_localRun hrun hc
  obtain ⟨w, hserver, hlives, -⟩ :=
    lives_of_localRun hlocal hhandled hfound fun _ _ _ => .error .handlerError
  refine ⟨w, hserver, hlives.induct (framed_start hstart) ?_ ?_⟩
  · exact fun t e u h henabled hdeliver => framed_deliver h henabled hdeliver
  · exact fun t h => ⟨h.handled, h.header, fun length hpending =>
      let hbody := h.body length hpending
      ⟨hbody.stored, hbody.declared, hbody.routed, hbody.bodyData⟩⟩

/-- Every request that the server hands to a handler has come whole. -/
theorem handled_whole_of_run (L : FieldList B) {fs : FileSystem}
    {moves : List (Move (Client B) ClientAction)} {g : Global (Store B) (Client B)}
    (hrun : SharedStore.Run d.site (d.start fs) moves g) (hc : g.locals[i]? = some c)
    {call : HandlerPtr × Request B} (hcall : call ∈ c.session.handled) :
    IsStored L call.2 ∧ (call.2.body.length : ℤ) = contentLength call.2.fields ∧
      d.registry.getRequestHandler call.2.target = .ok (some call.1) := by
  obtain ⟨w, hserver, hframed⟩ := framed_of_run L hrun hc
  obtain ⟨hstored, hdeclared, hrouted⟩ := hframed.handled call hcall
  exact ⟨hstored, hdeclared, hserver ▸ hrouted⟩

end Aite
