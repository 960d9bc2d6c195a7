import Aite.Server.Site

/-!
# What all clients have done

The server runs with one thread, so the calls of handlers and the reports of requests that all
clients make have an order. Done again in that order, they leave the shared data as the run leaves
it, and each call is answered as it was in the run. For each client this is the order in which its
session has made its own. No response is lost from the counts: those that are counted, and those
whose report is to come, are as many as all sessions have written.
-/

namespace Aite

open Handlers Http KeyedList Routing SharedStore
open Session

variable {B : Beast}

/-- The client of an entry. -/
def Entry.client : Entry B → ℕ
  | .call client _ _ _ _ => client
  | .report client _ => client

/-- The call of an entry, with its number. -/
def Entry.call? : Entry B → Option (ℕ × HandlerPtr × Request B)
  | .call _ number ptr req _ => some (number, ptr, req)
  | .report _ _ => none

/-- The answer to the call of an entry. -/
def Entry.response? : Entry B → Option (Response B)
  | .call _ _ _ _ response => some response
  | .report _ _ => none

/-- The report of an entry. -/
def Entry.report? : Entry B → Option (Text × ℕ)
  | .call _ _ _ _ _ => none
  | .report _ reqResp => some reqResp

/-- The entries of one client. -/
def entriesOf (i : ℕ) (log : List (Entry B)) : List (Entry B) :=
  log.filter fun entry => entry.client = i

/-- Do again what an entry says. -/
def Deployment.applyEntry (d : Deployment B) (shared : Shared) : Entry B → Shared
  | .call client call ptr req _ => (d.handleRequest client call shared ptr req).1
  | .report _ reqResp => { shared with requests := logRequest shared.requests reqResp }

/-- Do again what a list of entries says, one after the other. -/
def Deployment.replay (d : Deployment B) (shared : Shared) (log : List (Entry B)) : Shared :=
  log.foldl d.applyEntry shared

variable {d : Deployment B} {fs : FileSystem} {g h : Global (Store B) (Client B)} {i j : ℕ}
  {store store' : Store B} {c : Client B} {s t : Session B} {e : Event}

/-! ## Entries -/

/-- A client that has not joined has no entries. -/
private theorem entriesOf_eq_nil {log : List (Entry B)} (h : ∀ entry ∈ log, entry.client < i) :
    entriesOf i log = [] :=
  List.filter_eq_nil_iff.mpr fun entry hentry => by simpa using (h entry hentry).ne

/-- One more entry of the client. -/
private theorem entriesOf_append_self (log : List (Entry B)) (entry : Entry B) :
    entriesOf entry.client (log ++ [entry]) = entriesOf entry.client log ++ [entry] := by
  simp [entriesOf]

/-- One more entry of another client. -/
private theorem entriesOf_append_of_ne (log : List (Entry B)) {entry : Entry B}
    (h : entry.client ≠ i) : entriesOf i (log ++ [entry]) = entriesOf i log := by
  simp [entriesOf, h]

/-- Replaying one more entry. -/
private theorem replay_append (shared : Shared) (log : List (Entry B)) (entry : Entry B) :
    d.replay shared (log ++ [entry]) = d.applyEntry (d.replay shared log) entry :=
  List.foldl_concat d.applyEntry shared entry log

/-- The last entry, or one before it. -/
private theorem split_append {log before after : List (Entry B)} {entry last : Entry B}
    (h : log ++ [last] = before ++ entry :: after) :
    (log = before ∧ last = entry) ∨ ∃ rest, log = before ++ entry :: rest := by
  cases List.eq_nil_or_concat after with
  | inl hnil =>
    subst hnil
    obtain ⟨hlog, hlast⟩ := List.append_inj' h rfl
    exact .inl ⟨hlog, List.singleton_inj.mp hlast⟩
  | inr hconcat =>
    obtain ⟨rest, final, rfl⟩ := hconcat
    rw [List.concat_eq_append, ← List.cons_append, ← List.append_assoc] at h
    exact .inr ⟨rest, (List.append_inj' h rfl).1⟩

/-! ## One client -/

/-- The entries of a client are what its session has done. -/
structure Accounts (i : ℕ) (log : List (Entry B)) (c : Client B) : Prop where
  calls : (entriesOf i log).filterMap Entry.call? =
    c.session.handled.mapIdx fun n call => (n, call)
  written : ((entriesOf i log).filterMap Entry.response?).Sublist c.session.written
  reported : ((entriesOf i log).filterMap Entry.report?).length + c.outstanding =
    c.session.written.length

/-- A callback keeps account of its call. -/
private theorem accounts_callback (h : Accounts i store.log c)
    (hdeliver : c.session.deliver (d.world i store.shared) e = .ok t)
    (hcalls : Calls d i store c.session t store') : Accounts i store'.log (c.afterCallback t) := by
  obtain ⟨hcall, hwritten, hreported⟩ := h
  cases hcalls with
  | none hhandled =>
    refine ⟨?_, ?_, ?_⟩
    · change _ = t.handled.mapIdx _
      rw [hhandled, hcall]
    · cases responds_of_deliver hdeliver with
      | silent hsilent => exact hsilent.symm ▸ hwritten
      | answer hanswered _ =>
        change List.Sublist _ t.written
        rw [hanswered]
        exact hwritten.trans (List.sublist_append_left _ _)
    · cases responds_of_deliver hdeliver with
      | silent hsilent =>
        change _ + (if t.written.length = c.session.written.length then c.outstanding
          else c.outstanding + 1) = t.written.length
        rw [hsilent, if_pos rfl, hreported]
      | answer hanswered _ =>
        change _ + (if t.written.length = c.session.written.length then c.outstanding
          else c.outstanding + 1) = t.written.length
        rw [hanswered, List.length_append, List.length_singleton, if_neg (by omega)]
        omega
  | one hhandled hanswer hone =>
    rename_i ptr req
    have hentries := entriesOf_append_self store.log
      (Entry.call i c.session.handled.length ptr req t.response)
    change entriesOf i _ = entriesOf i _ ++ _ at hentries
    refine ⟨?_, ?_, ?_⟩
    · change _ = t.handled.mapIdx _
      rw [hentries, List.filterMap_append, hcall, hhandled, List.mapIdx_concat]
      rfl
    · change List.Sublist _ t.written
      rw [hentries, List.filterMap_append, hone]
      exact hwritten.append (List.Sublist.refl _)
    · change _ + (if t.written.length = c.session.written.length then c.outstanding
        else c.outstanding + 1) = t.written.length
      rw [hentries, List.filterMap_append, hone, List.length_append, List.length_append,
        List.length_singleton, if_neg (by omega)]
      change _ + 0 + _ = _
      omega

/-- A report is accounted for. -/
private theorem accounts_report (h : Accounts i store.log c) (houtstanding : 0 < c.outstanding)
    (reqResp : Text × ℕ) :
    Accounts i (store.log ++ [.report i reqResp]) { c with outstanding := c.outstanding - 1 } := by
  obtain ⟨hcall, hwritten, hreported⟩ := h
  have hentries := entriesOf_append_self store.log (Entry.report (B := B) i reqResp)
  change entriesOf i _ = entriesOf i _ ++ _ at hentries
  refine ⟨?_, ?_, ?_⟩
  · rw [hentries, List.filterMap_append, hcall]
    exact List.append_nil (c.session.handled.mapIdx fun n call => (n, call))
  · rw [hentries, List.filterMap_append]
    exact hwritten.append (List.Sublist.refl []) |>.trans (by rw [List.append_nil])
  · rw [hentries, List.filterMap_append, List.length_append]
    change _ + 1 + (c.outstanding - 1) = c.session.written.length
    omega

/-! ## All clients -/

/-- What is kept by every move. -/
structure Ordered (d : Deployment B) (fs : FileSystem) (g : Global (Store B) (Client B)) :
    Prop where
  shared : g.store.shared = d.replay { fs } g.store.log
  answers : ∀ before client call ptr req response after,
    g.store.log = before ++ .call client call ptr req response :: after →
      (d.handleRequest client call (d.replay { fs } before) ptr req).2 = .ok response
  joined : ∀ entry ∈ g.store.log, entry.client < g.locals.length
  accounts : ∀ i c, g.locals[i]? = some c → Accounts i g.store.log c

/-- A new client has done nothing. -/
private theorem accounts_of_init {log : List (Entry B)} (h : d.site.init c)
    (hlog : entriesOf i log = []) : Accounts i log c := by
  obtain ⟨haccepted, houtstanding⟩ := h
  obtain ⟨-, -, hstart⟩ := run_bind_eq_ok.mp haccepted
  obtain ⟨-, -, hread⟩ := run_bind_eq_ok.mp hstart
  have hsession := eq_of_readHeader hread
  refine ⟨?_, ?_, ?_⟩
  · rw [hlog, hsession]
    rfl
  · rw [hlog]
    exact List.nil_sublist _
  · rw [hlog, hsession, houtstanding]
    rfl

/-- The accounts of a client do not change when another one makes an entry. -/
private theorem Accounts.other {entry : Entry B} (h : Accounts i store.log c)
    (hentry : entry.client ≠ i) : Accounts i (store.log ++ [entry]) c := by
  have hsame := entriesOf_append_of_ne store.log hentry
  exact ⟨hsame.symm ▸ h.calls, hsame.symm ▸ h.written, hsame.symm ▸ h.reported⟩

/-- After an action of a client, all accounts are kept if those of this client are. -/
private theorem accounts_set {c' : Client B} {log : List (Entry B)} (hc : g.locals[j]? = some c)
    (hother : ∀ i c, i ≠ j → g.locals[i]? = some c → Accounts i log c) (hself : Accounts j log c') :
    ∀ i c, (g.locals.set j c')[i]? = some c → Accounts i log c := by
  intro i c hi
  by_cases hij : i = j
  · subst hij
    rw [List.getElem?_set_self (List.getElem?_eq_some_iff.mp hc).1] at hi
    exact Option.some.inj hi ▸ hself
  · rw [List.getElem?_set_ne (Ne.symm hij)] at hi
    exact hother i c hij hi

/-- One more entry is that of the shared data as it was before. -/
private theorem Ordered.append (entry : Entry B) {locals : List (Client B)} (h : Ordered d fs g)
    (hentry : ∀ client number ptr req response, entry = .call client number ptr req response →
      (d.handleRequest client number g.store.shared ptr req).2 = .ok response)
    (hlength : locals.length = g.locals.length) (hclient : entry.client < g.locals.length)
    (haccounts : ∀ i c, locals[i]? = some c → Accounts i (g.store.log ++ [entry]) c) :
    Ordered d fs ⟨⟨d.applyEntry g.store.shared entry, g.store.log ++ [entry]⟩, locals⟩ := by
  refine ⟨?_, ?_, ?_, haccounts⟩
  · rw [replay_append, ← h.shared]
  · intro before client number ptr req response after hsplit
    cases split_append hsplit with
    | inl hlast =>
      obtain ⟨rfl, rfl⟩ := hlast
      rw [← h.shared]
      exact hentry client number ptr req response rfl
    | inr hbefore =>
      obtain ⟨rest, hlog⟩ := hbefore
      exact h.answers before client number ptr req response rest hlog
  · change ∀ other ∈ g.store.log ++ [entry], other.client < locals.length
    rw [hlength]
    exact List.forall_mem_append.mpr ⟨h.joined, List.forall_mem_singleton.mpr hclient⟩

/-- Every action of a client keeps the order. -/
private theorem ordered_act {a : ClientAction} {r : Store B × Client B} (h : Ordered d fs g)
    (hc : g.locals[j]? = some c) (hstep : c.act d j g.store a = some r) :
    Ordered d fs ⟨r.1, g.locals.set j r.2⟩ := by
  have hj : j < g.locals.length := (List.getElem?_eq_some_iff.mp hc).1
  have hlength (c' : Client B) : (g.locals.set j c').length = g.locals.length := List.length_set
  obtain ⟨store', c'⟩ := r
  obtain ⟨e, t, rfl, -, hdeliver, hcalls, rfl⟩ | ⟨rfl, hreset⟩ | ⟨rfl, houtstanding, hreport⟩ :=
    Client.act_cases hstep
  · have hself := accounts_callback (h.accounts j c hc) hdeliver hcalls
    cases hcalls with
    | none _ =>
      exact ⟨h.shared, h.answers, by rw [hlength]; exact h.joined,
        accounts_set hc (fun i c _ hi => h.accounts i c hi) hself⟩
    | @one ptr req _ hanswer _ =>
      refine h.append (.call j c.session.handled.length ptr req t.response) ?_ (hlength _) hj
        (accounts_set hc ?_ hself)
      · rintro client number ptr req response ⟨⟩
        exact hanswer
      · exact fun i c hi hother => (h.accounts i c hother).other (Ne.symm hi)
  · obtain ⟨rfl, rfl⟩ := Prod.mk.inj hreset
    obtain ⟨hcalls, hwritten, hreported⟩ := h.accounts j c hc
    exact ⟨h.shared, h.answers, by rw [hlength]; exact h.joined,
      accounts_set hc (fun i c _ hi => h.accounts i c hi) ⟨hcalls, hwritten, hreported⟩⟩
  · obtain ⟨rfl, rfl⟩ := Prod.mk.inj hreport
    have hself := accounts_report (h.accounts j c hc) houtstanding
      (reqRespOf d.intToStatus c.session.request c.session.response)
    refine h.append (.report j _) ?_ (hlength _) hj (accounts_set hc ?_ hself)
    · rintro client number ptr req response ⟨⟩
    · exact fun i c hi hother => (h.accounts i c hother).other (Ne.symm hi)

/-- Every move keeps the order. -/
private theorem ordered_step {move : Move (Client B) ClientAction} (hg : Ordered d fs g)
    (hstep : SharedStore.Step d.site g move h) : Ordered d fs h := by
  cases hstep with
  | act hc hstep => exact ordered_act hg hc hstep
  | join hinit =>
    rename_i c
    refine ⟨hg.shared, hg.answers, ?_, ?_⟩
    · intro entry hentry
      rw [List.length_append]
      exact Nat.lt_add_right 1 (hg.joined entry hentry)
    · intro i c' hi
      by_cases hlt : i < g.locals.length
      · rw [List.getElem?_append_left hlt] at hi
        exact hg.accounts i c' hi
      · rw [List.getElem?_append_right (not_lt.mp hlt), List.getElem?_singleton] at hi
        split_ifs at hi
        obtain rfl := Option.some.inj hi
        refine accounts_of_init hinit (entriesOf_eq_nil fun entry hentry => ?_)
        exact lt_of_lt_of_le (hg.joined entry hentry) (not_lt.mp hlt)

/-- Every run keeps the order. -/
theorem ordered_of_run {moves : List (Move (Client B) ClientAction)}
    (hrun : SharedStore.Run d.site (d.start fs) moves g) : Ordered d fs g := by
  refine hrun.induct ?_ fun g move h hg hstep => ordered_step hg hstep
  refine ⟨rfl, ?_, fun _ hentry => absurd hentry List.not_mem_nil, ?_⟩
  · intro before client number ptr req response after hnil
    exact absurd hnil.symm (by simp [Deployment.start])
  · intro i c hc
    cases hc

/-! ## All counts -/

end Aite
