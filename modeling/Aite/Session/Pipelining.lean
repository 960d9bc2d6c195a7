import Aite.Session.KeepAlive

/-!
# Requests that are sent back to back

A client may send its requests without waiting for the responses, and the transport cuts the
bytes into reads. The session drops what a read for a header brings beyond the end of the
request at whose start it begins. As long as no read does so, the handlers are called for the
requests in order, each once and with its own body.
-/

namespace Aite

open Http Routing
open Session

variable {B : Beast}

/-- The bytes of requests sent back to back. -/
def wireOf (messages : List Message) : Text := messages.flatMap Message.render

/-- The number of bytes that the session has read. -/
def delivered (messages : List Message) (c : Connection B) : ℕ :=
  (wireOf messages).length - c.wire.length

/-- The session has not stopped reading within a header. -/
def HeaderWhole (messages : List Message) (c : Connection B) : Prop :=
  ∀ before m after, messages = before ++ m :: after →
    ¬ ((wireOf before).length < delivered messages c ∧
      delivered messages c < (wireOf before).length + m.head.render.length)

/-- A read that begins where a request begins ends within that request. -/
def EndsWithin (messages : List Message) (c d : Connection B) : Prop :=
  ∀ before m after, messages = before ++ m :: after →
    delivered messages c = (wireOf before).length →
      delivered messages d ≤ (wireOf before).length + m.render.length

/-- A step of a connection whose transport does not fail and splits no header. -/
def Transported (messages : List Message) (_ : Connection B) (e : Event) (d : Connection B) :
    Prop :=
  (∀ data, e ≠ .failed data) ∧ HeaderWhole messages d

/-- The calls of handlers for some requests. -/
def CallsOf (w : World B) (handled : List (HandlerPtr × Request B)) (messages : List Message) :
    Prop :=
  List.Forall₂ (fun call (m : Message) =>
    w.server.getRequestHandler m.head.target = .ok (some call.1) ∧ call.2 = m.request B)
      handled messages

/-- The calls are those of some first requests, and of all of them when there is nothing left to
read; the session never waits for bytes that are not sent. -/
structure InOrder (w : World B) (messages : List Message) (c : Connection B) : Prop where
  calls : ∃ done, done <+: messages ∧ CallsOf w c.session.handled done
  complete : c.session.pending = .readSome → c.wire = [] →
    c.session.handled.length = messages.length
  live : c.session.pending = .readSome ∨ c.session.pending = .write ∨
    ∃ length, c.session.pending = .read length ∧ length ≤ c.wire.length

/-- Where a connection is within the requests. -/
inductive Position (w : World B) (messages : List Message) (c : Connection B) : Prop where
  /-- Between two requests. -/
  | between (done rest : List Message) (hsplit : messages = done ++ rest)
      (hwire : c.wire = wireOf rest) (hcalls : CallsOf w c.session.handled done)
      (hidle : c.session.Idle)
  /-- Within the body of a request. -/
  | within (done rest : List Message) (m : Message) (handler : HandlerPtr) (first second : Text)
      (hsplit : messages = done ++ m :: rest) (hbody : first ++ second = m.body)
      (hwire : c.wire = second ++ wireOf rest) (hcalls : CallsOf w c.session.handled done)
      (hserved : Served w m handler) (hawaits : Awaits c.session c.session m handler first)
  /-- While a response is written. -/
  | writing (done rest : List Message) (hsplit : messages = done ++ rest)
      (hwire : c.wire = wireOf rest) (hcalls : CallsOf w c.session.handled done)
      (hpending : c.session.pending = .write) (hconnected : c.session.connected = true)

variable {w : World B} {messages : List Message} {c d : Connection B}

/-- The bytes of some requests and of the others are the bytes of all. -/
@[simp] theorem wireOf_append (first second : List Message) :
    wireOf (first ++ second) = wireOf first ++ wireOf second := List.flatMap_append

/-- The bytes of a request come before those of the others. -/
@[simp] theorem wireOf_cons (m : Message) (rest : List Message) :
    wireOf (m :: rest) = m.render ++ wireOf rest := List.flatMap_cons

/-- The head of a request is not empty. -/
private theorem render_length_pos (m : Message) : 0 < m.head.render.length := by
  have hne := List.length_pos_of_ne_nil m.head.method_ne_nil
  simp only [RequestHead.render, List.length_append]
  omega

/-- Every position is as it should be. -/
theorem inOrder_of_position (h : Position w messages c) : InOrder w messages c := by
  cases h with
  | between done rest hsplit hwire hcalls hidle =>
    subst hsplit
    refine ⟨⟨done, List.prefix_append done rest, hcalls⟩, ?_, Or.inl hidle.pending⟩
    intro _ hempty
    rw [hwire] at hempty
    cases rest with
    | nil => rw [hcalls.length_eq, List.append_nil]
    | cons m rest =>
      have hlength := congrArg List.length hempty
      have hpos := render_length_pos m
      simp only [wireOf_cons, Message.render, List.length_append, List.length_nil] at hlength
      omega
  | within done rest m handler first second hsplit hbody hwire hcalls hserved hawaits =>
    subst hsplit
    have hlength := congrArg List.length hbody
    rw [List.length_append] at hlength
    refine ⟨⟨done, List.prefix_append done _, hcalls⟩, ?_, Or.inr (Or.inr ⟨_, hawaits.pending, ?_⟩)⟩
    · intro hpending
      rw [hawaits.pending] at hpending
      cases hpending
    · rw [hwire, List.length_append]
      omega
  | writing done rest hsplit hwire hcalls hpending hconnected =>
    subst hsplit
    refine ⟨⟨done, List.prefix_append done rest, hcalls⟩, ?_, Or.inr (Or.inl hpending)⟩
    intro hread
    rw [hpending] at hread
    cases hread

/-- Answering the next request extends the calls. -/
private theorem callsOf_answers {s t : Session B} {done : List Message} {m : Message}
    {handler : HandlerPtr} (hcalls : CallsOf w s.handled done) (hserved : Served w m handler)
    (hanswers : Answers w s t handler (m.request B)) : CallsOf w t.handled (done ++ [m]) := by
  rw [hanswers.handled]
  exact List.rel_append hcalls (.cons ⟨hserved.routed, rfl⟩ .nil)

/-- A first part of some bytes that is not longer than their first half is a part of that. -/
private theorem split_of_length_le {u v x y : Text} (h : u ++ v = x ++ y)
    (hle : u.length ≤ x.length) : ∃ z, x = u ++ z ∧ v = z ++ y := by
  refine ⟨x.drop u.length, ?_, ?_⟩
  · have htake := congrArg (List.take u.length) h
    rw [List.take_left, List.take_append_of_le_length hle] at htake
    nth_rewrite 1 [← List.take_append_drop u.length x]
    rw [← htake]
  · have hdrop := congrArg (List.drop u.length) h
    rw [List.drop_left, List.drop_append_of_le_length hle] at hdrop
    exact hdrop

/-- A read for a header that ends within its request brings the header and a part of the body. -/
private theorem headerRead_split {done rest : List Message} {m : Message} {data : Text}
    (hsplit : messages = done ++ m :: rest) (hwire : c.wire = m.render ++ wireOf rest)
    (hdata : c.wire = data ++ d.wire) (hne : data ≠ []) (hwhole : HeaderWhole messages d)
    (hends : EndsWithin messages c d) :
    ∃ first second, data = m.head.render ++ first ∧ first ++ second = m.body ∧
      d.wire = second ++ wireOf rest := by
  have hcwire := congrArg List.length hwire
  have hdwire := congrArg List.length hdata
  have htotal := congrArg (fun ms => (wireOf ms).length) hsplit
  have hpos := List.length_pos_of_ne_nil hne
  have hrender : m.render.length = m.head.render.length + m.body.length := by
    rw [Message.render, List.length_append]
  simp only [wireOf_append, wireOf_cons, List.length_append] at hcwire hdwire htotal
  have hc : delivered messages c = (wireOf done).length := by
    unfold delivered
    omega
  have hd : delivered messages d = (wireOf done).length + data.length := by
    unfold delivered
    omega
  have hle := hends done m rest hsplit hc
  have hge := hwhole done m rest hsplit
  rw [hd] at hle hge
  obtain ⟨second, hmessage, hsecond⟩ :=
    split_of_length_le (hdata.symm.trans hwire) (by omega : data.length ≤ m.render.length)
  obtain ⟨first, hfirst, hbody⟩ :=
    split_of_length_le hmessage (by omega : m.head.render.length ≤ data.length)
  exact ⟨first, second, hfirst, hbody.symm, hsecond⟩

/-- Between two requests, a read brings the header of the next one and a part of its body. -/
private theorem position_of_between {e : Event} {done rest : List Message}
    (hserved : ∀ m ∈ messages, ∃ handler, Served w m handler) (hsplit : messages = done ++ rest)
    (hwire : c.wire = wireOf rest) (hcalls : CallsOf w c.session.handled done)
    (hidle : c.session.Idle) (htransported : Transported messages c e d)
    (hends : EndsWithin messages c d) (hstep : c.Step w e d) : Position w messages d := by
  obtain ⟨hfails, hwhole⟩ := htransported
  obtain ⟨henabled, hdelivers, hdata⟩ := hstep
  rcases henabled.of_readSome hidle.pending with ⟨data, rfl, hne⟩ | ⟨data, rfl⟩
  · cases rest with
    | nil =>
      rw [hwire] at hdata
      exact absurd (List.append_eq_nil_iff.mp hdata.symm).1 hne
    | cons m rest =>
      obtain ⟨handler, hm⟩ := hserved m (by simp [hsplit])
      rw [wireOf_cons] at hwire
      obtain ⟨first, second, rfl, hbody, hrest⟩ :=
        headerRead_split hsplit hwire hdata hne hwhole hends
      cases second with
      | nil =>
        rw [List.append_nil] at hbody
        obtain ⟨t, hdeliver, hanswers⟩ := headerRead_whole hidle hm
        rw [hbody] at hdelivers
        obtain rfl : t = d.session := Except.ok.inj (hdeliver.symm.trans hdelivers)
        exact .writing (done ++ [m]) rest (by rw [hsplit, List.append_cons]) hrest
          (callsOf_answers hcalls hm hanswers) hanswers.pending hanswers.connected
      | cons b second =>
        have hshort : first.length < m.body.length := by
          rw [← hbody, List.length_append, List.length_cons]
          omega
        obtain ⟨t, hdeliver, hawaits⟩ := headerRead_part hidle hm hshort
        obtain rfl : t = d.session := Except.ok.inj (hdeliver.symm.trans hdelivers)
        rw [← hawaits.handled] at hcalls
        exact .within done rest m handler first (b :: second) hsplit hbody hrest hcalls hm
          { hawaits with handled := rfl, written := rfl }
  · exact absurd rfl (hfails data)

/-- Within a body, a read brings the rest of it. -/
private theorem position_of_within {e : Event} {done rest : List Message} {m : Message}
    {handler : HandlerPtr} {first second : Text} (hsplit : messages = done ++ m :: rest)
    (hbody : first ++ second = m.body) (hwire : c.wire = second ++ wireOf rest)
    (hcalls : CallsOf w c.session.handled done) (hm : Served w m handler)
    (hawaits : Awaits c.session c.session m handler first) (hfails : ∀ data, e ≠ .failed data)
    (hstep : c.Step w e d) : Position w messages d := by
  obtain ⟨henabled, hdelivers, hdata⟩ := hstep
  rcases henabled.of_read hawaits.pending with ⟨data, rfl, hlength⟩ | ⟨data, rfl⟩
  · have hsecond : second = data ∧ wireOf rest = d.wire := by
      apply List.append_inj (hwire.symm.trans hdata)
      change second.length = data.length
      rw [hlength, ← hbody, List.length_append]
      omega
    obtain ⟨t, hdeliver, hanswers⟩ := bodyRead_rest hm hawaits hbody
    rw [hsecond.1] at hdeliver
    obtain rfl : t = d.session := Except.ok.inj (hdeliver.symm.trans hdelivers)
    exact .writing (done ++ [m]) rest (by rw [hsplit, List.append_cons]) hsecond.2.symm
      (callsOf_answers hcalls hm hanswers) hanswers.pending hanswers.connected
  · exact absurd rfl (hfails data)

/-- After the write of a response, the session is between two requests. -/
private theorem position_of_writing {e : Event} {done rest : List Message}
    (hsplit : messages = done ++ rest) (hwire : c.wire = wireOf rest)
    (hcalls : CallsOf w c.session.handled done) (hpending : c.session.pending = .write)
    (hconnected : c.session.connected = true) (hfails : ∀ data, e ≠ .failed data)
    (hstep : c.Step w e d) : Position w messages d := by
  obtain ⟨henabled, hdelivers, hdata⟩ := hstep
  rcases henabled.of_write hpending with rfl | ⟨data, rfl⟩
  · obtain ⟨t, hdeliver, hidle, hhandled, -⟩ := written_idle (w := w) hconnected
    obtain rfl : t = d.session := Except.ok.inj (hdeliver.symm.trans hdelivers)
    rw [← hhandled] at hcalls
    exact .between done rest hsplit (hdata.symm.trans hwire) hcalls hidle
  · exact absurd rfl (hfails data)

/-- A step leads from one position to the next. -/
theorem position_step {e : Event} (hserved : ∀ m ∈ messages, ∃ handler, Served w m handler)
    (h : Position w messages c) (htransported : Transported messages c e d)
    (hends : EndsWithin messages c d) (hstep : c.Step w e d) : Position w messages d := by
  cases h with
  | between done rest hsplit hwire hcalls hidle =>
    exact position_of_between hserved hsplit hwire hcalls hidle htransported hends hstep
  | within done rest m handler first second hsplit hbody hwire hcalls hm hawaits =>
    exact position_of_within hsplit hbody hwire hcalls hm hawaits htransported.1 hstep
  | writing done rest hsplit hwire hcalls hpending hconnected =>
    exact position_of_writing hsplit hwire hcalls hpending hconnected htransported.1 hstep

/-- In every run in which every read that begins where a request begins ends within it, the
handlers are called for the requests in order, each once and with its own body. -/
theorem pipelining_inOrder (w : World B) (messages : List Message)
    (hserved : ∀ m ∈ messages, ∃ handler, Served w m handler) {s : Session B}
    (hstart : Session.start {} = .ok s) {c : Connection B}
    (hrun : Connection.Reaches w
      (fun d e f => Transported messages d e f ∧ EndsWithin messages d f)
      ⟨s, wireOf messages⟩ c) :
    InOrder w messages c := by
  apply inOrder_of_position
  apply hrun.induct
  · obtain rfl : { pending := .readSome } = s := Except.ok.inj hstart
    exact .between [] messages rfl rfl .nil ⟨rfl, rfl, rfl, rfl, rfl, rfl⟩
  · intro d e f hd hP hstep
    exact position_step hserved hd hP.1 hP.2 hstep

/-- Once everything is read, no header is split. -/
private theorem headerWhole_of_nil (h : c.wire = []) : HeaderWhole messages c := by
  intro before m after hsplit hinside
  have htotal := congrArg (fun ms => (wireOf ms).length) hsplit
  simp only [wireOf_append, wireOf_cons, Message.render, List.length_append] at htotal
  simp only [delivered, h, List.length_nil] at hinside
  omega

/-- One of two requests is the first or the second. -/
private theorem split_two {first second m : Message} {before after : List Message}
    (h : [first, second] = before ++ m :: after) :
    before = [] ∧ m = first ∨ before = [first] ∧ m = second := by
  cases before with
  | nil => exact .inl ⟨rfl, (List.cons.inj h).1.symm⟩
  | cons n before =>
    obtain ⟨rfl, hrest⟩ := List.cons.inj h
    cases before with
    | nil => exact .inr ⟨rfl, (List.cons.inj hrest).1.symm⟩
    | cons o before => simp at hrest

/-- With so many bytes read of two requests, no header is split. -/
private theorem headerWhole_two {first second : Message} {s : Session B} {wire : Text}
    (hfirst : (wireOf [first, second]).length - wire.length = 0 ∨
      first.head.render.length ≤ (wireOf [first, second]).length - wire.length)
    (hsecond : (wireOf [first, second]).length - wire.length ≤ first.render.length ∨
      first.render.length + second.head.render.length ≤
        (wireOf [first, second]).length - wire.length) :
    HeaderWhole [first, second] ⟨s, wire⟩ := by
  rintro before m after hsplit hinside
  unfold delivered at hinside
  obtain ⟨rfl, rfl⟩ | ⟨rfl, rfl⟩ := split_two hsplit
  · simp only [wireOf, List.flatMap_nil, List.length_nil] at hinside hfirst
    omega
  · simp only [wireOf, List.flatMap_cons, List.flatMap_nil, List.append_nil] at hinside hsecond
    omega

/-- From so many bytes read of two requests to so many, a read ends within its request. -/
private theorem endsWithin_two {first second : Message} {s t : Session B} {wire rest : Text}
    (hfirst : (wireOf [first, second]).length - wire.length = 0 →
      (wireOf [first, second]).length - rest.length ≤ first.render.length) :
    EndsWithin [first, second] ⟨s, wire⟩ ⟨t, rest⟩ := by
  intro before m after hsplit hstart
  unfold delivered at hstart ⊢
  obtain ⟨rfl, rfl⟩ | ⟨rfl, rfl⟩ := split_two hsplit
  · simp only [wireOf, List.flatMap_nil, List.length_nil] at hstart hfirst ⊢
    omega
  · simp only [wireOf, List.flatMap_cons, List.flatMap_nil, List.append_nil,
      List.length_append] at hstart ⊢
    omega

/-- Two requests are sent back to back. The body of the first is read in two parts, and the second
is on the wire until the response to the first is written. -/
theorem pipelining_inOrder_two : ∃ (s : Session Beast.lists) (c : Connection Beast.lists),
    Session.start {} = .ok s ∧
      Connection.Reaches echoWorld (fun d e f =>
        Transported [postMessage, getMessage] d e f ∧ EndsWithin [postMessage, getMessage] d f)
          ⟨s, wireOf [postMessage, getMessage]⟩ c ∧
      c.session.handled.map (fun call => call.2.body) = [text "hello", []] ∧
        InOrder echoWorld [postMessage, getMessage] c := by
  let start : Session Beast.lists := { pending := .readSome }
  have hreads : ∃ t u v x : Session Beast.lists,
      start.deliver echoWorld (.headerRead (postMessage.head.render ++ text "he")) = .ok t ∧
      t.deliver echoWorld (.bodyRead (text "llo")) = .ok u ∧ u.deliver echoWorld .written = .ok v ∧
      v.deliver echoWorld (.headerRead getMessage.render) = .ok x ∧ t.pending = .read 3 ∧
      u.pending = .write ∧ v.pending = .readSome ∧
      x.handled.map (fun call => call.2.body) = [text "hello", []] :=
    ⟨_, _, _, _, rfl, rfl, rfl, rfl, rfl, rfl, rfl, rfl⟩
  obtain ⟨t, u, v, x, hheader, hbody, hwritten, hnext, ht, hu, hv, hx⟩ := hreads
  have hserved : ∀ m ∈ [postMessage, getMessage], ∃ handler, Served echoWorld m handler :=
    List.forall_mem_cons.mpr ⟨⟨1, served_postMessage⟩,
      List.forall_mem_singleton.mpr ⟨1, served_getMessage⟩⟩
  have hheaderStep : Connection.Step echoWorld ⟨start, wireOf [postMessage, getMessage]⟩
      (.headerRead (postMessage.head.render ++ text "he"))
        ⟨t, text "llo" ++ getMessage.render⟩ :=
    ⟨⟨rfl, by decide, by decide⟩, hheader, rfl⟩
  have hbodyStep : Connection.Step echoWorld ⟨t, text "llo" ++ getMessage.render⟩
      (.bodyRead (text "llo")) ⟨u, getMessage.render⟩ := ⟨ht, hbody, rfl⟩
  have hwriteStep : Connection.Step echoWorld ⟨u, getMessage.render⟩ .written
      ⟨v, getMessage.render⟩ := ⟨hu, hwritten, rfl⟩
  have hnextStep : Connection.Step echoWorld ⟨v, getMessage.render⟩ (.headerRead getMessage.render)
      ⟨x, []⟩ := ⟨⟨hv, by decide, by decide⟩, hnext, (List.append_nil _).symm⟩
  have hwhole : HeaderWhole [postMessage, getMessage] ⟨u, getMessage.render⟩ :=
    headerWhole_two (by decide) (by decide)
  have hrun : Connection.Reaches echoWorld (fun d e f =>
      Transported [postMessage, getMessage] d e f ∧ EndsWithin [postMessage, getMessage] d f)
        ⟨start, wireOf [postMessage, getMessage]⟩ ⟨x, []⟩ := by
    have hheaderGood : ∀ first data, Event.headerRead first ≠ .failed data := nofun
    have hbodyGood : ∀ data, Event.bodyRead (text "llo") ≠ .failed data := nofun
    have hwriteGood : ∀ data, Event.written ≠ .failed data := nofun
    refine .step (.step (.step (.step .refl ⟨⟨hheaderGood _, ?_⟩, ?_⟩ hheaderStep)
      ⟨⟨hbodyGood, ?_⟩, ?_⟩ hbodyStep) ⟨⟨hwriteGood, ?_⟩, ?_⟩ hwriteStep)
      ⟨⟨hheaderGood _, headerWhole_of_nil rfl⟩, ?_⟩ hnextStep
    · exact headerWhole_two (by decide) (by decide)
    · exact endsWithin_two (by decide)
    · exact headerWhole_two (by decide) (by decide)
    · exact endsWithin_two (by decide)
    · exact headerWhole_two (by decide) (by decide)
    · exact endsWithin_two (by decide)
    · exact endsWithin_two (by decide)
  exact ⟨start, ⟨x, []⟩, rfl, hrun, hx, pipelining_inOrder echoWorld _ hserved rfl hrun⟩

/-- Of two requests in one read, the second one is lost. -/
theorem pipelining_not_inOrder : ∃ (s : Session Beast.lists) (c : Connection Beast.lists),
    Session.start {} = .ok s ∧
      Connection.Reaches echoWorld (Transported [getMessage, getMessage])
        ⟨s, wireOf [getMessage, getMessage]⟩ c ∧
      ¬ InOrder echoWorld [getMessage, getMessage] c := by
  let start : Session Beast.lists := { pending := .readSome }
  have hread : ∃ t, start.deliver echoWorld (.headerRead (wireOf [getMessage, getMessage])) = .ok t ∧
      t.connected = true ∧ t.pending = .write ∧ t.handled.length = 1 := ⟨_, rfl, rfl, rfl, rfl⟩
  obtain ⟨t, hdeliver, hconnected, hpending, hhandled⟩ := hread
  obtain ⟨u, hdeliver', hidle, hhandled', -⟩ := written_idle (w := echoWorld) hconnected
  have hfirst : Connection.Step echoWorld ⟨start, wireOf [getMessage, getMessage]⟩
      (.headerRead (wireOf [getMessage, getMessage])) ⟨t, []⟩ :=
    ⟨⟨rfl, by decide, by decide⟩, hdeliver, by rw [Event.bytes, List.append_nil]⟩
  have hsecond : Connection.Step echoWorld ⟨t, []⟩ .written ⟨u, []⟩ := ⟨hpending, hdeliver', rfl⟩
  refine ⟨start, ⟨u, []⟩, rfl, .step (.step .refl ⟨?_, headerWhole_of_nil rfl⟩ hfirst)
    ⟨?_, headerWhole_of_nil rfl⟩ hsecond, ?_⟩
  · intro data h
    cases h
  · intro data h
    cases h
  · intro horder
    have hcomplete := horder.complete hidle.pending rfl
    rw [hhandled', hhandled] at hcomplete
    cases hcomplete

end Aite
