import Aite.Handlers.WrittenRequest
import Aite.Session.Callbacks
import Aite.Session.KeepAlive

/-!
# Bodies have the declared length

However the bytes of a connection arrive, a handler is called with as many bytes of body as the
header declares, and with a header in the form in which it would be written again. So a request
that a proxy sends on, to another server of the program, is handled there with the same body.
-/

namespace Aite

open Handlers Http Routing
open Session

variable {B : Beast}

/-- A handler was called with a request that came whole: it is stored as it would be written, it
has the body that it declares, and the handler is that of its target. -/
structure IsWhole (L : FieldList B) (w : World B) (call : HandlerPtr × Request B) : Prop where
  stored : IsStored L call.2
  declared : (call.2.body.length : ℤ) = contentLength call.2.fields
  routed : w.server.getRequestHandler call.2.target = .ok (some call.1)

/-- A session waits for the rest of a body, whose length and that of what was read with the header
add up to the declared length. -/
structure Session.AwaitsBody (L : FieldList B) (w : World B) (s : Session B) (length : ℕ) :
    Prop where
  stored : IsStored L s.request
  declared : (s.request.body.length + length : ℤ) = contentLength s.request.fields
  routed : ∃ handler, s.requestHandler = some (some handler) ∧
    w.server.getRequestHandler s.request.target = .ok (some handler)
  bodyData : s.bodyData = []

/-- What holds between the callbacks of a session: only whole requests were handled, and nothing is
left of the last request when a header is read. -/
structure Session.Framed (L : FieldList B) (w : World B) (s : Session B) : Prop where
  handled : ∀ call ∈ s.handled, IsWhole L w call
  header : s.pending = .readSome →
    s.request.fields = B.empty ∧ s.request.body = [] ∧ s.bodyData = []
  body : ∀ length, s.pending = .read length → s.AwaitsBody L w length

variable {L : FieldList B} {w : World B} {s t : Session B} {e : Event}

/-- A session that has started waits for a header. -/
theorem framed_start (h : ({} : Session B).start = .ok s) : s.Framed L w := by
  obtain ⟨-, -, h⟩ := run_bind_eq_ok.mp h
  obtain rfl := eq_of_readHeader h
  exact ⟨fun _ hcall => absurd hcall List.not_mem_nil, fun _ => ⟨rfl, rfl, rfl⟩, nofun⟩

/-- Whatever the body, a header is stored as it would be written. -/
private theorem isStored_body {req : Request B} (h : IsStored L req) (body : Text) :
    IsStored L { req with body } :=
  ⟨h.method, h.target, h.fields, h.distinct⟩

/-- A session that writes has only to have handled whole requests. -/
private theorem framed_answering {metrics : List Metric}
    (h : ∀ call ∈ s.handled, IsWhole L w call) : (s.answering metrics).Framed L w :=
  ⟨h, nofun, nofun⟩

/-- One more whole request. -/
private theorem handled_append {calls : List (HandlerPtr × Request B)}
    {last : HandlerPtr × Request B} (h : ∀ call ∈ calls, IsWhole L w call)
    (hlast : IsWhole L w last) : ∀ call ∈ calls ++ [last], IsWhole L w call :=
  List.forall_mem_append.mpr ⟨h, List.forall_mem_singleton.mpr hlast⟩

/-- The parser does not touch the body. -/
private theorem body_of_parse {state : State} {req : Request B} {data : Text} {r : ParseResult B}
    (h : parse state req data = .ok r) : r.req.body = req.body := by
  obtain ⟨p, -, h⟩ := run_bind_eq_ok.mp h
  by_cases hverdict : p.verdict = .true
  · rw [if_pos hverdict] at h
    obtain ⟨stored, htranslate, h⟩ := run_bind_eq_ok.mp h
    obtain rfl := Except.ok.inj h
    obtain ⟨verb, version, -, rfl⟩ := eq_of_translate htranslate
    rfl
  · rw [if_neg hverdict] at h
    rw [← Except.ok.inj h]

/-- Every callback keeps this. -/
theorem framed_deliver (h : s.Framed L w) (henabled : s.Enabled e)
    (hdeliver : s.deliver w e = .ok t) : t.Framed L w := by
  cases does_of_deliver hdeliver with
  | waits hparse hverdict _ =>
    obtain ⟨hfields, hbody, hdata⟩ := h.header henabled.1
    obtain ⟨p, -, hsame, -, -, hkept⟩ := parse_eq_ok hparse
    have hreq := hkept (by rw [← hsame, hverdict]; decide)
    refine ⟨h.handled, fun _ => ⟨?_, ?_, hdata⟩, nofun⟩
    · rw [hreq, hfields]
    · rw [hreq, hbody]
  | refuses _ _ => exact framed_answering h.handled
  | calls hparse haccepted hrouted hlength _ _ =>
    obtain ⟨hfields, hbody, -⟩ := h.header henabled.1
    have hstored := isStored_of_accepted L hfields hparse haccepted
    refine framed_answering (handled_append h.handled ⟨isStored_body hstored _, ?_, hrouted⟩)
    rw [body_of_parse hparse, hbody, List.nil_append, hlength]
  | awaits hparse haccepted hrouted hlength =>
    obtain ⟨hfields, hbody, hdata⟩ := h.header henabled.1
    have hstored := isStored_of_accepted L hfields hparse haccepted
    refine ⟨h.handled, nofun, ?_⟩
    intro length hpending
    obtain rfl := Pending.read.inj hpending
    refine ⟨isStored_body hstored _, ?_, ⟨_, rfl, hrouted⟩, hdata⟩
    rw [body_of_parse hparse, hbody, List.nil_append, hlength]
  | completes hhandler _ =>
    obtain ⟨hstored, hlength, ⟨routed, hassigned, hrouted⟩, hdata⟩ := h.body _ henabled
    obtain rfl := Option.some.inj (Option.some.inj (hhandler.symm.trans hassigned))
    refine framed_answering (handled_append h.handled ⟨isStored_body hstored _, ?_, hrouted⟩)
    rw [hdata, List.nil_append, List.length_append, Nat.cast_add, hlength]
  | rejects _ => exact framed_answering h.handled
  | restarts => exact ⟨h.handled, fun _ => ⟨rfl, rfl, rfl⟩, nofun⟩
  | ends => exact ⟨h.handled, nofun, nofun⟩

/-- So does every run. -/
theorem framed_runs {events : List Event} (h : s.Framed L w)
    (hruns : Session.Runs w s events t) : t.Framed L w := by
  induction hruns with
  | nil => exact h
  | cons henabled hdeliver _ ih => exact ih (framed_deliver h henabled hdeliver)

/-- Whatever bytes arrive on a connection, cut in whatever way, every request that a session hands
to a handler came whole: it has as many bytes of body as its fields declare, and the handler is
that of its own target. -/
theorem handled_whole (L : FieldList B) (w : World B) {events : List Event}
    (hstart : ({} : Session B).start = .ok s) (hruns : Session.Runs w s events t) :
    ∀ call ∈ t.handled, IsWhole L w call :=
  (framed_runs (framed_start hstart) hruns).handled

/-- A body that arrives in two parts. -/
theorem handled_whole_two : ∃ t : Session Beast.lists,
    t.handled.map (fun call => call.2.body) = [text "hi"] ∧
      ∀ call ∈ t.handled, IsWhole FieldList.lists echoWorld call := by
  have hruns : ∃ t, Session.Runs echoWorld { pending := .readSome }
      [.headerRead (text "POST / HTTP/1.0\r\nContent-Length: 2\r\n\r\nh"), .bodyRead (text "i")]
        t ∧ t.handled.map (fun call => call.2.body) = [text "hi"] :=
    ⟨_, .cons ⟨rfl, by decide, by decide⟩ rfl (.cons rfl rfl (.nil _)), rfl⟩
  obtain ⟨t, hruns, hbodies⟩ := hruns
  exact ⟨t, hbodies, handled_whole FieldList.lists echoWorld rfl hruns⟩

end Aite
