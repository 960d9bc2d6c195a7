import Aite.Session.Session
import Aite.Numerals
import Mathlib.Data.List.TakeWhile

/-!
# The exchange of one request

A well-formed request declares the length of its body or has none. The header reaches the
session whole in one read, with some first part of the body behind it. The steps of the
session up to the write of the response are described here one by one, from a session that
waits for a new header back to such a session.
-/

namespace Aite

open Http Routing

variable {B : Beast}

/-- A request with its body. -/
structure Message where
  head : RequestHead
  body : Text

/-- The bytes of a request. -/
def Message.render (m : Message) : Text := m.head.render ++ m.body

/-- The value is a decimal numeral of `n`. -/
def IsDecimal (value : Text) (n : ℕ) : Prop :=
  value ≠ [] ∧ (∀ c ∈ value, IsDigit c) ∧ digitsValue value = n

/-- The name of the field that declares the length of the body. -/
def isContentLength (line : HeaderLine) : Bool := iequals line.name (text "Content-Length")

/-- There is no body and no declared length, or the length of the body is declared once. -/
def Message.DeclaresLength (m : Message) : Prop :=
  (m.body = [] ∧ m.head.headers.filter isContentLength = []) ∨
    ∃ line, m.head.headers.filter isContentLength = [line] ∧
      IsDecimal (trim line.parsed.value) m.body.length

/-- What a handler should get: the parts of this request alone. -/
def Message.request (B : Beast) (m : Message) : Request B where
  method := B.stringToVerb m.head.method
  target := m.head.target
  version := (10 * digitsValue m.head.major + digitsValue m.head.minor).toUInt32
  fields := m.head.fields B.empty
  body := m.body

/-- A request as its client should send it. -/
structure Message.WellFormed (B : Beast) (m : Message) : Prop where
  verb : B.stringToVerb m.head.method ≠ none
  major : m.head.major.length = 1
  minor : m.head.minor.length = 1
  declares : m.DeclaresLength
  small : m.body.length < 2 ^ 31

/-- A value of digits is read as the number it denotes. -/
theorem stoi_decimal {value : Text} {n : ℕ} (h : IsDecimal value n) (hn : n < 2 ^ 31) :
    stoi value = some (n : ℤ) := by
  obtain ⟨hne, hdigits, rfl⟩ := h
  have hread := signedDigits_append (.inl ⟨rfl, rfl⟩) (⟨hdigits, by simp⟩ : IsLeadingDigits value [])
    hne
  rw [List.append_nil, List.nil_append] at hread
  have hfits : -2 ^ 31 ≤ signedValue (false, value) ∧ signedValue (false, value) < 2 ^ 31 := by
    change -2 ^ 31 ≤ (digitsValue value : ℤ) ∧ (digitsValue value : ℤ) < 2 ^ 31
    omega
  rw [stoi_eq, hread, if_neg hne, if_pos hfits]
  rfl

/-- The value of a field is that of the last header line of its name. -/
theorem get_contentLength (start : B.Fields) (lines : List HeaderLine) :
    B.get (lines.foldl (fun fields line => B.set fields line.parsed.name line.parsed.value) start)
        (text "Content-Length") =
      match (lines.filter isContentLength).getLast? with
      | none => B.get start (text "Content-Length")
      | some line => trim line.parsed.value := by
  induction lines generalizing start with
  | nil => rfl
  | cons line lines ih =>
    rw [List.foldl_cons, ih, List.filter_cons, B.get_set]
    cases hline : isContentLength line with
    | true =>
      have hname : iequals line.parsed.name (text "Content-Length") = true := hline
      rw [if_pos hname, if_pos rfl, List.getLast?_cons]
      cases (lines.filter isContentLength).getLast? <;> rfl
    | false =>
      have hname : ¬ iequals line.parsed.name (text "Content-Length") = true := by
        simpa [isContentLength, HeaderLine.parsed] using hline
      rw [if_neg hname, if_neg (by simp)]

/-- The declared length is the length of the body. -/
theorem contentLength_of_declares {m : Message} (h : m.DeclaresLength)
    (hsmall : m.body.length < 2 ^ 31) :
    contentLength (m.head.fields B.empty) = m.body.length := by
  unfold contentLength RequestHead.fields
  rw [get_contentLength]
  cases h with
  | inl hnone =>
    obtain ⟨hbody, hlines⟩ := hnone
    simp [hlines, hbody, B.get_empty]
  | inr hone =>
    obtain ⟨line, hlines, hdecimal⟩ := hone
    simp [hlines, stoi_decimal hdecimal hsmall, hdecimal.1]

/-- Single-digit version numbers do not wrap around. -/
private theorem version_of_digits {major minor : Text} (hmajor : major.length = 1)
    (hminor : minor.length = 1) (hmajor' : ∀ c ∈ major, IsDigit c)
    (hminor' : ∀ c ∈ minor, IsDigit c) :
    (versionNumber major * 10 + versionNumber minor).toUInt32 =
      (10 * digitsValue major + digitsValue minor).toUInt32 := by
  obtain ⟨d, rfl⟩ := List.length_eq_one_iff.mp hmajor
  obtain ⟨e, rfl⟩ := List.length_eq_one_iff.mp hminor
  have hd := mem_digits_of_isDigit (hmajor' d (by simp))
  have he := mem_digits_of_isDigit (hminor' e (by simp))
  have hall : ∀ d ∈ text "0123456789", ∀ e ∈ text "0123456789",
      (versionNumber [d] * 10 + versionNumber [e]).toUInt32 =
        (10 * digitsValue [d] + digitsValue [e]).toUInt32 := by
    decide
  exact hall d hd e he

/-- A well-formed request is parsed into the request that its handler should get, less its body,
whatever the caller's request was before, as long as it has no fields and no body. -/
theorem parse_message {m : Message} (h : m.WellFormed B) {req : Request B}
    (hfields : req.fields = B.empty) (hbody : req.body = []) (rest : Text) :
    parse .methodStart req (m.head.render ++ rest) =
      .ok ⟨.true, m.head.render.length, .expectingNewline3,
        { m.request B with body := [] }⟩ := by
  cases hverb : B.stringToVerb m.head.method with
  | none => exact absurd hverb h.verb
  | some verb =>
    rw [parse_render m.head rest req hverb, hfields, version_of_digits h.major h.minor
      m.head.major_digit m.head.minor_digit]
    simp only [Message.request, hverb, hbody]

/-- Waiting for the header of a new request. -/
structure Session.Idle (s : Session B) : Prop where
  pending : s.pending = .readSome
  connected : s.connected = true
  parserState : s.parserState = .methodStart
  fields : s.request.fields = B.empty
  body : s.request.body = []
  bodyData : s.bodyData = []

/-- A handler is registered for the target and answers the request. -/
structure Served (w : World B) (m : Message) (handler : HandlerPtr) : Prop where
  wellFormed : m.WellFormed B
  routed : w.server.getRequestHandler m.head.target = .ok (some handler)
  returns : ∀ call, ∃ response, w.handleRequest call handler (m.request B) = .ok response

/-- The handler was called with the request, and the write of its answer was started. -/
structure Answers (w : World B) (s t : Session B) (handler : HandlerPtr) (request : Request B) :
    Prop where
  pending : t.pending = .write
  connected : t.connected = true
  handled : t.handled = s.handled ++ [(handler, request)]
  written : ∃ response, w.handleRequest s.handled.length handler request = .ok response ∧
    t.written = s.written ++ [response]

/-- The first part of the body was read with the header. -/
structure Awaits (s t : Session B) (m : Message) (handler : HandlerPtr) (first : Text) :
    Prop where
  pending : t.pending = .read (m.body.length - first.length)
  connected : t.connected = true
  requestHandler : t.requestHandler = some (some handler)
  request : t.request = { m.request B with body := first }
  bodyData : t.bodyData = []
  handled : t.handled = s.handled
  written : t.written = s.written

variable {w : World B} {s t : Session B} {m : Message} {handler : HandlerPtr}

/-- The address of a peer that is there. -/
theorem logAddress_of_connected (h : s.connected = true) : s.logAddress = .ok () := if_pos h

/-- A peer that is gone has no address. -/
theorem logAddress_of_not_connected (h : s.connected = false) :
    s.logAddress = .error (.thrown .systemError) := if_neg (by simp [h])

/-- A write that returns was started and reported. -/
theorem exists_of_write (h : s.write w = .ok t) :
    ∃ metrics, t = Session.logRequest (Session.startWrite { s with metrics := metrics }) := by
  obtain ⟨u, hmetric, h⟩ := run_bind_eq_ok.mp h
  obtain ⟨-, -, h⟩ := run_bind_eq_ok.mp h
  obtain ⟨-, -, hmetric⟩ := run_bind_eq_ok.mp hmetric
  cases hhandler : s.requestHandler with
  | none =>
    rw [hhandler] at hmetric
    cases hmetric
  | some ptr =>
    rw [hhandler, Except.ok.injEq] at hmetric
    exact ⟨_, by rw [← Except.ok.inj h, ← hmetric]⟩

/-- Reading on only waits for the next bytes. -/
theorem eq_of_readHeader (h : s.readHeader = .ok t) : t = { s with pending := .readSome } := by
  obtain ⟨-, -, h⟩ := run_bind_eq_ok.mp h
  exact (Except.ok.inj h).symm

/-- A failed operation is not followed by another one. -/
theorem eq_of_failed {data : Text} (h : s.deliver w (.failed data) = .ok t) :
    t = { s with pending := .none, bodyData := s.bodyData ++ data } := by
  obtain ⟨-, -, h⟩ := run_bind_eq_ok.mp h
  exact (Except.ok.inj h).symm

/-- After a write the members that belong to one request are reset, but for its target and its
handler. -/
theorem eq_of_written (h : s.deliver w .written = .ok t) :
    t = { s with
      pending := .readSome
      parserState := .methodStart
      request := { s.request with fields := B.empty, body := [] }
      bodyData := [] } := by
  obtain ⟨-, -, h⟩ := run_bind_eq_ok.mp h
  exact eq_of_readHeader h

/-- With a peer and a handler, a write is started and reported. -/
theorem write_ok {ptr : Option HandlerPtr} (hconnected : s.connected = true)
    (hhandler : s.requestHandler = some ptr) :
    ∃ t, s.write w = .ok t ∧ t.pending = .write ∧ t.connected = true ∧ t.handled = s.handled ∧
      t.written = s.written ++ [s.response] := by
  simp only [Session.write, Session.logSessionMetric, Session.logAddress, hconnected, hhandler,
    if_true, bind, Except.bind]
  exact ⟨_, rfl, rfl, rfl, rfl, rfl⟩

/-- A handler that returns is answered with its response. -/
theorem callHandler_ok {response : Response B}
    (h : w.handleRequest s.handled.length handler s.request = .ok response) :
    s.callHandler w handler = .ok { s with
      response := response, handled := s.handled ++ [(handler, s.request)] } := by
  simp only [Session.callHandler, h]

/-- An exception of a handler leaves the callback. -/
theorem callHandler_error {thrown : Exn}
    (h : w.handleRequest s.handled.length handler s.request = .error thrown) :
    s.callHandler w handler = .error (.thrown thrown) := by
  simp only [Session.callHandler, h]

/-- A handler that returns is called, and the write of its response is started. -/
private theorem answers_of_returns (hconnected : t.connected = true)
    (hhandler : t.requestHandler = some (some handler)) (hhandled : t.handled = s.handled)
    (hwritten : t.written = s.written)
    (hreturns : ∃ response, w.handleRequest s.handled.length handler t.request = .ok response) :
    ∃ called u, t.callHandler w handler = .ok called ∧ called.connected = true ∧
      called.write w = .ok u ∧ Answers w s u handler t.request := by
  obtain ⟨response, hresponse⟩ := hreturns
  have hcall := callHandler_ok (s := t) (by rw [hhandled]; exact hresponse)
  obtain ⟨u, hu, hpending, hconn, hhandled', hwritten'⟩ := write_ok (w := w)
    (s := { t with response := response, handled := t.handled ++ [(handler, t.request)] })
    hconnected hhandler
  refine ⟨_, u, hcall, hconnected, hu, hpending, hconn, ?_, response, hresponse, ?_⟩
  · rw [hhandled', hhandled]
  · rw [hwritten', hwritten]

/-- The session once it has parsed a request and found its handler. -/
private def parsedSession (s : Session B) (m : Message) (handler : HandlerPtr) : Session B :=
  { s with
    pending := .none
    parserState := .expectingNewline3
    request := { m.request B with body := [] }
    requestHandler := some (some handler) }

/-- A write logs the address first, so logging it before makes no difference. -/
theorem logAddress_write (s : Session B) :
    (do s.logAddress; s.write w) = s.write w := by
  simp only [Session.write, Session.logSessionMetric, Session.logAddress]
  cases s.connected <;> rfl

/-- What happens to a header, by the length of its body and how much of it was read. -/
private theorem deliver_header (hs : s.Idle) (hm : Served w m handler) (extra : Text) :
    s.deliver w (.headerRead (m.head.render ++ extra)) =
      if m.body = [] then do
        let t ← (parsedSession s m handler).callHandler w handler
        t.write w
      else if m.body.length ≤ extra.length then do
        let t ← ((parsedSession s m handler).appendBody (extra.take m.body.length)).callHandler w
          handler
        t.write w
      else .ok { (parsedSession s m handler).appendBody extra with
        pending := .read (m.body.length - extra.length) } := by
  have hparse := parse_message hm.wellFormed hs.fields hs.body extra
  have hlength : contentLength (B := B) (m.request B).fields = m.body.length :=
    contentLength_of_declares hm.wellFormed.declares hm.wellFormed.small
  have hrouted : w.server.getRequestHandler (m.request B).target = .ok (some handler) := hm.routed
  have hpositive : ¬ ((m.body.length : ℤ) < 0) := by omega
  have hzero : ((m.body.length : ℤ) = 0) = (m.body = []) := by
    rw [Nat.cast_eq_zero, List.length_eq_zero_iff]
  simp (disch := exact hs.connected) only [Session.deliver, Session.handleReadHeader,
    Session.readBody, Session.appendBody, hs.parserState, hparse, run_ok_bind, hlength, hrouted,
    logAddress_write, reduceCtorEq, hpositive, or_self, if_false, if_true, hzero,
    logAddress_of_connected, List.drop_left, List.length_append, Nat.add_sub_cancel_left,
    Nat.cast_le, Int.toNat_natCast]
  rfl

/-- A request that arrives whole is answered. -/
theorem headerRead_whole (hs : s.Idle) (hm : Served w m handler) :
    ∃ t, s.deliver w (.headerRead m.render) = .ok t ∧ Answers w s t handler (m.request B) := by
  have hbody : (parsedSession s m handler).appendBody m.body =
      { parsedSession s m handler with request := m.request B } := by
    simp only [Session.appendBody, parsedSession, List.nil_append]
    rfl
  obtain ⟨called, u, hcall, -, hwrite, hanswers⟩ :=
    answers_of_returns (s := s) (t := { parsedSession s m handler with request := m.request B })
      hs.connected rfl rfl rfl (hm.returns _)
  refine ⟨u, ?_, hanswers⟩
  rw [Message.render, deliver_header hs hm]
  by_cases hempty : m.body = []
  · have hparsed : parsedSession s m handler =
        { parsedSession s m handler with request := m.request B } := by
      simp [parsedSession, Message.request, hempty]
    rw [if_pos hempty, hparsed, hcall, run_ok_bind, hwrite]
  · rw [if_neg hempty, if_pos (le_refl _), List.take_length, hbody, hcall, run_ok_bind, hwrite]

/-- A request of which only a first part of the body arrives waits for exactly the rest. -/
theorem headerRead_part (hs : s.Idle) (hm : Served w m handler) {first : Text}
    (hfirst : first.length < m.body.length) :
    ∃ t, s.deliver w (.headerRead (m.head.render ++ first)) = .ok t ∧
      Awaits s t m handler first := by
  have hne : m.body ≠ [] := by
    intro hempty
    rw [hempty] at hfirst
    simp at hfirst
  rw [deliver_header hs hm, if_neg hne, if_neg (by omega)]
  exact ⟨_, rfl, rfl, hs.connected, rfl, rfl, hs.bodyData, rfl, rfl⟩

/-- The session once it has read a body. -/
private def bodySession (s : Session B) (rest : Text) (handler : HandlerPtr) (request : Request B) :
    Session B :=
  { s with
    pending := .none
    bodyData := rest
    request := request
    requestHandler := some (some handler) }

/-- When the rest of the body arrives, the request is answered. -/
theorem bodyRead_rest (hm : Served w m handler) {first rest : Text}
    (ht : Awaits s t m handler first) (hbody : first ++ rest = m.body) :
    ∃ u, t.deliver w (.bodyRead rest) = .ok u ∧ Answers w s u handler (m.request B) := by
  have happend : Session.appendBody { t with pending := .none, bodyData := t.bodyData ++ rest }
      (t.bodyData ++ rest) = bodySession t rest handler (m.request B) := by
    simp only [Session.appendBody, bodySession, ht.request, ht.bodyData, ht.requestHandler,
      List.nil_append, hbody]
    rfl
  obtain ⟨called, u, hcall, -, hwrite, hanswers⟩ :=
    answers_of_returns (t := bodySession t rest handler (m.request B)) ht.connected rfl ht.handled
      ht.written (hm.returns _)
  refine ⟨u, ?_, hanswers⟩
  simp only [Session.deliver, Session.handleReadBody, happend]
  change (do let s ← Session.callHandler w (bodySession t rest handler (m.request B)) handler
             s.write w) = _
  rw [hcall, run_ok_bind, hwrite]

/-- After a response was written, the session waits for a new header. -/
theorem written_idle (hconnected : s.connected = true) :
    ∃ t, s.deliver w .written = .ok t ∧ t.Idle ∧ t.handled = s.handled ∧ t.written = s.written := by
  simp only [Session.deliver, Session.handleWrite, Session.readHeader, Session.logAddress,
    hconnected, if_true, run_ok_bind]
  exact ⟨_, rfl, ⟨rfl, rfl, rfl, rfl, rfl, rfl⟩, rfl, rfl⟩

end Aite
