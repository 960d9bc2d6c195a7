import Aite.Session.DeclaredBodies

/-!
# A proxied request at another server

Two servers of the program are connected by the proxy of the first. What a session of the first
hands to the proxy is read by a session of the second from the bytes that the proxy sends, in one
read or in two, and handed to the handler of the rest of the target with the same body.
-/

namespace Aite

open Handlers Http Routing
open Session

variable {B : Beast}

/-- Bytes that arrive in one read for a header, and in another one for what is left of a body. -/
def readEvents (bytes : Text) (cut : ℕ) : List Event :=
  .headerRead (bytes.take cut) :: if cut < bytes.length then [.bodyRead (bytes.drop cut)] else []

section Accepted

variable {w : World B} {s t : Session B} {data : Text} {r : ParseResult B} {handler : HandlerPtr}

/-- What follows on an accepted header with a handler, by the declared length. -/
private theorem deliver_routed (hs : s.Idle)
    (hparse : parse .methodStart s.request data = .ok r) (haccepted : r.verdict = .true)
    (hrouted : w.server.getRequestHandler r.req.target = .ok (some handler)) {length : ℕ}
    (hlength : contentLength r.req.fields = length) :
    s.deliver w (.headerRead data) =
      let accepted := { s with
        pending := .none, parserState := r.state, request := r.req
        requestHandler := some (some handler) }
      if length ≤ data.length - r.consumed then do
        let called ← (accepted.appendBody ((data.drop r.consumed).take length)).callHandler w handler
        called.write w
      else
        .ok { accepted.appendBody (data.drop r.consumed) with
          pending := .read (length - (data.length - r.consumed)) } := by
  have happend (u : Session B) : u.appendBody [] = u := by
    simp only [Session.appendBody, List.append_nil]
  have hnonneg : ¬ ((length : ℤ) < 0) := by omega
  simp (disch := exact hs.connected) only [Session.deliver, Session.handleReadHeader,
    hs.parserState, hparse, haccepted, hlength, hnonneg, hrouted, run_ok_bind, reduceCtorEq,
    false_or, if_true, if_false, logAddress_of_connected, Nat.cast_eq_zero, Nat.cast_le,
    Int.toNat_natCast, logAddress_write, readBody]
  by_cases hzero : length = 0
  · rw [if_pos hzero, hzero, if_pos (Nat.zero_le _), List.take_zero, happend]
  · rw [if_neg hzero]
    by_cases hwhole : length ≤ data.length - r.consumed
    · rw [if_pos hwhole, if_pos hwhole]
    · rw [if_neg hwhole, if_neg hwhole, logAddress_of_connected (by exact hs.connected)]
      rfl

/-- A handler that returns is called, and its response is written. -/
private theorem handled_of_returns {request : Request B} (hconnected : s.connected = true)
    (hassigned : s.requestHandler = some (some handler)) (hrequest : s.request = request)
    (hreturns : ∃ response, w.handleRequest s.handled.length handler request = .ok response) :
    ∃ t, (do let called ← s.callHandler w handler; called.write w) = .ok t ∧
      t.pending = .write ∧ t.handled = s.handled ++ [(handler, request)] := by
  obtain ⟨response, hresponse⟩ := hreturns
  rw [callHandler_ok (hrequest ▸ hresponse), run_ok_bind]
  obtain ⟨t, hwrite, hpending, -, hhandled, -⟩ := write_ok (w := w)
    (s := { s with response, handled := s.handled ++ [(handler, s.request)] }) hconnected hassigned
  exact ⟨t, hwrite, hpending, hrequest ▸ hhandled⟩

/-- An accepted header with its body behind it, cut in two reads at or behind the end of the
header, is handled with that body. -/
theorem runs_readEvents (hs : s.Idle) {head body : Text} {req : Request B}
    (hparse : ∀ rest, parse .methodStart s.request (head ++ rest) =
      .ok ⟨.true, head.length, .expectingNewline3, req⟩)
    (hrouted : w.server.getRequestHandler req.target = .ok (some handler))
    (hlength : contentLength req.fields = body.length) (hbody : req.body = [])
    (hreturns : ∃ response,
      w.handleRequest s.handled.length handler { req with body } = .ok response)
    {cut : ℕ} (hhead : head.length ≤ cut) (hpositive : head ≠ []) (hcut : cut ≤ maxLength)
    (hend : cut ≤ (head ++ body).length) :
    ∃ t, Session.Runs w s (readEvents (head ++ body) cut) t ∧
      t.pending = .write ∧ t.handled = s.handled ++ [(handler, { req with body })] := by
  obtain ⟨n, rfl⟩ := Nat.exists_eq_add_of_le hhead
  have hn : n ≤ body.length := by
    rw [List.length_append] at hend
    omega
  have htake : (head ++ body).take (head.length + n) = head ++ body.take n :=
    List.take_length_add_append n
  have hdrop : (head ++ body).drop (head.length + n) = body.drop n :=
    List.drop_length_add_append n
  have henabled : s.Enabled (.headerRead (head ++ body.take n)) := by
    refine ⟨hs.pending, fun hnil => hpositive (List.append_eq_nil_iff.mp hnil).1, ?_⟩
    rw [List.length_append, List.length_take]
    omega
  have hdeliver := deliver_routed hs (hparse (body.take n)) rfl hrouted hlength
  simp only [List.length_append, List.length_take, Nat.add_sub_cancel_left, List.drop_left,
    Nat.min_eq_left hn] at hdeliver
  rw [readEvents, htake, hdrop]
  by_cases hwhole : body.length ≤ n
  · obtain rfl : n = body.length := le_antisymm hn hwhole
    rw [List.take_length, if_pos (le_refl _), List.take_length] at hdeliver
    obtain ⟨t, hcalled, hpending, hhandled⟩ := handled_of_returns (w := w)
      (s := Session.appendBody { s with
        pending := .none, parserState := .expectingNewline3, request := req
        requestHandler := some (some handler) } body)
      hs.connected rfl (by simp only [Session.appendBody, hbody, List.nil_append]) hreturns
    rw [if_neg (by rw [List.length_append]; omega), List.take_length]
    rw [List.take_length] at henabled
    exact ⟨t, .cons henabled (hdeliver.trans hcalled) (.nil t), hpending, hhandled⟩
  · rw [if_neg hwhole] at hdeliver
    rw [if_pos (by rw [List.length_append]; omega)]
    obtain ⟨t, hcalled, hpending, hhandled⟩ := handled_of_returns (w := w)
      (s := Session.appendBody { s with
        pending := .none, parserState := .expectingNewline3
        request := { req with body := body.take n }
        requestHandler := some (some handler), bodyData := body.drop n } (body.drop n))
      hs.connected rfl
      (by simp only [Session.appendBody, List.take_append_drop]) hreturns
    refine ⟨t, .cons henabled hdeliver (.cons ?_ ?_ (.nil t)), hpending, hhandled⟩
    · change Pending.read (body.length - n) = .read (body.drop n).length
      rw [List.length_drop]
    · simp only [deliver, handleReadBody, hs.bodyData, List.nil_append, Session.appendBody, hbody]
      exact hcalled

end Accepted

/-- The second server handles what the first one has sent: the same request but for the target, the
host and the encoding, however the bytes arrive that are behind the header. The header itself fits
in one read. -/
structure HandledBehind (proxy : ReverseProxyRequestHandler) (back : World B) (s : Session B)
    (handler : HandlerPtr) (req : Request B) (forwarded written : Text) : Prop where
  handled : ∃ (head : Text) (stored : Request B), written = head ++ req.body ∧
    head.length ≤ maxLength ∧ ForwardedAs proxy req forwarded stored ∧ stored.body = req.body ∧
      ∀ cut, head.length ≤ cut → cut ≤ maxLength → cut ≤ written.length →
        ∃ t, Session.Runs back s (readEvents written cut) t ∧ t.pending = .write ∧
          t.handled = s.handled ++ [(handler, stored)]

/-- Whatever bytes arrive at the first server, a request that it hands to its proxy is sent on such
that an idle session of a second server hands it to the handler of the rest of the target. The
version has one digit in each part, nothing asks for a transfer encoding, the header that is sent
fits in one read, and the handler returns. -/
theorem handledBehind (L : LookupList B) (names : MethodNames B) {write : Request B → Text}
    (hwrite : WritesPlain L.toFieldList names write) (proxy : ReverseProxyRequestHandler)
    (hhost : ∀ c ∈ proxy.host, IsText c) (hport : ∀ c ∈ proxy.port, IsText c) {front back : World B}
    {s t u : Session B} {events : List Event} (hstart : ({} : Session B).start = .ok s)
    (hruns : Session.Runs front s events t) {call : HandlerPtr × Request B}
    (hcall : call ∈ t.handled) (hversion : call.2.version < 100)
    (hplain : ∀ field ∈ L.list call.2.fields, iequals field.1 (text "Transfer-Encoding") = false)
    {forwarded : Text} (hforwarded : proxy.forwardedTarget call.2.target = .ok forwarded)
    (hfits : (write (proxy.proxiedRequest call.2 forwarded)).length ≤
      maxLength + call.2.body.length)
    (hidle : u.Idle) {handler : HandlerPtr}
    (hrouted : back.server.getRequestHandler forwarded = .ok (some handler))
    (hreturns : ∀ req, ∃ response, back.handleRequest u.handled.length handler req = .ok response) :
    HandledBehind proxy back u handler call.2 forwarded
      (write (proxy.proxiedRequest call.2 forwarded)) := by
  have hwhole := (framed_runs (L := L.toFieldList) (framed_start hstart) hruns).handled call hcall
  obtain ⟨head, hwritten, hreads⟩ :=
    hwhole.stored.forwarded_readAs hwrite hhost hport hversion hplain hforwarded
  obtain ⟨stored, hhead, hbody, hparse⟩ := hreads u.request hidle.fields
  have hlength : contentLength stored.fields = call.2.body.length := by
    have hget : B.get stored.fields (text "Content-Length") =
        B.get call.2.fields (text "Content-Length") := hhead.forwardedAs.get _
    rw [hwhole.declared, contentLength, contentLength, hget]
  have hne : head ≠ [] := by
    rintro rfl
    cases hparse []
  have hheadFits : head.length ≤ maxLength := by
    have hlengths := congrArg List.length hwritten
    rw [List.length_append] at hlengths
    change _ = head.length + call.2.body.length at hlengths
    omega
  have hforwardedAs := hhead.forwardedAs
  refine ⟨head, { stored with body := call.2.body }, hwritten, hheadFits,
    ⟨hforwardedAs.method, hforwardedAs.target, hforwardedAs.version, hforwardedAs.get⟩, rfl, ?_⟩
  intro cut hhead' hcut hend
  rw [hwritten] at hend ⊢
  refine runs_readEvents hidle hparse ?_ hlength (hbody.trans hidle.body) (hreturns _) hhead' hne
    hcut hend
  rw [hforwardedAs.target]
  exact hrouted

/-- A request below the location of the proxy. -/
theorem handledBehind_get :
    HandledBehind proxyHandler echoWorld { pending := .readSome } 1
      ⟨some (text "GET"), text "/proxy/a", 11, [], []⟩ (text "/a")
      (text "GET /a HTTP/1.1\r\nHost: localhost:8080\r\nAccept-Encoding: identity\r\n\r\n") := by
  have hruns : ∃ t, Session.Runs echoWorld { pending := .readSome }
      [.headerRead (text "GET /proxy/a HTTP/1.1\r\n\r\n")] t ∧
        t.handled = [(1, ⟨some (text "GET"), text "/proxy/a", 11, [], []⟩)] :=
    ⟨_, .cons ⟨rfl, by decide, by decide⟩ rfl (.nil _), rfl⟩
  obtain ⟨t, hruns, hhandled⟩ := hruns
  have hwrite : WritesPlain FieldList.lists MethodNames.lists
      (serialize FieldList.lists MethodNames.lists) := fun _ _ _ => rfl
  have hcall : ((1, ⟨some (text "GET"), text "/proxy/a", 11, [], []⟩) :
      HandlerPtr × Request Beast.lists) ∈ t.handled := by
    rw [hhandled]
    exact List.mem_singleton.mpr rfl
  exact handledBehind LookupList.lists MethodNames.lists hwrite proxyHandler
    (by simp only [IsText]; decide) (by simp only [IsText]; decide) rfl hruns hcall (by decide)
    (fun _ h => absurd h List.not_mem_nil) rfl (by decide) ⟨rfl, rfl, rfl, rfl, rfl, rfl⟩ (by decide)
    (fun _ => ⟨_, rfl⟩)

end Aite
