import Aite.Session.Exchange

/-!
# Keep-alive connections

A client sends one well-formed request after the other, each when the response to the previous
one was written. Wherever the body of a request is cut into the part that arrives with the
header and the rest, the session calls the handler of each request once, with that request and
nothing else, writes its response, and is then ready for the next request.
-/

namespace Aite

open Http Routing
open Session

variable {B : Beast}

/-- A request, and how much of its body arrives with the header. -/
structure Exchange where
  message : Message
  cut : ℕ

/-- The bytes of the first read. -/
def Exchange.first (x : Exchange) : Text := x.message.head.render ++ x.message.body.take x.cut

/-- The completions of one exchange. -/
def Exchange.events (x : Exchange) : List Event :=
  .headerRead x.first ::
    ((if x.message.body.drop x.cut = [] then [] else [.bodyRead (x.message.body.drop x.cut)]) ++
      [.written])

/-- The responses are the answers of the handlers to the calls, in order. -/
def Recorded (w : World B) (s : Session B) : Prop :=
  s.written.map .ok = s.handled.mapIdx fun call handled =>
    w.handleRequest call handled.1 handled.2

variable {w : World B} {s t u : Session B}

/-- Runs one after the other are a run. -/
theorem Session.Runs.append {first second : List Event} (h : Runs w s first t)
    (hsecond : Runs w t second u) : Runs w s (first ++ second) u := by
  induction h with
  | nil => exact hsecond
  | cons henabled hdeliver _ ih => exact .cons henabled hdeliver (ih hsecond)

/-- The events determine where a run ends. -/
theorem Session.Runs.unique {events : List Event} (h : Runs w s events t)
    (h' : Runs w s events u) : u = t := by
  induction h with
  | nil =>
    cases h'
    rfl
  | cons henabled hdeliver _ ih =>
    cases h' with
    | cons henabled' hdeliver' hrest' =>
      rw [hdeliver, Except.ok.injEq] at hdeliver'
      subst hdeliver'
      exact ih hrest'

/-- An answered request is recorded with its response. -/
private theorem recorded_of_answers {handler : HandlerPtr} {request : Request B}
    (hs : Recorded w s) (h : Answers w s t handler request) : Recorded w t := by
  obtain ⟨response, hresponse, hwritten⟩ := h.written
  unfold Recorded at hs ⊢
  rw [hwritten, h.handled, List.map_append, List.mapIdx_concat, hs, hresponse]
  rfl

/-- The header of a request is not empty. -/
private theorem first_ne_nil (x : Exchange) : x.first ≠ [] := by
  intro h
  have hmethod := (List.append_eq_nil_iff.mp (List.append_eq_nil_iff.mp h).1).1
  exact x.message.head.method_ne_nil hmethod

/-- The reads of an exchange lead to the write of the answer. -/
private theorem reads_of_exchange (x : Exchange) {handler : HandlerPtr} (hs : s.Idle)
    (hm : Served w x.message handler) (hfits : x.first.length ≤ maxLength) :
    ∃ t, Runs w s (.headerRead x.first ::
        if x.message.body.drop x.cut = [] then [] else [.bodyRead (x.message.body.drop x.cut)]) t ∧
      Answers w s t handler (x.message.request B) := by
  have henabled : s.Enabled (.headerRead x.first) := ⟨hs.pending, first_ne_nil x, hfits⟩
  by_cases hrest : x.message.body.drop x.cut = []
  · have hfirst : x.first = x.message.render := by
      rw [Exchange.first, Message.render, List.take_of_length_le (List.drop_eq_nil_iff.mp hrest)]
    obtain ⟨t, hdeliver, hanswers⟩ := headerRead_whole hs hm
    rw [if_pos hrest]
    rw [← hfirst] at hdeliver
    exact ⟨t, .cons henabled hdeliver (.nil t), hanswers⟩
  · have hcut : (x.message.body.take x.cut).length < x.message.body.length := by
      rw [List.drop_eq_nil_iff] at hrest
      rw [List.length_take]
      omega
    obtain ⟨t, hdeliver, hawaits⟩ := headerRead_part hs hm hcut
    obtain ⟨u, hdeliver', hanswers⟩ := bodyRead_rest hm hawaits (List.take_append_drop _ _)
    have henabled' : t.Enabled (.bodyRead (x.message.body.drop x.cut)) := by
      change t.pending = _
      rw [hawaits.pending, List.length_drop, List.length_take]
      congr 1
      omega
    rw [if_neg hrest]
    exact ⟨u, .cons henabled hdeliver (.cons henabled' hdeliver' (.nil u)), hanswers⟩

/-- An exchange leads from one session that waits for a header to the next one. -/
theorem exchange_runs (x : Exchange) {handler : HandlerPtr} (hs : s.Idle) (hrecorded : Recorded w s)
    (hm : Served w x.message handler) (hfits : x.first.length ≤ maxLength) :
    ∃ t, Runs w s x.events t ∧ t.Idle ∧ Recorded w t ∧
      t.handled = s.handled ++ [(handler, x.message.request B)] := by
  obtain ⟨t, hruns, hanswers⟩ := reads_of_exchange x hs hm hfits
  obtain ⟨u, hdeliver, hidle, hhandled, hwritten⟩ := written_idle (w := w) hanswers.connected
  refine ⟨u, hruns.append (.cons hanswers.pending hdeliver (.nil u)), hidle, ?_, ?_⟩
  · have hrecorded' := recorded_of_answers hrecorded hanswers
    unfold Recorded at hrecorded' ⊢
    rw [hhandled, hwritten, hrecorded']
  · rw [hhandled, hanswers.handled]

/-- Exchanges lead from one session that waits for a header to the next one. -/
theorem exchanges_run (exchanges : List Exchange) (hs : s.Idle) (hrecorded : Recorded w s)
    (hserved : ∀ x ∈ exchanges, ∃ handler, Served w x.message handler)
    (hfits : ∀ x ∈ exchanges, x.first.length ≤ maxLength) :
    ∃ t calls, Runs w s (exchanges.flatMap Exchange.events) t ∧ Recorded w t ∧
      t.handled = s.handled ++ calls ∧
      List.Forall₂ (fun call x =>
        w.server.getRequestHandler x.message.head.target = .ok (some call.1) ∧
          call.2 = x.message.request B) calls exchanges := by
  induction exchanges generalizing s with
  | nil => exact ⟨s, [], .nil s, hrecorded, by simp, .nil⟩
  | cons x exchanges ih =>
    obtain ⟨handler, hm⟩ := hserved x (by simp)
    obtain ⟨t, hruns, hidle, ht, hhandled⟩ := exchange_runs x hs hrecorded hm (hfits x (by simp))
    obtain ⟨u, calls, hrest, hu, hhandled', hcalls⟩ := ih hidle ht
      (fun y hy => hserved y (by simp [hy])) (fun y hy => hfits y (by simp [hy]))
    refine ⟨u, (handler, x.message.request B) :: calls, ?_, hu, ?_, .cons ⟨hm.routed, rfl⟩ hcalls⟩
    · rw [List.flatMap_cons]
      exact hruns.append hrest
    · rw [hhandled', hhandled, List.append_assoc, List.singleton_append]

/-- On a new session, sequential exchanges of well-formed requests end in one state only: the
handler of each request was called once, in order, with that request alone, and the responses
were written in order. -/
theorem keepAlive_serves (w : World B) (exchanges : List Exchange)
    (hserved : ∀ x ∈ exchanges, ∃ handler, Served w x.message handler)
    (hfits : ∀ x ∈ exchanges, x.first.length ≤ maxLength) :
    ∃ s t : Session B, Session.start {} = .ok s ∧
      (∀ u, Runs w s (exchanges.flatMap Exchange.events) u ↔ u = t) ∧
      List.Forall₂ (fun call x =>
        w.server.getRequestHandler x.message.head.target = .ok (some call.1) ∧
          call.2 = x.message.request B) t.handled exchanges ∧
      t.written.map .ok = t.handled.mapIdx fun call handled =>
        w.handleRequest call handled.1 handled.2 := by
  have hidle : Session.Idle ({ pending := .readSome } : Session B) := ⟨rfl, rfl, rfl, rfl, rfl, rfl⟩
  obtain ⟨t, calls, hruns, hrecorded, hhandled, hcalls⟩ :=
    exchanges_run exchanges hidle (w := w) rfl hserved hfits
  rw [List.nil_append] at hhandled
  refine ⟨{ pending := .readSome }, t, rfl, fun u => ⟨hruns.unique, ?_⟩, ?_, hrecorded⟩
  · rintro rfl
    exact hruns
  · rw [hhandled]
    exact hcalls

/-- A server whose handler at the root location answers with the body of the request. -/
def echoWorld : World Beast.lists where
  server := { locationToHandler := [([], 1)], typeToHandler := [(text "EchoHandler", [1])] }
  handleRequest := fun _ _ request => .ok { body := request.body }

/-- A request with a body of five bytes. -/
def postMessage : Message where
  head :=
    { method := text "POST"
      target := text "/echo"
      major := text "1"
      minor := text "1"
      headers := [⟨text "content-length", text "5", [], by decide,
        by simp only [IsToken]; decide, by simp only [IsText]; decide⟩]
      method_ne_nil := by decide
      method_token := by simp only [IsToken]; decide
      target_text := by simp only [IsTarget, IsText]; decide
      major_ne_nil := by decide
      major_digit := by simp only [IsDigit]; decide
      minor_ne_nil := by decide
      minor_digit := by simp only [IsDigit]; decide }
  body := text "hello"

/-- A request without a body. -/
def getMessage : Message where
  head :=
    { method := text "GET"
      target := text "/"
      major := text "1"
      minor := text "0"
      headers := []
      method_ne_nil := by decide
      method_token := by simp only [IsToken]; decide
      target_text := by simp only [IsTarget, IsText]; decide
      major_ne_nil := by decide
      major_digit := by simp only [IsDigit]; decide
      minor_ne_nil := by decide
      minor_digit := by simp only [IsDigit]; decide }
  body := []

/-- The request with a body is served. -/
theorem served_postMessage : Served echoWorld postMessage 1 where
  wellFormed :=
    { verb := by
        intro h
        cases (show some (text "POST") = none from h)
      major := rfl
      minor := rfl
      declares := by
        right
        refine ⟨_, rfl, by decide, ?_, rfl⟩
        simp only [IsDigit]
        decide
      small := by decide }
  routed := by decide
  returns := fun _ => ⟨_, rfl⟩

/-- The request without a body is served. -/
theorem served_getMessage : Served echoWorld getMessage 1 where
  wellFormed :=
    { verb := by
        intro h
        cases (show some (text "GET") = none from h)
      major := rfl
      minor := rfl
      declares := Or.inl ⟨rfl, rfl⟩
      small := by decide }
  routed := by decide
  returns := fun _ => ⟨_, rfl⟩

/-- A request whose body is cut after two bytes, and another one after it. -/
theorem keepAlive_serves_two : ∃ s t : Session Beast.lists, Session.start {} = .ok s ∧
    Runs echoWorld s ([⟨postMessage, 2⟩, ⟨getMessage, 0⟩].flatMap Exchange.events) t ∧
      t.handled.map (fun call => call.2.body) = [text "hello", []] := by
  obtain ⟨s, t, hstart, hruns, hcalls, -⟩ :=
    keepAlive_serves echoWorld [⟨postMessage, 2⟩, ⟨getMessage, 0⟩]
      (by
        intro x hx
        simp only [List.mem_cons, List.not_mem_nil, or_false] at hx
        rcases hx with rfl | rfl
        · exact ⟨1, served_postMessage⟩
        · exact ⟨1, served_getMessage⟩)
      (by decide)
  refine ⟨s, t, hstart, (hruns t).mpr rfl, ?_⟩
  cases hhandled : t.handled with
  | nil => simp [hhandled] at hcalls
  | cons first rest =>
    simp only [hhandled, List.forall₂_cons_right_iff, List.forall₂_nil_right_iff, List.cons.injEq]
      at hcalls
    obtain ⟨_, _, ⟨-, hfirst⟩, ⟨_, _, ⟨-, hsecond⟩, rfl, hrest⟩, rfl, rfl⟩ := hcalls
    subst hrest
    simp only [List.map_cons, List.map_nil, hfirst, hsecond]
    rfl

end Aite
