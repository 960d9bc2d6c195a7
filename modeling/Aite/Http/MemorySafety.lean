import Aite.Http.ChunkedParse

/-!
# Memory safety of a single call of the parser

In a single call from the initial state every state of the parser finds in the request under
construction what it uses: behind the slash the version numbers, behind the first byte a method,
inside a header line a header, and every header that was begun has a name. This is kept by every
byte, so that no step is undefined and an accepted request is complete.
-/

namespace Aite.Http

/-- What a single call knows about the request built so far, names of headers included. -/
structure Complete (state : State) (req : ParserRequest) : Prop extends Built state req where
  names : ∀ h ∈ req.headers, h.name ≠ []

/-- The bytes take the parser from one state to another without a verdict. -/
inductive Consumes : State → ParserRequest → Text → State → ParserRequest → Prop
  | nil (state : State) (req : ParserRequest) : Consumes state req [] state req
  | cons {state next last : State} {req reqNext reqLast : ParserRequest} {c : UInt8} {rest : Text} :
      consume state req c = .ok (.indeterminate, next, reqNext) →
      Consumes next reqNext rest last reqLast → Consumes state req (c :: rest) last reqLast

variable {state next : State} {req reqNext : ParserRequest} {c : UInt8} {s : Control}
  {buffer : Text} {B : Beast}

/-- Before the first byte there is no header. -/
theorem complete_start : Complete .methodStart {} := ⟨built_start, nofun⟩

/-- A change of the last header that does not shorten names keeps all of them. -/
private theorem names_withBack {f : Header → Header} (h : ∀ h ∈ req.headers, h.name ≠ [])
    (hf : ∀ back, back.name ≠ [] → (f back).name ≠ []) :
    ∀ h ∈ (req.withBack f).headers, h.name ≠ [] := by
  intro header hmem
  cases List.mem_append.mp hmem with
  | inl hmem => exact h header (List.mem_of_mem_dropLast hmem)
  | inr hmem =>
    rw [Option.mem_toList] at hmem
    obtain ⟨back, hback, rfl⟩ := Option.mem_map.mp hmem
    exact hf back (h back (List.mem_of_getLast? hback))

/-- Every undecided step keeps the names of the headers and begins a header with its first
byte. -/
private theorem names_grow (h : ∀ h ∈ req.headers, h.name ≠ []) :
    ∀ h ∈ (grow state req c).headers, h.name ≠ [] := by
  cases state with
  | headerLineStart =>
    simp only [grow]
    split_ifs
    · exact h
    · intro header hmem
      cases List.mem_append.mp hmem with
      | inl hmem => exact h header hmem
      | inr hmem =>
        rw [List.mem_singleton] at hmem
        rw [hmem]
        exact List.cons_ne_nil _ _
  | headerName =>
    simp only [grow]
    split_ifs
    · exact h
    · exact names_withBack h fun back _ => List.append_ne_nil_of_right_ne_nil _ (List.cons_ne_nil _ _)
  | headerLws =>
    simp only [grow]
    split_ifs
    · exact h
    · exact names_withBack h fun back hback => hback
  | headerValue =>
    simp only [grow]
    split_ifs
    · exact h
    · exact names_withBack h fun back hback => hback
  | method | uri | httpVersionMajor | httpVersionMinor =>
    simp only [grow]
    split_ifs <;> exact h
  | _ => exact h

/-- Every undecided step keeps what is known about the request. -/
theorem complete_grow (h : Complete state req)
    (hstep : control (state, req.hasHeader) c = .next s) : Complete s.1 (grow state req c) :=
  ⟨built_grow h.toBuilt hstep, names_grow h.names⟩

/-- A step is defined. An undecided step keeps what is known about the request, and only the state
that expects the last newline accepts. -/
theorem Complete.consume (h : Complete state req) (c : UInt8) :
    ∃ verdict next reqNext, consume state req c = .ok (verdict, next, reqNext) ∧
      (verdict = .indeterminate → Complete next reqNext) ∧
      (verdict = .true → Complete .expectingNewline3 reqNext) := by
  rw [consume_of_ready h.ready c]
  cases hstep : control (state, req.hasHeader) c with
  | accept =>
    have hstate : state = .expectingNewline3 := control_accept hstep
    subst hstate
    exact ⟨.true, .expectingNewline3, req, rfl, Tribool.noConfusion, fun _ => h⟩
  | refuse => exact ⟨.false, state, req, rfl, Tribool.noConfusion, Tribool.noConfusion⟩
  | next s =>
    exact ⟨.indeterminate, s.1, grow state req c, rfl, fun _ => complete_grow h hstep,
      Tribool.noConfusion⟩

/-- What is known about the request holds behind any number of bytes. -/
theorem Complete.consumes (h : Complete state req) (hrun : Consumes state req buffer next reqNext) :
    Complete next reqNext := by
  induction hrun with
  | nil => exact h
  | cons hstep hrest ih =>
    obtain ⟨verdict, next', reqNext', hconsume, hkept, -⟩ := h.consume _
    cases hconsume.symm.trans hstep
    exact ih (hkept rfl)

/-- The loop of `parse` is defined, and the request that it accepts is complete. -/
theorem parseLoop_complete (h : Complete state req) (buffer : Text) :
    ∃ p, parseLoop state req buffer = .ok p ∧
      (p.verdict = .true → Complete .expectingNewline3 p.parsed) := by
  induction buffer generalizing state req with
  | nil => exact ⟨_, rfl, Tribool.noConfusion⟩
  | cons c rest ih =>
    obtain ⟨verdict, next, reqNext, hconsume, hkept, haccepted⟩ := h.consume c
    rw [parseLoop, hconsume]
    cases verdict with
    | true => exact ⟨_, rfl, haccepted⟩
    | false => exact ⟨_, rfl, Tribool.noConfusion⟩
    | indeterminate =>
      obtain ⟨p, hloop, haccept⟩ := ih (hkept rfl)
      exact ⟨p.advance, by simp only [hloop]; rfl, haccept⟩

/-- In a call from the initial state, whatever the buffer: every byte finds what its state uses in
the request, so that `consume` is defined; the loop ends with a verdict, and behind a positive one
`translate` finds both version numbers, a method and a name in every header; and the call as a
whole never runs into undefined behaviour. -/
theorem parse_memorySafe (req : Request B) (buffer : Text) :
    (∀ before state parsed c, Consumes .methodStart {} before state parsed →
      Complete state parsed ∧ ∃ result, consume state parsed c = .ok result) ∧
    (∃ p, parseLoop .methodStart {} buffer = .ok p ∧
      (p.verdict = .true → p.parsed.httpVersionMajor.isSome = true ∧
        p.parsed.httpVersionMinor.isSome = true ∧ p.parsed.method ≠ [] ∧
        ∀ h ∈ p.parsed.headers, h.name ≠ [])) ∧
    ∀ f, parse .methodStart req buffer ≠ .error (.fault f) := by
  refine ⟨fun before state parsed c hrun => ?_, ?_, parse_start_defined req buffer⟩
  · have hcomplete := complete_start.consumes hrun
    obtain ⟨verdict, next, reqNext, hconsume, -⟩ := hcomplete.consume c
    exact ⟨hcomplete, _, hconsume⟩
  · obtain ⟨p, hloop, haccept⟩ := parseLoop_complete complete_start buffer
    refine ⟨p, hloop, fun hverdict => ?_⟩
    have hcomplete := haccept hverdict
    have hversion := hcomplete.version rfl
    rw [ParserRequest.hasVersion, Bool.and_eq_true] at hversion
    exact ⟨hversion.1, hversion.2, hcomplete.method State.noConfusion, hcomplete.names⟩

end Aite.Http
