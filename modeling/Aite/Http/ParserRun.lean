import Aite.Http.RequestGrammar

/-!
# The parser follows its control

As long as the request under construction has what the current state needs, one step of the
parser is one step of the control together with an update of the request that cannot fail.
From the initial state this is always so. The loop of `parse` then gives the verdict of the
control, after the same number of bytes.
-/

namespace Aite.Http

open StopMachine

/-- The states in which the current header is changed. -/
def needsHeader : State → Bool
  | .headerLws | .headerName | .spaceBeforeHeaderValue | .headerValue | .expectingNewline2 => true
  | _ => false

/-- The states in which a version number is changed. -/
def needsVersion : State → Bool
  | .httpVersionMajorStart | .httpVersionMajor | .httpVersionMinorStart | .httpVersionMinor => true
  | _ => false

/-- Whether the request under construction has a header. -/
def ParserRequest.hasHeader (req : ParserRequest) : Bool := !req.headers.isEmpty

/-- Whether both version numbers have a value. -/
def ParserRequest.hasVersion (req : ParserRequest) : Bool :=
  req.httpVersionMajor.isSome && req.httpVersionMinor.isSome

/-- The request has everything the state uses. -/
structure Ready (state : State) (req : ParserRequest) : Prop where
  header : needsHeader state = true → req.hasHeader = true
  version : needsVersion state = true → req.hasVersion = true

/-- `number * 10 + input - '0'`, leaving a number without value as it is. -/
def digitAppended (number : Option Int32) (input : UInt8) : Option Int32 :=
  number.map fun n => n * 10 + input.toInt8.toInt32 - '0'.toUInt8.toInt8.toInt32

/-- Apply a change to the last header, if there is one. -/
def ParserRequest.withBack (req : ParserRequest) (f : Header → Header) : ParserRequest :=
  { req with headers := req.headers.dropLast ++ (req.headers.getLast?.map f).toList }

/-- The update of the request that comes with an undecided step. -/
def grow (state : State) (req : ParserRequest) (c : UInt8) : ParserRequest :=
  match state with
  | .methodStart => { req with method := req.method ++ [c] }
  | .method => if c = ' '.toUInt8 then req else { req with method := req.method ++ [c] }
  | .uri => if c = ' '.toUInt8 then req else { req with uri := req.uri ++ [c] }
  | .httpVersionSlash => { req with httpVersionMajor := some 0, httpVersionMinor := some 0 }
  | .httpVersionMajorStart =>
    { req with httpVersionMajor := digitAppended req.httpVersionMajor c }
  | .httpVersionMajor =>
    if c = '.'.toUInt8 then req
    else { req with httpVersionMajor := digitAppended req.httpVersionMajor c }
  | .httpVersionMinorStart =>
    { req with httpVersionMinor := digitAppended req.httpVersionMinor c }
  | .httpVersionMinor =>
    if c = '\r'.toUInt8 then req
    else { req with httpVersionMinor := digitAppended req.httpVersionMinor c }
  | .headerLineStart =>
    if c = '\r'.toUInt8 ∨ req.hasHeader ∧ (c = ' '.toUInt8 ∨ c = '\t'.toUInt8) then req
    else { req with headers := req.headers ++ [⟨[c], []⟩] }
  | .headerLws =>
    if c = '\r'.toUInt8 ∨ c = ' '.toUInt8 ∨ c = '\t'.toUInt8 then req
    else req.withBack fun back => { back with value := back.value ++ [c] }
  | .headerName =>
    if c = ':'.toUInt8 then req
    else req.withBack fun back => { back with name := back.name ++ [c] }
  | .headerValue =>
    if c = '\r'.toUInt8 then req
    else req.withBack fun back => { back with value := back.value ++ [c] }
  | _ => req

/-- What a step of the control tells about the result of `consume`. -/
def stepResult (state : State) (req : ParserRequest) (c : UInt8) :
    Step Control → Tribool × State × ParserRequest
  | .accept => (.true, state, req)
  | .refuse => (.false, state, req)
  | .next s => (.indeterminate, s.1, grow state req c)

/-- `headers.back()` exists when there is a header. -/
private theorem modifyBack_of_hasHeader {req : ParserRequest} (h : req.hasHeader = true)
    (f : Header → Header) : req.modifyBack f = .ok (req.withBack f) := by
  cases hlast : req.headers.getLast? with
  | none =>
    rw [List.getLast?_eq_none_iff] at hlast
    simp [ParserRequest.hasHeader, hlast] at h
  | some back => simp [ParserRequest.modifyBack, ParserRequest.withBack, hlast]

/-- A version number that has a value can take another digit. -/
private theorem appendDigit_of_isSome {number : Option Int32} (h : number.isSome = true)
    (c : UInt8) : appendDigit number c = .ok (digitAppended number c) := by
  obtain ⟨n, rfl⟩ := Option.isSome_iff_exists.mp h
  rfl

/-- A header that was just appended is the last one. -/
private theorem pushName_append (req : ParserRequest) (c : UInt8) :
    ParserRequest.pushName { req with headers := req.headers ++ [⟨[], []⟩] } c =
      .ok { req with headers := req.headers ++ [⟨[c], []⟩] } := by
  simp [ParserRequest.pushName, ParserRequest.modifyBack]

/-- One step of a parser that has what its state needs is one step of the control. -/
theorem consume_of_ready {state : State} {req : ParserRequest} (h : Ready state req) (c : UInt8) :
    consume state req c = .ok (stepResult state req c (control (state, req.hasHeader) c)) := by
  cases state
  case httpVersionMajorStart | httpVersionMajor | httpVersionMinorStart | httpVersionMinor =>
    have hversion := h.version rfl
    simp only [ParserRequest.hasVersion, Bool.and_eq_true] at hversion
    simp only [consume, control]
    split_ifs <;>
      simp_all [stepResult, grow, appendDigit_of_isSome, bind, Except.bind]
  case headerLws | headerName | headerValue =>
    have hheader := h.header rfl
    simp only [consume, control, ParserRequest.pushName, ParserRequest.pushValue,
      modifyBack_of_hasHeader hheader]
    split_ifs <;> simp_all [stepResult, grow, bind, Except.bind]
  case headerLineStart =>
    simp only [consume, control, pushName_append]
    split_ifs <;> simp_all [stepResult, grow, bind, Except.bind, ParserRequest.hasHeader]
  all_goals
    simp only [consume, control]
    split_ifs <;> simp_all [stepResult, grow]

@[simp] theorem headers_withBack (req : ParserRequest) (f : Header → Header) :
    (req.withBack f).headers = [] ↔ req.headers = [] := by
  cases hheaders : req.headers using List.reverseRecOn with
  | nil => simp [ParserRequest.withBack, hheaders]
  | append_singleton rest back => simp [ParserRequest.withBack, hheaders]

@[simp] theorem isSome_digitAppended (number : Option Int32) (c : UInt8) :
    (digitAppended number c).isSome = number.isSome := by
  cases number <;> rfl

@[simp] theorem hasHeader_iff (req : ParserRequest) :
    req.hasHeader = true ↔ req.headers ≠ [] := by
  simp [ParserRequest.hasHeader]

@[simp] theorem hasHeader_eq_false_iff (req : ParserRequest) :
    req.hasHeader = false ↔ req.headers = [] := by
  simp [ParserRequest.hasHeader]

/-- Changing the last header leaves the rest of the request as it is. -/
@[simp] theorem withBack_method (req : ParserRequest) (f : Header → Header) :
    (req.withBack f).method = req.method := rfl

@[simp] theorem withBack_major (req : ParserRequest) (f : Header → Header) :
    (req.withBack f).httpVersionMajor = req.httpVersionMajor := rfl

@[simp] theorem withBack_minor (req : ParserRequest) (f : Header → Header) :
    (req.withBack f).httpVersionMinor = req.httpVersionMinor := rfl

/-- An undecided step leaves a request with everything the next state uses. -/
theorem ready_grow {state : State} {req : ParserRequest} (h : Ready state req) {c : UInt8}
    {s : Control} (hstep : control (state, req.hasHeader) c = .next s) :
    Ready s.1 (grow state req c) ∧ (grow state req c).hasHeader = s.2 := by
  obtain ⟨hheader, hversion⟩ := h
  rw [Bool.eq_iff_iff]
  cases state <;> simp only [control] at hstep <;> split_ifs at hstep <;> cases hstep <;>
    refine ⟨⟨?_, ?_⟩, ?_⟩ <;>
    simp_all [needsHeader, needsVersion, grow, ParserRequest.hasVersion]
  -- the first byte of a header name: in both readings of the guard there is a header now
  all_goals split_ifs <;> simp_all

/-- The method token at the start of a buffer. -/
def methodOf (buffer : Text) : Text := buffer.takeWhile (· ≠ ' '.toUInt8)

/-- What a buffer still adds to the method in a given state. -/
def methodRead : State → Text → Text
  | .methodStart, buffer => methodOf buffer
  | .method, buffer => methodOf buffer
  | _, _ => []

/-- A byte of a token is not a space. -/
theorem ne_space_of_token {c : UInt8} (h : ¬ notToken c = true) : c ≠ ' '.toUInt8 := by
  rintro rfl
  exact h (by decide)

/-- An undecided step moves a byte from the buffer's part of the method to the request's. -/
private theorem methodRead_cons {state : State} {h : Bool} {req : ParserRequest} {c : UInt8}
    {s : Control} (hstep : control (state, h) c = .next s) (rest : Text) :
    (grow state req c).method ++ methodRead s.1 rest =
      req.method ++ methodRead state (c :: rest) := by
  cases state
  case methodStart =>
    simp only [control] at hstep
    split_ifs at hstep with htoken
    cases hstep
    simp [methodRead, methodOf, grow, ne_space_of_token htoken]
  case method =>
    simp only [control] at hstep
    split_ifs at hstep with hc htoken <;> cases hstep <;> simp [methodRead, methodOf, grow, hc]
  all_goals
    simp only [control] at hstep
    split_ifs at hstep <;> cases hstep <;> simp only [methodRead, grow] <;> split_ifs <;> simp

/-- After an undecided step, the method loses at most the byte just read. -/
private theorem methodRead_tail {state : State} {h : Bool} {c : UInt8} {s : Control}
    (hstep : control (state, h) c = .next s) (rest : Text) :
    methodRead s.1 rest = (methodRead state (c :: rest)).drop 1 := by
  cases state
  case methodStart =>
    simp only [control] at hstep
    split_ifs at hstep with htoken
    cases hstep
    simp [methodRead, methodOf, ne_space_of_token htoken]
  case method =>
    simp only [control] at hstep
    split_ifs at hstep with hc <;> cases hstep <;> simp [methodRead, methodOf, hc]
  all_goals
    simp only [control] at hstep
    split_ifs at hstep <;> cases hstep <;> rfl

/-- After an undecided run, the method loses at most the bytes just read. -/
theorem methodRead_of_pending {c s : Control} {before : Text}
    (h : run control c before = .pending s) (rest : Text) :
    methodRead s.1 rest = (methodRead c.1 (before ++ rest)).drop before.length := by
  induction before generalizing c with
  | nil =>
    obtain rfl : c = s := by simpa [run] using h
    rfl
  | cons a before ih =>
    obtain ⟨state, b⟩ := c
    simp only [run] at h
    cases hstep : control (state, b) a with
    | accept => simp [hstep] at h
    | refuse => simp [hstep] at h
    | next t =>
      rw [ih (by simpa [hstep] using h), methodRead_tail hstep, List.drop_drop, List.length_cons,
        Nat.add_comm, List.cons_append]

/-- The result of the parse loop agrees with the outcome of a run of the control over a buffer,
and the request left behind satisfies a given relation to the state. An accepted request has the
method token of the buffer behind the method it began with. -/
def Agrees (P : Control → ParserRequest → Prop) (state : State) (req : ParserRequest)
    (buffer : Text) : Outcome Control UInt8 → Run Parsed → Prop
  | .accepted rest, r => ∃ n h parsed, n + rest.length = buffer.length ∧
      parsed.method = req.method ++ methodRead state buffer ∧
      r = .ok ⟨.true, n, .expectingNewline3, parsed⟩ ∧ P (.expectingNewline3, h) parsed
  | .refused rest, r =>
      ∃ n s parsed, n + rest.length = buffer.length ∧ r = .ok ⟨.false, n, s, parsed⟩
  | .pending s, r => ∃ parsed, r = .ok ⟨.indeterminate, buffer.length, s.1, parsed⟩ ∧ P s parsed

variable {P : Control → ParserRequest → Prop}

/-- Reading one more byte first keeps the agreement. -/
theorem Agrees.cons {state : State} {h : Bool} {req : ParserRequest} {buffer : Text} {c : UInt8}
    {s : Control} {outcome : Outcome Control UInt8} {r : Run Parsed}
    (hstep : control (state, h) c = .next s)
    (hrest : Agrees P s.1 (grow state req c) buffer outcome r) :
    Agrees P state req (c :: buffer) outcome (r.map Parsed.advance) := by
  cases outcome with
  | accepted rest =>
    obtain ⟨n, b, parsed, hn, hmethod, rfl, hP⟩ := hrest
    rw [methodRead_cons hstep] at hmethod
    exact ⟨n + 1, b, parsed, by simp only [List.length_cons]; omega, hmethod, rfl, hP⟩
  | refused rest =>
    obtain ⟨n, s, parsed, hn, rfl⟩ := hrest
    exact ⟨n + 1, s, parsed, by simp only [List.length_cons]; omega, rfl⟩
  | pending s =>
    obtain ⟨parsed, rfl, hP⟩ := hrest
    exact ⟨parsed, rfl, hP⟩

/-- Less may be known about the request left behind. -/
theorem Agrees.mono {Q : Control → ParserRequest → Prop} {state : State} {req : ParserRequest}
    {buffer : Text} {outcome : Outcome Control UInt8} {r : Run Parsed}
    (hPQ : ∀ s parsed, P s parsed → Q s parsed) (h : Agrees P state req buffer outcome r) :
    Agrees Q state req buffer outcome r := by
  cases outcome with
  | accepted rest =>
    obtain ⟨n, b, parsed, hn, hmethod, hr, hP⟩ := h
    exact ⟨n, b, parsed, hn, hmethod, hr, hPQ _ _ hP⟩
  | refused rest => exact h
  | pending s =>
    obtain ⟨parsed, hr, hP⟩ := h
    exact ⟨parsed, hr, hPQ _ _ hP⟩

/-- The only accepting state is the one that expects the last newline. -/
theorem control_accept {s : Control} {c : UInt8} (h : control s c = .accept) :
    s.1 = .expectingNewline3 := by
  obtain ⟨state, b⟩ := s
  cases state <;> simp only [control] at h <;> split_ifs at h
  rfl

/-- The parse loop agrees with the control when its first step does and the rest of the loop
agrees with the rest of the run. -/
theorem agrees_of_step {s : Control} {req : ParserRequest} {c : UInt8} {rest : Text}
    (hP : P s req) (hconsume : consume s.1 req c = .ok (stepResult s.1 req c (control s c)))
    (hrest : ∀ s', control s c = .next s' →
      Agrees P s'.1 (grow s.1 req c) rest (run control s' rest)
        (parseLoop s'.1 (grow s.1 req c) rest)) :
    Agrees P s.1 req (c :: rest) (run control s (c :: rest)) (parseLoop s.1 req (c :: rest)) := by
  obtain ⟨state, h⟩ := s
  dsimp only at hconsume hrest ⊢
  simp only [run, parseLoop, hconsume]
  cases hstep : control (state, h) c with
  | accept =>
    have hstate : state = .expectingNewline3 := control_accept hstep
    subst hstate
    exact ⟨1, h, req, by simp only [List.length_cons]; omega, by simp [methodRead], rfl, hP⟩
  | refuse => exact ⟨1, state, req, by simp only [List.length_cons]; omega, rfl⟩
  | next s' => exact (hrest s' hstep).cons hstep

/-- The parse loop follows the control, and keeps every relation between state and request that
undecided steps keep. -/
theorem parseLoop_agrees (hready : ∀ s req, P s req → Ready s.1 req ∧ req.hasHeader = s.2)
    (hgrow : ∀ state req c s, P (state, req.hasHeader) req →
      control (state, req.hasHeader) c = .next s → P s (grow state req c))
    (buffer : Text) (s : Control) (req : ParserRequest) (h : P s req) :
    Agrees P s.1 req buffer (run control s buffer) (parseLoop s.1 req buffer) := by
  induction buffer generalizing s req with
  | nil => exact ⟨req, rfl, h⟩
  | cons c rest ih =>
    obtain ⟨hr, hflag⟩ := hready s req h
    obtain ⟨state, b⟩ := s
    dsimp only at hr hflag
    subst hflag
    apply agrees_of_step h (consume_of_ready hr c)
    intro s' hstep
    exact ih s' _ (hgrow _ _ _ _ h hstep)

/-- A parser that has what its state needs gives the verdict of the control. -/
theorem parseLoop_of_ready {state : State} {req : ParserRequest} (h : Ready state req)
    (buffer : Text) :
    Agrees (fun s req => Ready s.1 req ∧ req.hasHeader = s.2) state req buffer
      (run control (state, req.hasHeader) buffer) (parseLoop state req buffer) := by
  apply parseLoop_agrees (s := (state, req.hasHeader))
  · exact fun s req hP => hP
  · exact fun state req c s hP hstep => ready_grow hP.1 hstep
  · exact ⟨h, rfl⟩

/-- The states behind the slash of the version. -/
def afterSlash : State → Bool
  | .methodStart | .method | .uri | .httpVersionH | .httpVersionT1 | .httpVersionT2
  | .httpVersionP | .httpVersionSlash => false
  | _ => true

/-- What a single call knows about the request built so far. -/
structure Built (state : State) (req : ParserRequest) : Prop where
  method : state ≠ .methodStart → req.method ≠ []
  version : afterSlash state = true → req.hasVersion = true
  header : needsHeader state = true → req.hasHeader = true
  early : afterSlash state = false → req.hasHeader = false

/-- A request built in a single call has everything its state uses. -/
theorem Built.ready {state : State} {req : ParserRequest} (h : Built state req) :
    Ready state req := by
  refine ⟨h.header, fun hneeds => h.version ?_⟩
  cases state <;> first | rfl | cases hneeds

/-- Before the first byte nothing has to be known. -/
theorem built_start : Built .methodStart {} := by
  constructor <;> simp [afterSlash, needsHeader, ParserRequest.hasHeader]

/-- Undecided steps keep what is known about the request. -/
theorem built_grow {state : State} {req : ParserRequest} (h : Built state req) {c : UInt8}
    {s : Control} (hstep : control (state, req.hasHeader) c = .next s) :
    Built s.1 (grow state req c) := by
  obtain ⟨hmethod, hversion, hheader, hearly⟩ := h
  cases state <;> simp only [control] at hstep <;> split_ifs at hstep <;> cases hstep <;>
    refine ⟨?_, ?_, ?_, ?_⟩ <;>
    simp_all [needsHeader, afterSlash, grow, ParserRequest.hasVersion]
  all_goals split_ifs <;> simp_all

/-- A single call of the parse loop gives the verdict of the control. -/
theorem parseLoop_start (buffer : Text) :
    Agrees (fun s req => Built s.1 req ∧ req.hasHeader = s.2) .methodStart {} buffer
      (run control (.methodStart, false) buffer) (parseLoop .methodStart {} buffer) := by
  apply parseLoop_agrees (s := (.methodStart, false))
  · exact fun s req hP => ⟨hP.1.ready, hP.2⟩
  · exact fun state req c s hP hstep =>
      ⟨built_grow hP.1 hstep, (ready_grow hP.1.ready hstep).2⟩
  · exact ⟨built_start, rfl⟩

end Aite.Http
