import Aite.Http.ParserVerdict

/-!
# Parsing in chunks

The session calls `parse` on one read after another until there is a verdict. Only the state
of the parser survives from call to call. A call in the middle of a header block therefore
starts with a request that has no method, no version and no header. It still follows the
control as long as no step relies on a version number or a header from an earlier call;
from the slash of the version or the first byte of a further header on, it always does.
-/

namespace Aite.Http

open StopMachine

variable {B : Beast}

/-- Call `parse` on one chunk after another with the same request, until the first verdict. -/
def parseChunks : State → Request B → List Text → Run (ParseResult B)
  | state, req, [] => .ok ⟨.indeterminate, 0, state, req⟩
  | state, req, chunk :: rest => do
    let r ← parse state req chunk
    if r.verdict = .indeterminate then
      let later ← parseChunks r.state r.req rest
      .ok { later with consumed := r.consumed + later.consumed }
    else .ok r

/-- A step that uses a version number or a header begun earlier. -/
def relies : Control → UInt8 → Bool
  | (.httpVersionMajorStart, _), c | (.httpVersionMajor, _), c => isDigit (charToInt c)
  | (.httpVersionMinorStart, _), c | (.httpVersionMinor, _), c => isDigit (charToInt c)
  | (.headerLineStart, h), c => h && (c = ' '.toUInt8 || c = '\t'.toUInt8)
  | (.headerLws, _), c =>
    !(c = '\r'.toUInt8 || c = ' '.toUInt8 || c = '\t'.toUInt8 || isCtl (charToInt c))
  | (.headerName, _), c => !(c = ':'.toUInt8 || notToken c)
  | (.headerValue, _), c => !(c = '\r'.toUInt8 || isCtl (charToInt c))
  | _, _ => false

/-- A step that begins version numbers or a header. -/
def renews : Control → UInt8 → Bool
  | (.httpVersionSlash, _), _ => true
  | (.headerLineStart, _), c => c ≠ '\r'.toUInt8
  | _, _ => false

/-- In a chunk that is read from this state on, version numbers and headers are begun before
they are used. -/
def resumes : Control → Text → Bool
  | _, [] => true
  | s, c :: rest =>
    !relies s c &&
      match control s c with
      | .next s' => renews s c || resumes s' rest
      | _ => true

/-- A request without version and headers, as each call starts with. -/
structure Orphan (s : Control) (req : ParserRequest) : Prop where
  header : req.hasHeader = false
  major : req.httpVersionMajor = none
  minor : req.httpVersionMinor = none
  early : afterSlash s.1 = false → s.2 = false

/-- A step that relies on nothing earlier follows the control also from such a request. -/
theorem consume_of_orphan {s : Control} {req : ParserRequest} {c : UInt8} (h : Orphan s req)
    (hrelies : relies s c = false) :
    consume s.1 req c = .ok (stepResult s.1 req c (control s c)) := by
  obtain ⟨state, b⟩ := s
  obtain ⟨hheader, hmajor, hminor, -⟩ := h
  cases state <;> simp only [relies] at hrelies <;> simp only [consume, control] <;>
    split_ifs <;> simp_all [stepResult, grow, ParserRequest.pushName, ParserRequest.modifyBack,
      bind, Except.bind]

/-- A step that relies on something earlier has undefined behaviour, or refuses a byte that the
control takes. -/
theorem consume_of_relies {s : Control} {req : ParserRequest} {c : UInt8} (h : Orphan s req)
    (hrelies : relies s c = true) :
    (∃ f, consume s.1 req c = .error (.fault f)) ∨
      (consume s.1 req c = .ok (.false, s.1, req) ∧ ∃ s', control s c = .next s') := by
  obtain ⟨state, b⟩ := s
  obtain ⟨hheader, hmajor, hminor, -⟩ := h
  rw [hasHeader_eq_false_iff] at hheader
  cases state <;> simp only [relies, Bool.false_eq_true] at hrelies
  case httpVersionMajorStart | httpVersionMinorStart =>
    left
    simp [consume, hrelies, hmajor, hminor, appendDigit, bind, Except.bind]
  case httpVersionMajor | httpVersionMinor =>
    left
    have hdot : c ≠ '.'.toUInt8 ∧ c ≠ '\r'.toUInt8 := by
      constructor <;> rintro rfl <;> revert hrelies <;> decide
    simp [consume, hrelies, hdot, hmajor, hminor, appendDigit, bind, Except.bind]
  case headerLineStart =>
    right
    simp only [Bool.and_eq_true, Bool.or_eq_true, decide_eq_true_eq] at hrelies
    obtain ⟨rfl, rfl | rfl⟩ := hrelies <;> simp only [consume, hheader] <;>
      exact ⟨rfl, _, rfl⟩
  all_goals
    left
    simp_all [consume, ParserRequest.pushName, ParserRequest.pushValue,
      ParserRequest.modifyBack, bind, Except.bind]

/-- A step that begins version numbers or a header gives the request what the next state uses. -/
theorem ready_of_renews {s s' : Control} {req : ParserRequest} {c : UInt8} (h : Orphan s req)
    (hstep : control s c = .next s') (hrelies : relies s c = false) (hrenews : renews s c = true) :
    Ready s'.1 (grow s.1 req c) ∧ (grow s.1 req c).hasHeader = s'.2 := by
  obtain ⟨state, b⟩ := s
  obtain ⟨hheader, -, -, hearly⟩ := h
  rw [hasHeader_eq_false_iff] at hheader
  cases state <;> simp only [renews, Bool.false_eq_true] at hrenews
  case httpVersionSlash =>
    simp only [control] at hstep
    split_ifs at hstep
    cases hstep
    have hb : b = false := hearly rfl
    exact ⟨⟨by simp [needsHeader], by simp [grow, ParserRequest.hasVersion]⟩,
      by simp [grow, hb, hheader]⟩
  case headerLineStart =>
    simp only [control] at hstep
    simp only [relies] at hrelies
    simp only [ne_eq, decide_not, Bool.not_eq_true', decide_eq_false_iff_not] at hrenews
    simp only [hrenews, hrelies, Bool.false_eq_true, if_false] at hstep
    split_ifs at hstep
    cases hstep
    have hgrow : grow .headerLineStart req c = { req with headers := [⟨[c], []⟩] } := by
      simp [grow, hrenews, hheader]
    simp only [hgrow]
    exact ⟨⟨by simp, by simp [needsVersion]⟩, by simp⟩

/-- Any other undecided step leaves a request without version and headers. -/
theorem orphan_grow {s s' : Control} {req : ParserRequest} {c : UInt8} (h : Orphan s req)
    (hstep : control s c = .next s') (hrelies : relies s c = false) (hrenews : renews s c = false) :
    Orphan s' (grow s.1 req c) := by
  obtain ⟨state, b⟩ := s
  obtain ⟨hheader, hmajor, hminor, hearly⟩ := h
  cases state <;> simp only [control] at hstep <;> split_ifs at hstep <;> cases hstep <;>
    refine ⟨?_, ?_, ?_, ?_⟩ <;> simp_all [grow, relies, renews, afterSlash]

/-- A chunk in which nothing earlier is relied on is parsed as the control reads it. -/
theorem parseLoop_of_resumes {s : Control} {req : ParserRequest} {chunk : Text}
    (h : Orphan s req) (hresumes : resumes s chunk = true) :
    Agrees (fun _ _ => True) s.1 req chunk (run control s chunk) (parseLoop s.1 req chunk) := by
  induction chunk generalizing s req with
  | nil => exact ⟨req, rfl, trivial⟩
  | cons c rest ih =>
    simp only [resumes, Bool.and_eq_true, Bool.not_eq_true'] at hresumes
    obtain ⟨hrelies, hrest⟩ := hresumes
    apply agrees_of_step trivial (consume_of_orphan h hrelies)
    intro s' hstep
    cases hrenews : renews s c with
    | true =>
      obtain ⟨hready, hflag⟩ := ready_of_renews h hstep hrelies hrenews
      have hloop := parseLoop_of_ready hready rest
      rw [hflag] at hloop
      exact hloop.mono fun _ _ _ => trivial
    | false =>
      simp only [hstep, hrenews, Bool.false_or] at hrest
      exact ih (orphan_grow h hstep hrelies hrenews) hrest

/-- The loop has undefined behaviour, or refuses a byte that the control takes. -/
def Strays (s : Control) (chunk : Text) (r : Run Parsed) : Prop :=
  (∃ f, r = .error (.fault f)) ∨
    ∃ u rest s' state parsed, chunk = u ++ rest ∧ run control s u = .pending s' ∧
      r = .ok ⟨.false, u.length, state, parsed⟩

/-- A chunk in which something earlier is relied on is not parsed as the control reads it. -/
theorem strays_of_not_resumes {s : Control} {req : ParserRequest} {chunk : Text}
    (h : Orphan s req) (hresumes : resumes s chunk = false) :
    Strays s chunk (parseLoop s.1 req chunk) := by
  induction chunk generalizing s req with
  | nil => cases hresumes
  | cons c rest ih =>
    cases hrelies : relies s c with
    | true =>
      cases consume_of_relies h hrelies with
      | inl hfault =>
        obtain ⟨f, hf⟩ := hfault
        left
        exact ⟨f, by simp only [parseLoop, hf]⟩
      | inr hrefuse =>
        obtain ⟨hfalse, s', hstep⟩ := hrefuse
        right
        refine ⟨[c], rest, s', s.1, req, rfl, by simp [run, hstep], ?_⟩
        simp only [parseLoop, hfalse, List.length_singleton]
    | false =>
      simp only [resumes, hrelies, Bool.not_false, Bool.true_and] at hresumes
      cases hstep : control s c with
      | accept => simp [hstep] at hresumes
      | refuse => simp [hstep] at hresumes
      | next s' =>
        simp only [hstep, Bool.or_eq_false_iff] at hresumes
        have hrest := ih (orphan_grow h hstep hrelies hresumes.1) hresumes.2
        simp only [parseLoop, consume_of_orphan h hrelies, hstep, stepResult]
        cases hrest with
        | inl hfault =>
          obtain ⟨f, hf⟩ := hfault
          left
          exact ⟨f, by rw [hf]; rfl⟩
        | inr hrefuse =>
          obtain ⟨u, v, t, state, parsed, rfl, hrun, hfalse⟩ := hrefuse
          right
          exact ⟨c :: u, v, t, state, parsed, rfl, by simp [run, hstep, hrun], by rw [hfalse]; rfl⟩

/-- The control's header flag is only set behind the slash of the version. -/
theorem early_of_pending {before : Text} {s : Control}
    (h : run control (.methodStart, false) before = .pending s) :
    afterSlash s.1 = false → s.2 = false := by
  have hloop := parseLoop_start before
  rw [h] at hloop
  obtain ⟨parsed, -, hbuilt, hflag⟩ := hloop
  rw [← hflag]
  exact hbuilt.early

/-- A call whose result does not depend on what an earlier call read follows the control. -/
theorem parse_of_resumes {before chunk : Text} {s : Control} (req : Request B)
    (hbefore : run control (.methodStart, false) before = .pending s)
    (hresumes : resumes s chunk = true) :
    Decides (fun parsed => parsed.method = methodRead s.1 chunk) req chunk
      (run control s chunk) (parse s.1 req chunk) := by
  have horphan : Orphan s {} := ⟨rfl, rfl, rfl, early_of_pending hbefore⟩
  apply (decides_of_agrees (parseLoop_of_resumes horphan hresumes) req).mono
  intro parsed h
  exact h.1

/-- The loop stops at its first verdict. -/
theorem parseLoop_append {state : State} {req : ParserRequest} {chunk : Text} {p : Parsed}
    (h : parseLoop state req chunk = .ok p) (hverdict : p.verdict ≠ .indeterminate)
    (rest : Text) : parseLoop state req (chunk ++ rest) = .ok p := by
  induction chunk generalizing state req p with
  | nil =>
    cases h
    exact absurd rfl hverdict
  | cons c chunk ih =>
    rw [List.cons_append]
    simp only [parseLoop] at h ⊢
    split at h
    next => cases h
    next state' req' hstep =>
      cases hloop : parseLoop state' req' chunk with
      | error e => simp [hloop, Except.map] at h
      | ok p' =>
        rw [hloop] at h
        obtain rfl : p'.advance = p := Except.ok.inj h
        rw [ih hloop hverdict]
        rfl
    next => exact h

/-- A buffer that has decided a call still decides it with more behind it. -/
theorem parse_append_of_decided (req : Request B) {chunk : Text}
    (h : ∀ s, run control (.methodStart, false) chunk ≠ .pending s) (rest : Text) :
    parse .methodStart req (chunk ++ rest) = parse .methodStart req chunk := by
  have hloop := parseLoop_start chunk
  cases hrun : run control (.methodStart, false) chunk with
  | accepted r =>
    rw [hrun] at hloop
    obtain ⟨n, b, parsed, -, -, hparse, -⟩ := hloop
    simp only [parse, hparse, parseLoop_append hparse (by simp) rest]
  | refused r =>
    rw [hrun] at hloop
    obtain ⟨n, s, parsed, -, hparse⟩ := hloop
    simp only [parse, hparse, parseLoop_append hparse (by simp) rest]
  | pending s => exact absurd hrun (h s)

/-- What the caller sees of a result: the verdict, the number of consumed bytes behind an
offset, and the method, version, target and fields of an accepted request. -/
def seen (offset : ℕ) (r : ParseResult B) :
    Tribool × ℕ × Option (Option B.Verb × UInt32 × Text × B.Fields) :=
  (r.verdict, r.consumed + offset,
    if r.verdict = .true then some (r.req.method, r.req.version, r.req.target, r.req.fields)
    else none)

/-- A cut between what was read before and a chunk does no harm: the chunk relies on nothing
read before, and when it completes a header block, neither the method name nor the part of it
within the chunk is registered. -/
structure Harmless (B : Beast) (before chunk : Text) : Prop where
  resumes : ∀ s, run control (.methodStart, false) before = .pending s → resumes s chunk = true
  unregistered : ∀ w, w ≠ [] → w <+: chunk → before ++ w ∈ headerBlock →
    B.stringToVerb (methodOf (before ++ w)) = none ∧
      B.stringToVerb ((methodOf (before ++ w)).drop before.length) = none

/-- Every cut behind the first byte does no harm. -/
def CutsHarmless (B : Beast) (before : Text) : List Text → Prop
  | [] => True
  | chunk :: rest =>
    (before ≠ [] → Harmless B before chunk) ∧ CutsHarmless B (before ++ chunk) rest

/-- A decided buffer is not followed by harmful cuts. -/
theorem cutsHarmless_of_decided {before : Text}
    (h : ∀ s, run control (.methodStart, false) before ≠ .pending s) (chunks : List Text) :
    CutsHarmless B before chunks := by
  induction chunks generalizing before with
  | nil => trivial
  | cons chunk rest ih =>
    refine ⟨fun _ => ⟨fun s hs => absurd hs (h s), fun w hw _ hmem => ?_⟩, ih fun s hs => ?_⟩
    · obtain ⟨s, hs⟩ := (pending_iff_headerBlock before).mpr ⟨w, hw, hmem⟩
      exact absurd hs (h s)
    · obtain ⟨t, ht⟩ := pending_of_append hs
      exact absurd ht (h t)

/-- A call on a fresh parser never runs into undefined behaviour. -/
theorem parse_start_defined (req : Request B) (buffer : Text) (f : Fault) :
    parse .methodStart req buffer ≠ .error (.fault f) := by
  have hparse := parse_start req buffer
  cases hrun : run control (.methodStart, false) buffer with
  | accepted rest =>
    rw [hrun] at hparse
    obtain ⟨n, parsed, -, ⟨-, hversion⟩, hr⟩ := hparse
    obtain ⟨hunknown, hknown⟩ := translate_of_hasVersion req hversion
    rw [hr]
    cases hverb : B.stringToVerb parsed.method with
    | none => simp [hunknown hverb, Except.map]
    | some verb =>
      obtain ⟨stored, hstored, -⟩ := hknown verb hverb
      simp [hstored, Except.map]
  | refused rest =>
    rw [hrun] at hparse
    obtain ⟨n, s, -, hr⟩ := hparse
    simp [hr]
  | pending s =>
    rw [hrun] at hparse
    simp [show parse .methodStart req buffer = _ from hparse]

/-- The stored method is the one the library registers under the parsed name. -/
theorem method_of_translate {req stored : Request B} {parsed : ParserRequest}
    (h : translate req parsed = .ok stored) :
    stored.method = B.stringToVerb parsed.method ∧ stored.method ≠ none := by
  unfold translate at h
  cases hverb : B.stringToVerb parsed.method with
  | none => simp [hverb] at h
  | some verb =>
    simp only [hverb] at h
    split at h <;> cases h
    exact ⟨rfl, by simp⟩

/-- A first call that is undecided passes on to the next one. -/
private theorem parseChunks_of_indeterminate {state state' : State} {req req' : Request B}
    {chunk : Text} {n : ℕ} (h : parse state req chunk = .ok ⟨.indeterminate, n, state', req'⟩)
    (rest : List Text) (offset : ℕ) :
    (parseChunks state req (chunk :: rest)).map (seen offset) =
      (parseChunks state' req' rest).map (seen (offset + n)) := by
  simp only [parseChunks, h, bind, Except.bind, if_true]
  cases parseChunks state' req' rest with
  | error e => rfl
  | ok later =>
    simp only [Except.map, seen, Except.ok.injEq, Prod.mk.injEq, and_true, true_and]
    omega

/-- A first call with a verdict is the only one. -/
private theorem parseChunks_of_verdict {state : State} {req : Request B} {chunk : Text}
    (h : ∀ r, parse state req chunk = .ok r → r.verdict ≠ .indeterminate) (rest : List Text) :
    parseChunks state req (chunk :: rest) = parse state req chunk := by
  simp only [parseChunks]
  cases hparse : parse state req chunk with
  | error e => rfl
  | ok r => simp [bind, Except.bind, h r hparse]

/-- Storing an accepted request keeps the verdict. -/
private theorem verdict_of_map {run : Run (Request B)} {r : Run (ParseResult B)} {n : ℕ}
    {s : State} (h : r = run.map fun stored => ⟨.true, n, s, stored⟩) :
    ∀ result, r = .ok result → result.verdict ≠ .indeterminate := by
  intro result hr
  cases run with
  | error e => simp [h, Except.map] at hr
  | ok stored =>
    rw [h] at hr
    cases hr
    simp

/-- A decided call has a verdict or no result. -/
private theorem verdict_of_decided (req : Request B) {chunk : Text}
    (h : ∀ s, run control (.methodStart, false) chunk ≠ .pending s) :
    ∀ r, parse .methodStart req chunk = .ok r → r.verdict ≠ .indeterminate := by
  have hparse := parse_start req chunk
  cases hrun : run control (.methodStart, false) chunk with
  | accepted rest =>
    rw [hrun] at hparse
    obtain ⟨n, parsed, -, -, hr⟩ := hparse
    exact verdict_of_map hr
  | refused rest =>
    rw [hrun] at hparse
    obtain ⟨n, s, -, hr⟩ := hparse
    simp [hr]
  | pending s => exact absurd hrun (h s)

/-- Two maps in a row are one. -/
private theorem map_map {α β γ : Type*} (r : Run α) (f : α → β) (g : β → γ) :
    (r.map f).map g = r.map fun a => g (f a) := by
  cases r <;> rfl

/-- Two accepted requests with different method names are seen alike only if neither name is
registered. -/
private theorem seen_alike_iff {req : Request B} {parsed whole : ParserRequest} {n m k : ℕ}
    {s t : State} (hversion : whole.hasVersion = true) (hmethod : parsed.method ≠ whole.method) :
    ((translate req parsed).map fun stored => seen k ⟨.true, n, s, stored⟩) =
        ((translate req whole).map fun stored => seen 0 ⟨.true, m, t, stored⟩) ↔
      B.stringToVerb whole.method = none ∧ B.stringToVerb parsed.method = none := by
  obtain ⟨hunknown, hknown⟩ := translate_of_hasVersion req hversion
  cases hwhole : B.stringToVerb whole.method with
  | none =>
    rw [hunknown hwhole]
    cases hparsed : B.stringToVerb parsed.method with
    | none => simp [translate, hparsed, Except.map]
    | some verb =>
      simp only [translate, hparsed]
      split <;> simp [Except.map]
  | some verb =>
    obtain ⟨stored, hstored, hverb⟩ := hknown verb hwhole
    simp only [hstored, reduceCtorEq, false_and, iff_false]
    cases hparsed : translate req parsed with
    | error e => simp [Except.map]
    | ok other =>
      have hother := method_of_translate hparsed
      intro heq
      simp only [Except.map, seen, if_true, Except.ok.injEq, Prod.mk.injEq, Option.some.injEq,
        true_and] at heq
      rw [hverb, hother.1] at heq
      exact hmethod (B.stringToVerb_inj _ _ verb heq.2.1 hwhole)

/-- A chunk that relies on what an earlier call read is seen to differ from the whole. -/
private theorem not_alike_of_strays {before chunk : Text} {s : Control} (req : Request B)
    (hbefore : run control (.methodStart, false) before = .pending s)
    (hresumes : resumes s chunk = false) (rest : List Text) :
    (parseChunks s.1 req (chunk :: rest)).map (seen before.length) ≠
      (parse .methodStart req (before ++ (chunk :: rest).flatten)).map (seen 0) := by
  have horphan : Orphan s {} := ⟨rfl, rfl, rfl, early_of_pending hbefore⟩
  intro heq
  cases strays_of_not_resumes horphan hresumes with
  | inl hfault =>
    obtain ⟨f, hf⟩ := hfault
    have hparse : parse s.1 req chunk = .error (.fault f) := by
      simp [parse, hf, bind, Except.bind]
    rw [parseChunks_of_verdict (by simp [hparse]), hparse] at heq
    cases hwhole : parse .methodStart req (before ++ (chunk :: rest).flatten) with
    | error e =>
      simp only [hwhole, Except.map, Except.error.injEq] at heq
      subst heq
      exact parse_start_defined req _ f hwhole
    | ok r =>
      rw [hwhole] at heq
      cases heq
  | inr hrefuse =>
    obtain ⟨u, v, s', state, parsed, rfl, hrun, hfalse⟩ := hrefuse
    have hparse : parse s.1 req (u ++ v) = .ok ⟨.false, u.length, state, req⟩ := by
      simp [parse, hfalse, bind, Except.bind]
    rw [parseChunks_of_verdict (by simp [hparse]), hparse] at heq
    have hwhole := parse_start req (before ++ ((u ++ v) :: rest).flatten)
    have hcontrol : run control (.methodStart, false) (before ++ ((u ++ v) :: rest).flatten) =
        run control s' (v ++ rest.flatten) := by
      rw [List.flatten_cons, List.append_assoc, run_append hbefore, run_append hrun]
    rw [hcontrol] at hwhole
    cases hrest : run control s' (v ++ rest.flatten) with
    | accepted r =>
      rw [hrest] at hwhole
      obtain ⟨n, whole, -, -, hr⟩ := hwhole
      rw [hr] at heq
      cases htranslate : translate req whole <;> simp [htranslate, Except.map, seen] at heq
    | refused r =>
      have hlt := length_lt_of_refused hrest
      rw [hrest] at hwhole
      obtain ⟨n, t, hn, hr⟩ := hwhole
      rw [hr] at heq
      simp only [Except.map, seen, Except.ok.injEq, Prod.mk.injEq] at heq
      simp only [List.flatten_cons, List.length_append] at hn hlt
      omega
    | pending t =>
      rw [hrest] at hwhole
      rw [show parse .methodStart req _ = _ from hwhole] at heq
      simp [Except.map, seen] at heq

/-- A chunk that decides a call is seen to agree with the whole exactly when the cut before it
does no harm. -/
private theorem alike_of_decided {before chunk : Text} {s : Control} (req : Request B)
    (hne : before ≠ []) (hbefore : run control (.methodStart, false) before = .pending s)
    (hresumes : resumes s chunk = true) (hdecided : ∀ s', run control s chunk ≠ .pending s')
    (rest : List Text) :
    (parseChunks s.1 req (chunk :: rest)).map (seen before.length) =
        (parse .methodStart req (before ++ (chunk :: rest).flatten)).map (seen 0) ↔
      Harmless B before chunk := by
  have hchunk := parse_of_resumes req hbefore hresumes
  have hwhole := parse_start req (before ++ (chunk :: rest).flatten)
  rw [List.flatten_cons, run_append hbefore] at hwhole
  rw [List.flatten_cons]
  cases hrun : run control s chunk with
  | pending s' => exact absurd hrun (hdecided s')
  | refused r =>
    rw [hrun] at hchunk
    rw [run_append_refused hrun] at hwhole
    obtain ⟨n, t, hn, hparse⟩ := hchunk
    obtain ⟨m, t', hm, hparse'⟩ := hwhole
    rw [parseChunks_of_verdict (by simp [hparse]), hparse, hparse']
    simp only [List.length_append] at hm
    have hnm : n + before.length = m + 0 := by omega
    refine ⟨fun _ => ⟨?_, ?_⟩, fun _ => by simp [Except.map, seen, hnm]⟩
    · intro s' hs'
      rw [hbefore, Outcome.pending.injEq] at hs'
      rwa [← hs']
    · rintro w - ⟨z, rfl⟩ hmem
      have haccepted := (accepted_iff_headerBlock (before ++ w ++ z) z).mpr ⟨_, hmem, rfl⟩
      rw [List.append_assoc, run_append hbefore, hrun] at haccepted
      cases haccepted
  | accepted r =>
    obtain ⟨w, hw, hchunkw⟩ := (control_recognises.accepted_iff s chunk r).mp hrun
    rw [← control_recognises.mem_of_pending hbefore, remaining_methodStart] at hw
    have hmethodOf (z : Text) : methodOf (before ++ (chunk ++ z)) = methodOf (before ++ w) := by
      rw [hchunkw, List.append_assoc, ← List.append_assoc, methodOf_headerBlock_append hw]
    rw [hrun] at hchunk
    rw [run_append_accepted hrun] at hwhole
    obtain ⟨n, parsed, hn, hmethod, hparse⟩ := hchunk
    obtain ⟨m, whole, hm, ⟨hmethod', hversion⟩, hparse'⟩ := hwhole
    rw [hmethodOf] at hmethod'
    have hdrop : parsed.method = (methodOf (before ++ w)).drop before.length := by
      rw [hmethod, methodRead_of_pending hbefore chunk]
      simp only [methodRead]
      rw [← hmethodOf [], List.append_nil]
    have hmethods : parsed.method ≠ whole.method := by
      intro heq
      have hlength := congrArg List.length heq
      rw [hdrop, hmethod', List.length_drop] at hlength
      have h1 := List.length_pos_of_ne_nil (methodOf_headerBlock_ne_nil hw)
      have h2 := List.length_pos_of_ne_nil hne
      omega
    rw [parseChunks_of_verdict (verdict_of_map hparse), hparse, hparse', map_map, map_map,
      seen_alike_iff hversion hmethods, hmethod', hdrop]
    refine ⟨fun hnone => ⟨?_, ?_⟩, fun h => h.unregistered w ?_ ⟨r, hchunkw.symm⟩ hw⟩
    · intro s' hs'
      rw [hbefore, Outcome.pending.injEq] at hs'
      rwa [← hs']
    · intro v _ hv hmem
      have hvw : before ++ v = before ++ w := by
        have hvb : before ++ v <+: before ++ chunk :=
          (List.prefix_append_right_inj before).mpr hv
        apply headerBlock_unique hmem hw hvb
        exact (List.prefix_append_right_inj before).mpr ⟨r, hchunkw.symm⟩
      rwa [hvw]
    · rintro rfl
      rw [List.append_nil] at hw
      have haccepted := (accepted_iff_headerBlock before []).mpr ⟨before, hw, by simp⟩
      rw [hbefore] at haccepted
      cases haccepted

/-- From an undecided cut on, the calls are seen to agree with the whole exactly when every
later cut does no harm. -/
theorem parseChunks_from (req : Request B) (chunks : List Text) {before : Text} {s : Control}
    (hbefore : run control (.methodStart, false) before = .pending s) :
    (parseChunks s.1 req chunks).map (seen before.length) =
        (parse .methodStart req (before ++ chunks.flatten)).map (seen 0) ↔
      CutsHarmless B before chunks := by
  induction chunks generalizing before s with
  | nil =>
    have hwhole := parse_start req (before ++ ([] : List Text).flatten)
    rw [List.flatten_nil, List.append_nil, hbefore] at hwhole
    rw [List.flatten_nil, List.append_nil, show parse .methodStart req before = _ from hwhole]
    simp [parseChunks, Except.map, seen, CutsHarmless]
  | cons chunk rest ih =>
    by_cases hfollows : before = [] ∨ resumes s chunk = true
    · by_cases hpending : ∃ s', run control s chunk = .pending s'
      · -- the chunk is used up: what was read grows by it
        obtain ⟨s', hs'⟩ := hpending
        have hgrown : run control (.methodStart, false) (before ++ chunk) = .pending s' := by
          rw [run_append hbefore, hs']
        have hparse : parse s.1 req chunk = .ok ⟨.indeterminate, chunk.length, s'.1, req⟩ := by
          cases hfollows with
          | inl hempty =>
            subst hempty
            obtain rfl : (State.methodStart, false) = s := by simpa [run] using hbefore
            have h := parse_start req chunk
            rwa [hs'] at h
          | inr hresumes =>
            have h := parse_of_resumes req hbefore hresumes
            rwa [hs'] at h
        have hharmless : before ≠ [] → Harmless B before chunk := by
          intro hne
          refine ⟨fun t ht => ?_, fun w _ hw hmem => ?_⟩
          · rw [hbefore, Outcome.pending.injEq] at ht
            rw [← ht]
            exact hfollows.resolve_left hne
          · obtain ⟨z, rfl⟩ := hw
            have haccepted := (accepted_iff_headerBlock (before ++ w ++ z) z).mpr ⟨_, hmem, rfl⟩
            rw [List.append_assoc, hgrown] at haccepted
            cases haccepted
        rw [parseChunks_of_indeterminate hparse, List.flatten_cons, ← List.append_assoc,
          ← List.length_append, ih hgrown, CutsHarmless]
        exact ⟨fun h => ⟨hharmless, h⟩, fun h => h.2⟩
      · -- the chunk decides the call
        have hdecided : ∀ s', run control s chunk ≠ .pending s' := fun s' hs' =>
          hpending ⟨s', hs'⟩
        have hlater : CutsHarmless B (before ++ chunk) rest := by
          apply cutsHarmless_of_decided
          rwa [run_append hbefore]
        by_cases hne : before = []
        · subst hne
          obtain rfl : (State.methodStart, false) = s := by simpa [run] using hbefore
          have hsame : parse .methodStart req ([] ++ (chunk :: rest).flatten) =
              parse .methodStart req chunk := by
            rw [List.nil_append, List.flatten_cons, parse_append_of_decided req hdecided]
          rw [hsame, parseChunks_of_verdict (verdict_of_decided req hdecided)]
          exact ⟨fun _ => ⟨fun h => absurd rfl h, hlater⟩, fun _ => rfl⟩
        · rw [alike_of_decided req hne hbefore (hfollows.resolve_left hne) hdecided, CutsHarmless]
          exact ⟨fun h => ⟨fun _ => h, hlater⟩, fun h => h.1 hne⟩
    · -- the chunk relies on what an earlier call read
      rw [not_or, Bool.not_eq_true] at hfollows
      refine ⟨fun heq => absurd heq (not_alike_of_strays req hbefore hfollows.2 rest), fun h => ?_⟩
      have hresumes := (h.1 hfollows.1).resumes s hbefore
      rw [hfollows.2] at hresumes
      cases hresumes

/-- The calls on the chunks are seen to do what one call on the whole does, and no chunk changes
the last of no headers. -/
structure ParsesAsWhole (req : Request B) (chunks : List Text) : Prop where
  alike : (parseChunks .methodStart req chunks).map (seen 0) =
    (parse .methodStart req chunks.flatten).map (seen 0)
  defined : parseChunks .methodStart req chunks ≠ .error (.fault .backOfEmpty)

/-- Cutting the bytes into chunks makes no difference exactly when every cut does no harm. -/
theorem parseChunks_asWhole_iff (req : Request B) (chunks : List Text) :
    ParsesAsWhole req chunks ↔ CutsHarmless B [] chunks := by
  have hstart : run control (.methodStart, false) [] = .pending (.methodStart, false) := rfl
  have hfrom := parseChunks_from req chunks hstart
  rw [← hfrom]
  refine ⟨fun h => h.alike, fun h => ⟨h, fun hfault => ?_⟩⟩
  rw [hfault] at h
  cases hwhole : parse .methodStart req ([] ++ chunks.flatten) with
  | error e =>
    rw [hwhole] at h
    obtain rfl : Abort.fault .backOfEmpty = e := Except.error.inj h
    exact parse_start_defined req _ _ hwhole
  | ok r =>
    rw [hwhole] at h
    cases h

/-- A cut within the method name loses the part before it. -/
theorem parseChunks_not_asWhole : ¬ ParsesAsWhole (B := Beast.lists) {}
    [text "G", text "ET / HTTP/1.1\r\n\r\n"] := by
  intro h
  have hchunks : (parseChunks (B := Beast.lists) .methodStart {}
      [text "G", text "ET / HTTP/1.1\r\n\r\n"]).map (seen 0) =
        .error (.thrown .invalidArgument) := by rfl
  have hwhole : ((parse (B := Beast.lists) .methodStart {}
      (text "GET / HTTP/1.1\r\n\r\n")).map (seen 0)).isOk = true := by rfl
  have halike := h.alike
  rw [hchunks] at halike
  change _ = (parse (B := Beast.lists) .methodStart {}
    (text "GET / HTTP/1.1\r\n\r\n")).map (seen 0) at halike
  rw [← halike] at hwhole
  cases hwhole

end Aite.Http
