import Aite.Http.ParserRun

/-!
# The verdict of a single call

A call of `parse` on a fresh parser runs the loop and, when the loop accepts, stores the
result in the caller's request. Storing it fails exactly when the library does not register
the method name, and then the call has no verdict. On every other buffer the verdict and the
number of consumed bytes are those of the grammar.
-/

namespace Aite.Http

open StopMachine
open Computability

variable {B : Beast}

/-- Storing a request whose version is known fails only for its method. -/
theorem translate_of_hasVersion (req : Request B) {parsed : ParserRequest}
    (h : parsed.hasVersion = true) :
    (B.stringToVerb parsed.method = none →
      translate req parsed = .error (.thrown .invalidArgument)) ∧
    (∀ verb, B.stringToVerb parsed.method = some verb →
      ∃ stored : Request B, translate req parsed = .ok stored ∧ stored.method = some verb) := by
  simp only [ParserRequest.hasVersion, Bool.and_eq_true, Option.isSome_iff_exists] at h
  obtain ⟨⟨major, hmajor⟩, minor, hminor⟩ := h
  refine ⟨fun hverb => ?_, fun verb hverb => ?_⟩
  · simp only [translate, hverb]
  · simp only [translate, hverb, hmajor, hminor]
    exact ⟨_, rfl, rfl⟩

/-- The result of a call, by the outcome of the control. -/
def Decides (P : ParserRequest → Prop) (req : Request B) (buffer : Text) :
    Outcome Control UInt8 → Run (ParseResult B) → Prop
  | .accepted rest, r => ∃ n parsed, n + rest.length = buffer.length ∧ P parsed ∧
      r = (translate req parsed).map fun stored => ⟨.true, n, .expectingNewline3, stored⟩
  | .refused rest, r => ∃ n s, n + rest.length = buffer.length ∧ r = .ok ⟨.false, n, s, req⟩
  | .pending s, r => r = .ok ⟨.indeterminate, buffer.length, s.1, req⟩

/-- The call follows the control when its loop does. -/
theorem decides_of_agrees {Q : Control → ParserRequest → Prop} {state : State}
    {outcome : Outcome Control UInt8} {buffer : Text}
    (h : Agrees Q state {} buffer outcome (parseLoop state {} buffer)) (req : Request B) :
    Decides (fun parsed => parsed.method = methodRead state buffer ∧
      ∃ b, Q (.expectingNewline3, b) parsed) req buffer outcome (parse state req buffer) := by
  cases outcome with
  | accepted rest =>
    obtain ⟨n, b, parsed, hn, hmethod, hparse, hQ⟩ := h
    refine ⟨n, parsed, hn, ⟨hmethod, b, hQ⟩, ?_⟩
    simp only [parse, hparse, bind, Except.bind, if_true]
    cases translate req parsed <;> rfl
  | refused rest =>
    obtain ⟨n, s, parsed, hn, hparse⟩ := h
    refine ⟨n, s, hn, ?_⟩
    simp [parse, hparse, bind, Except.bind]
  | pending s =>
    obtain ⟨parsed, hparse, -⟩ := h
    change parse state req buffer = .ok ⟨.indeterminate, buffer.length, s.1, req⟩
    simp [parse, hparse, bind, Except.bind]

/-- Less may be claimed about the accepted request. -/
theorem Decides.mono {P Q : ParserRequest → Prop} {req : Request B} {buffer : Text}
    {outcome : Outcome Control UInt8} {r : Run (ParseResult B)} (hPQ : ∀ parsed, P parsed → Q parsed)
    (h : Decides P req buffer outcome r) : Decides Q req buffer outcome r := by
  cases outcome with
  | accepted rest =>
    obtain ⟨n, parsed, hn, hP, hr⟩ := h
    exact ⟨n, parsed, hn, hPQ parsed hP, hr⟩
  | refused rest => exact h
  | pending s => exact h

/-- A call on a fresh parser follows the control. -/
theorem parse_start (req : Request B) (buffer : Text) :
    Decides (fun parsed => parsed.method = methodOf buffer ∧ parsed.hasVersion = true) req buffer
      (run control (.methodStart, false) buffer) (parse .methodStart req buffer) := by
  apply (decides_of_agrees (parseLoop_start buffer) req).mono
  rintro parsed ⟨hmethod, b, hbuilt, -⟩
  exact ⟨hmethod, hbuilt.version rfl⟩

/-- What follows the space behind a token does not change the token. -/
private theorem methodOf_append {L : Language UInt8} {w : Text} (z : Text)
    (hw : w ∈ (symbol IsToken)∗ * (word (text " ") * L)) : methodOf (w ++ z) = methodOf w := by
  induction w with
  | nil =>
    rw [nil_mem_kstar_mul] at hw
    exact absurd hw nil_notMem_word_mul
  | cons a w ih =>
    by_cases ha : a = ' '.toUInt8
    · simp [methodOf, ha]
    · have hspace : ¬ IsToken ' '.toUInt8 := by
        simp only [IsToken]
        decide
      have hrest := (cons_mem_kstar_symbol_word hspace).mp hw
      simp only [ha, false_and, false_or] at hrest
      simpa [methodOf, ha] using ih hrest.2.2

/-- A buffer has the method token of the header block it begins with. -/
theorem methodOf_headerBlock_append {w : Text} (hw : w ∈ headerBlock) (z : Text) :
    methodOf (w ++ z) = methodOf w := by
  rw [← remaining_methodStart] at hw
  cases w with
  | nil => exact absurd hw nil_notMem_symbol_mul
  | cons a w =>
    have hrest := (cons_mem_symbol_mul.mp hw).2
    simp only [methodOf, List.cons_append, List.takeWhile_cons]
    split
    · exact congrArg (a :: ·) (methodOf_append z hrest)
    · rfl

/-- The method token of a header block is not empty. -/
theorem methodOf_headerBlock_ne_nil {w : Text} (hw : w ∈ headerBlock) : methodOf w ≠ [] := by
  rw [← remaining_methodStart] at hw
  cases w with
  | nil => exact absurd hw nil_notMem_symbol_mul
  | cons a w =>
    have htoken : notToken a = false := (cons_mem_symbol_mul.mp hw).1
    simp [methodOf, ne_space_of_token (by simp [htoken] : ¬ notToken a = true)]

/-- Every header block the buffer begins with has a method name that the library registers. -/
def MethodsRegistered (B : Beast) (buffer : Text) : Prop :=
  ∀ w ∈ headerBlock, w <+: buffer → B.stringToVerb (methodOf w) ≠ none

/-- The call returns this verdict after this many bytes. -/
def Returns (r : Run (ParseResult B)) (verdict : Tribool) (n : ℕ) : Prop :=
  ∃ s req, r = .ok ⟨verdict, n, s, req⟩

/-- The verdict and the number of consumed bytes are those of the grammar. -/
structure StopsWithGrammar (buffer : Text) (r : Run (ParseResult B)) : Prop where
  /-- It is `true` right behind the header block that the buffer begins with. -/
  accepts : ∀ n, Returns r .true n ↔ ∃ w ∈ headerBlock, w <+: buffer ∧ n = w.length
  /-- There is at most one such header block. -/
  unique : ∀ w ∈ headerBlock, ∀ v ∈ headerBlock, w <+: buffer → v <+: buffer → w = v
  /-- It is `false` right behind the shortest prefix that no header block begins with. -/
  rejects : ∀ n, Returns r .false n ↔ (¬ ∃ w ∈ headerBlock, w <+: buffer) ∧
    IsLeast {k | k ≤ buffer.length ∧ ∀ z, buffer.take k ++ z ∉ headerBlock} n
  /-- It is indeterminate at the end of what a header block properly extends. -/
  waits : ∀ n, Returns r .indeterminate n ↔
    n = buffer.length ∧ ∃ z, z ≠ [] ∧ buffer ++ z ∈ headerBlock

/-- The control accepts when the buffer begins with a header block. -/
theorem accepted_iff_headerBlock (buffer rest : Text) :
    run control (.methodStart, false) buffer = .accepted rest ↔
      ∃ w ∈ headerBlock, buffer = w ++ rest := by
  rw [← remaining_methodStart]
  exact control_recognises.accepted_iff _ _ _

/-- The control is undecided when the buffer can still become a header block. -/
theorem pending_iff_headerBlock (buffer : Text) :
    (∃ s, run control (.methodStart, false) buffer = .pending s) ↔
      ∃ z, z ≠ [] ∧ buffer ++ z ∈ headerBlock := by
  rw [← remaining_methodStart]
  exact control_recognises.pending_iff _ _

/-- Two header blocks at the beginning of one buffer are the same. -/
theorem headerBlock_unique {v w buffer : Text} (hv : v ∈ headerBlock) (hw : w ∈ headerBlock)
    (hvb : v <+: buffer) (hwb : w <+: buffer) : v = w := by
  rw [← remaining_methodStart] at hv hw
  cases List.prefix_or_prefix_of_prefix hvb hwb with
  | inl h => exact control_recognises.prefix_free hv hw h
  | inr h => exact (control_recognises.prefix_free hw hv h).symm

/-- The control refuses right behind the shortest prefix that no header block begins with. -/
theorem isLeast_of_refused {buffer rest : Text} {n : ℕ}
    (h : run control (.methodStart, false) buffer = .refused rest)
    (hn : n + rest.length = buffer.length) :
    (¬ ∃ w ∈ headerBlock, w <+: buffer) ∧
      IsLeast {k | k ≤ buffer.length ∧ ∀ z, buffer.take k ++ z ∉ headerBlock} n := by
  rw [control_recognises.refused_iff, remaining_methodStart] at h
  obtain ⟨u, rfl, hnone, hdead, hlive⟩ := h
  rw [List.length_append, Nat.add_right_cancel_iff] at hn
  subst hn
  refine ⟨hnone, ⟨by simp, fun z hz => hdead ⟨z, by simpa using hz⟩⟩, fun k hk => ?_⟩
  by_contra hlt
  have htake : (u ++ rest).take k = u.take k := by
    rw [List.take_append_of_le_length]
    omega
  have hne : u.take k ≠ u := by
    intro heq
    have := congrArg List.length heq
    rw [List.length_take] at this
    omega
  obtain ⟨z, hz⟩ := hlive (u.take k) (List.take_prefix k u) hne
  rw [← htake] at hz
  exact hk.2 z hz

/-- While the buffer can still become a header block, none of its prefixes is dead. -/
theorem not_isLeast_of_pending {buffer : Text} {s : Control} {n : ℕ}
    (h : run control (.methodStart, false) buffer = .pending s) :
    ¬ IsLeast {k | k ≤ buffer.length ∧ ∀ z, buffer.take k ++ z ∉ headerBlock} n := by
  obtain ⟨z, -, hz⟩ := (pending_iff_headerBlock buffer).mp ⟨s, h⟩
  intro hleast
  apply hleast.1.2 (buffer.drop n ++ z)
  rwa [← List.append_assoc, List.take_append_drop]

/-- A call that returns has one verdict and one number of consumed bytes. -/
private theorem returns_ok_iff {verdict verdict' : Tribool} {n n' : ℕ} {s : State}
    {req : Request B} :
    Returns (.ok ⟨verdict, n, s, req⟩) verdict' n' ↔ verdict' = verdict ∧ n' = n := by
  simp only [Returns, Except.ok.injEq, ParseResult.mk.injEq]
  tauto

/-- On a buffer that begins with a header block, the call returns `true` behind it. -/
private theorem stops_of_accepted {buffer rest : Text} {n : ℕ} {s : State} {req : Request B}
    (h : run control (.methodStart, false) buffer = .accepted rest)
    (hn : n + rest.length = buffer.length) :
    StopsWithGrammar buffer (.ok ⟨.true, n, s, req⟩ : Run (ParseResult B)) := by
  obtain ⟨w, hw, rfl⟩ := (accepted_iff_headerBlock buffer rest).mp h
  rw [List.length_append, Nat.add_right_cancel_iff] at hn
  subst hn
  have hwb : w <+: w ++ rest := List.prefix_append w rest
  refine ⟨fun n => ?_, fun u hu v hv => headerBlock_unique hu hv, fun n => ?_, fun n => ?_⟩
  · rw [returns_ok_iff]
    refine ⟨fun hret => ⟨w, hw, hwb, hret.2⟩, ?_⟩
    rintro ⟨v, hv, hvb, rfl⟩
    rw [headerBlock_unique hv hw hvb hwb]
    exact ⟨rfl, rfl⟩
  · rw [returns_ok_iff]
    exact ⟨fun hret => (by cases hret.1), fun hdead => absurd ⟨w, hw, hwb⟩ hdead.1⟩
  · rw [returns_ok_iff, ← pending_iff_headerBlock, h]
    exact ⟨fun hret => (by cases hret.1), fun hmore => (by cases hmore.2.choose_spec)⟩

/-- On a buffer that no header block begins with, the call returns `false`. -/
private theorem stops_of_refused {buffer rest : Text} {n : ℕ} {s : State} {req : Request B}
    (h : run control (.methodStart, false) buffer = .refused rest)
    (hn : n + rest.length = buffer.length) :
    StopsWithGrammar buffer (.ok ⟨.false, n, s, req⟩ : Run (ParseResult B)) := by
  obtain ⟨hnone, hleast⟩ := isLeast_of_refused h hn
  refine ⟨fun k => ?_, fun u hu v hv => headerBlock_unique hu hv, fun k => ?_, fun k => ?_⟩
  · rw [returns_ok_iff]
    exact ⟨fun hret => (by cases hret.1),
      fun ⟨w, hw, hwb, _⟩ => absurd ⟨w, hw, hwb⟩ hnone⟩
  · rw [returns_ok_iff]
    refine ⟨?_, fun hk => ⟨rfl, hk.2.unique hleast⟩⟩
    rintro ⟨-, rfl⟩
    exact ⟨hnone, hleast⟩
  · rw [returns_ok_iff, ← pending_iff_headerBlock, h]
    exact ⟨fun hret => (by cases hret.1), fun hmore => (by cases hmore.2.choose_spec)⟩

/-- On a buffer that a header block properly extends, the call is undecided at its end. -/
private theorem stops_of_pending {buffer : Text} {c : Control} {s : State} {req : Request B}
    (h : run control (.methodStart, false) buffer = .pending c) :
    StopsWithGrammar buffer
      (.ok ⟨.indeterminate, buffer.length, s, req⟩ : Run (ParseResult B)) := by
  refine ⟨fun k => ?_, fun u hu v hv => headerBlock_unique hu hv, fun k => ?_, fun k => ?_⟩
  · rw [returns_ok_iff]
    refine ⟨fun hret => (by cases hret.1), ?_⟩
    rintro ⟨w, hw, ⟨rest, rfl⟩, -⟩
    rw [(accepted_iff_headerBlock _ rest).mpr ⟨w, hw, rfl⟩] at h
    cases h
  · rw [returns_ok_iff]
    exact ⟨fun hret => (by cases hret.1), fun hk => absurd hk.2 (not_isLeast_of_pending h)⟩
  · rw [returns_ok_iff, ← pending_iff_headerBlock, h]
    exact ⟨fun hret => ⟨hret.2, c, rfl⟩, fun hmore => ⟨rfl, hmore.1⟩⟩

/-- The method names are registered exactly when no accepted one is unknown. -/
private theorem methodsRegistered_of_accepted {buffer rest : Text}
    (h : run control (.methodStart, false) buffer = .accepted rest) :
    MethodsRegistered B buffer ↔ B.stringToVerb (methodOf buffer) ≠ none := by
  obtain ⟨w, hw, rfl⟩ := (accepted_iff_headerBlock buffer rest).mp h
  rw [methodOf_headerBlock_append hw]
  refine ⟨fun hreg => hreg w hw (List.prefix_append w rest), fun hverb v hv hvb => ?_⟩
  rwa [headerBlock_unique hv hw hvb (List.prefix_append w rest)]

/-- Without an accepted header block there is no method name to register. -/
private theorem methodsRegistered_of_not_accepted {buffer : Text}
    (h : ∀ rest, run control (.methodStart, false) buffer ≠ .accepted rest) :
    MethodsRegistered B buffer := by
  rintro w hw ⟨rest, rfl⟩
  exact absurd ((accepted_iff_headerBlock _ rest).mpr ⟨w, hw, rfl⟩) (h rest)

/-- A call on a fresh parser returns exactly when the method name of the header block that the
buffer begins with, if there is one, is registered. -/
theorem parse_returns_iff (req : Request B) (buffer : Text) :
    (∃ r, parse .methodStart req buffer = .ok r) ↔ MethodsRegistered B buffer := by
  have hparse := parse_start req buffer
  cases hrun : run control (.methodStart, false) buffer with
  | accepted rest =>
    rw [hrun] at hparse
    obtain ⟨n, parsed, -, ⟨hmethod, hversion⟩, hr⟩ := hparse
    obtain ⟨hunknown, hknown⟩ := translate_of_hasVersion req hversion
    rw [methodsRegistered_of_accepted hrun, hr, ← hmethod]
    cases hverb : B.stringToVerb parsed.method with
    | none => simp [hunknown hverb, Except.map]
    | some verb =>
      obtain ⟨stored, hstored, -⟩ := hknown verb hverb
      simp [hstored, Except.map]
  | refused rest =>
    rw [hrun] at hparse
    obtain ⟨n, s, -, hr⟩ := hparse
    exact ⟨fun _ => methodsRegistered_of_not_accepted (by simp [hrun]), fun _ => ⟨_, hr⟩⟩
  | pending s =>
    rw [hrun] at hparse
    exact ⟨fun _ => methodsRegistered_of_not_accepted (by simp [hrun]), fun _ => ⟨_, hparse⟩⟩

/-- A header block with the method `FOO` makes the call throw. -/
theorem parse_throws : ¬ ∃ r, parse (B := Beast.lists) .methodStart {}
    (text "FOO / HTTP/1.1\r\n\r\n") = .ok r := by
  have hthrows : parse (B := Beast.lists) .methodStart {} (text "FOO / HTTP/1.1\r\n\r\n") =
      .error (.thrown .invalidArgument) := by rfl
  rw [hthrows]
  simp

/-- A call on a fresh parser stops where the grammar does exactly when the method name of the
header block that the buffer begins with, if there is one, is registered. -/
theorem parse_stopsWithGrammar_iff (req : Request B) (buffer : Text) :
    StopsWithGrammar buffer (parse .methodStart req buffer) ↔ MethodsRegistered B buffer := by
  have hparse := parse_start req buffer
  cases hrun : run control (.methodStart, false) buffer with
  | accepted rest =>
    rw [hrun] at hparse
    obtain ⟨n, parsed, hn, ⟨hmethod, hversion⟩, hr⟩ := hparse
    obtain ⟨hunknown, hknown⟩ := translate_of_hasVersion req hversion
    rw [methodsRegistered_of_accepted hrun, hr, ← hmethod]
    cases hverb : B.stringToVerb parsed.method with
    | none =>
      obtain ⟨w, hw, hwb⟩ := (accepted_iff_headerBlock buffer rest).mp hrun
      refine ⟨fun hstops => ?_, fun hne => absurd rfl hne⟩
      obtain ⟨s, stored, hok⟩ := (hstops.accepts w.length).mpr ⟨w, hw, ⟨rest, hwb.symm⟩, rfl⟩
      simp [hunknown hverb, Except.map] at hok
    | some verb =>
      obtain ⟨stored, hstored, -⟩ := hknown verb hverb
      rw [hstored]
      exact ⟨fun _ => by simp, fun _ => stops_of_accepted hrun hn⟩
  | refused rest =>
    rw [hrun] at hparse
    obtain ⟨n, s, hn, hr⟩ := hparse
    rw [hr]
    exact ⟨fun _ => methodsRegistered_of_not_accepted (by simp [hrun]),
      fun _ => stops_of_refused hrun hn⟩
  | pending s =>
    rw [hrun] at hparse
    rw [show parse .methodStart req buffer = _ from hparse]
    exact ⟨fun _ => methodsRegistered_of_not_accepted (by simp [hrun]),
      fun _ => stops_of_pending hrun⟩

/-- A header block with an unregistered method name gets no verdict. -/
theorem parse_not_stopsWithGrammar : ¬ StopsWithGrammar (text "FOO / HTTP/1.1\r\n\r\n")
    (parse (B := Beast.lists) .methodStart {} (text "FOO / HTTP/1.1\r\n\r\n")) := by
  intro hstops
  have haccepted : run control (.methodStart, false) (text "FOO / HTTP/1.1\r\n\r\n") =
      .accepted [] := by decide
  obtain ⟨w, hw, hwb⟩ := (accepted_iff_headerBlock _ _).mp haccepted
  obtain ⟨s, stored, hok⟩ := (hstops.accepts w.length).mpr ⟨w, hw, ⟨[], hwb.symm⟩, rfl⟩
  have hthrows : parse (B := Beast.lists) .methodStart {} (text "FOO / HTTP/1.1\r\n\r\n") =
      .error (.thrown .invalidArgument) := by rfl
  rw [hthrows] at hok
  cases hok

end Aite.Http
