import Aite.Http.FieldList
import Aite.Strings

/-!
# The version numbers of a request

The two numbers of a version are accumulated digit by digit in an `int`, and the version that a
request reports is ten times the first plus the second. How many digits there are is bounded by
the buffer only. What the arithmetic needs to stay within an `int` is collected here along the
loop of the parser, from the values that the parser has, and compared with the numbers that are
written in the request line.
-/

namespace Aite.Http

/-- The values of an `int`. -/
def FitsInt (n : ℤ) : Prop := -2 ^ 31 ≤ n ∧ n < 2 ^ 31

/-- No partial result of `number * 10 + input - '0'` overflows. -/
def AppendFits (number : Option Int32) (input : UInt8) : Prop :=
  ∀ n ∈ number, FitsInt (n.toInt * 10) ∧ FitsInt (n.toInt * 10 + charToInt input) ∧
    FitsInt (n.toInt * 10 + charToInt input - charToInt '0'.toUInt8)

/-- The arithmetic of a step does not overflow. -/
def StepFits (state : State) (req : ParserRequest) (input : UInt8) : Prop :=
  match state with
  | .httpVersionMajorStart | .httpVersionMajor =>
    isDigit (charToInt input) = true → AppendFits req.httpVersionMajor input
  | .httpVersionMinorStart | .httpVersionMinor =>
    isDigit (charToInt input) = true → AppendFits req.httpVersionMinor input
  | _ => True

/-- The arithmetic of every step on a buffer does not overflow. -/
def LoopFits : State → ParserRequest → Text → Prop
  | _, _, [] => True
  | state, req, input :: rest => StepFits state req input ∧
    match consume state req input with
    | .ok (.indeterminate, state', req') => LoopFits state' req' rest
    | _ => True

/-- No partial result of `major * 10 + minor` overflows. -/
def TranslateFits (parsed : ParserRequest) : Prop :=
  ∀ major ∈ parsed.httpVersionMajor, ∀ minor ∈ parsed.httpVersionMinor,
    FitsInt (major.toInt * 10) ∧ FitsInt (major.toInt * 10 + minor.toInt)

/-- No arithmetic overflows while a buffer is parsed from the initial state. -/
def ParseFits (buffer : Text) : Prop :=
  LoopFits .methodStart {} buffer ∧
    ∀ p, parseLoop .methodStart {} buffer = .ok p → p.verdict = .true → TranslateFits p.parsed

/-- The major number of a request line. -/
def RequestHead.majorNumber (head : RequestHead) : ℕ := digitsValue head.major

/-- The minor number of a request line. -/
def RequestHead.minorNumber (head : RequestHead) : ℕ := digitsValue head.minor

/-- The packed version is an `int`, and so is the minor number with the code of a digit added, which
is subtracted afterwards. -/
def RequestHead.VersionFits (head : RequestHead) : Prop :=
  10 * head.majorNumber + head.minorNumber < 2 ^ 31 ∧
    head.minorNumber + '0'.toUInt8.toNat < 2 ^ 31

/-- `n * 10 + c - '0'` -/
def digitStep (n : Int32) (c : UInt8) : Int32 :=
  n * 10 + c.toInt8.toInt32 - '0'.toUInt8.toInt8.toInt32

/-- The arithmetic does not overflow while digits are appended to a number. -/
def DigitsFit : Int32 → Text → Prop
  | _, [] => True
  | n, c :: digits => AppendFits (some n) c ∧ DigitsFit (digitStep n c) digits

/-- The number that digits make of a number in front of them. -/
def digitsFrom (k : ℕ) (digits : Text) : ℕ := digits.foldl (fun n c => 10 * n + (c.toNat - 48)) k

/-- Digits make a number greater. -/
private theorem le_digitsFrom (k : ℕ) (digits : Text) : k ≤ digitsFrom k digits := by
  induction digits generalizing k with
  | nil => exact le_rfl
  | cons c digits ih =>
    have hrest := ih (10 * k + (c.toNat - 48))
    rw [digitsFrom, List.foldl_cons]
    change _ ≤ digitsFrom _ digits
    omega

/-- The code of a digit as an `int`. -/
private theorem charToInt_digit {c : UInt8} (h : IsDigit c) : charToInt c = c.toNat := by
  have hcode := isDigit_iff.mp h
  rw [charToInt_eq, if_pos (by omega)]

section Append

variable {n : Int32} {k : ℕ} {c : UInt8}

/-- A digit is appended without overflow exactly when the sum with its code is an `int`. -/
private theorem appendFits_iff (hn : n.toInt = k) (hc : IsDigit c) :
    AppendFits (some n) c ↔ 10 * k + (c.toNat - 48) + 48 < 2 ^ 31 := by
  have hcode := isDigit_iff.mp hc
  have hzero : charToInt '0'.toUInt8 = 48 := by decide
  simp only [AppendFits, Option.mem_some_iff, forall_eq', FitsInt, hn, hzero, charToInt_digit hc]
  omega

/-- A digit that is appended without overflow gives the number of all the digits. -/
private theorem toInt_digitStep (hn : n.toInt = k) (hc : IsDigit c)
    (hfits : 10 * k + (c.toNat - 48) + 48 < 2 ^ 31) :
    (digitStep n c).toInt = (10 * k + (c.toNat - 48) : ℕ) := by
  have hcode := isDigit_iff.mp hc
  have hinput : c.toInt8.toInt32.toInt = c.toNat := by
    rw [Int8.toInt_toInt32]
    exact charToInt_digit hc
  have hzero : '0'.toUInt8.toInt8.toInt32.toInt = 48 := by decide
  have hten : (10 : Int32).toInt = 10 := by decide
  rw [digitStep, Int32.toInt_sub, Int32.toInt_add, Int32.toInt_mul, hn, hinput, hzero, hten]
  rw [Int.bmod_eq_of_le (n := (k : ℤ) * 10) (by omega) (by omega),
    Int.bmod_eq_of_le (n := (k : ℤ) * 10 + c.toNat) (by omega) (by omega),
    Int.bmod_eq_of_le (by omega) (by omega)]
  omega

end Append

/-- Digits are appended without overflow exactly when the number of all of them leaves room for the
code of a digit, and then the number is right. -/
private theorem digitsFit_iff {digits : Text} (h : ∀ c ∈ digits, IsDigit c) {n : Int32} {k : ℕ}
    (hn : n.toInt = k) :
    (DigitsFit n digits ↔ digits = [] ∨ digitsFrom k digits + 48 < 2 ^ 31) ∧
      (DigitsFit n digits → (digits.foldl digitStep n).toInt = digitsFrom k digits) := by
  induction digits generalizing n k with
  | nil => exact ⟨by simp [DigitsFit], fun _ => hn⟩
  | cons c digits ih =>
    have hc : IsDigit c := h c (by simp)
    have hdigits : ∀ d ∈ digits, IsDigit d := fun d hd => h d (by simp [hd])
    have hfrom : digitsFrom k (c :: digits) = digitsFrom (10 * k + (c.toNat - 48)) digits := rfl
    have hle := le_digitsFrom (10 * k + (c.toNat - 48)) digits
    rw [DigitsFit, appendFits_iff hn hc, hfrom, List.foldl_cons]
    by_cases hfits : 10 * k + (c.toNat - 48) + 48 < 2 ^ 31
    · obtain ⟨hiff, hvalue⟩ := ih hdigits (toInt_digitStep hn hc hfits)
      refine ⟨?_, fun hboth => hvalue hboth.2⟩
      rw [hiff]
      cases digits with
      | nil => simp [digitsFrom]
      | cons d digits => simp only [reduceCtorEq, false_or, hfits, true_and]
    · refine ⟨?_, fun hboth => absurd hboth.1 hfits⟩
      simp only [hfits, false_and, reduceCtorEq, false_or, false_iff]
      omega

/-- One step that goes on. -/
private theorem loopFits_cons {state state' : State} {req req' : ParserRequest} {c : UInt8}
    (h : consume state req c = .ok (.indeterminate, state', req')) (rest : Text) :
    LoopFits state req (c :: rest) ↔ StepFits state req c ∧ LoopFits state' req' rest := by
  simp only [LoopFits, h]

/-- How far the request line was read: before, within and behind the version. -/
def progress : State → ℕ
  | .methodStart | .method | .uri | .httpVersionH | .httpVersionT1 | .httpVersionT2
  | .httpVersionP | .httpVersionSlash => 0
  | .httpVersionMajorStart => 1
  | .httpVersionMajor => 2
  | .httpVersionMinorStart => 3
  | .httpVersionMinor => 4
  | _ => 5

/-- The parser does not go back, and leaves the start of the version with its first digit. -/
private theorem consume_progress {state state' : State} {req req' : ParserRequest} {c : UInt8}
    (h : consume state req c = .ok (.indeterminate, state', req')) :
    progress state ≤ progress state' ∧ (progress state = 1 → progress state' = 2) := by
  cases state <;> simp only [consume] at h <;> split_ifs at h <;>
    simp only [run_bind_eq_ok, Except.ok.injEq, Prod.mk.injEq, reduceCtorEq, false_and,
      true_and] at h <;>
    first
    | (obtain ⟨rfl, -⟩ := h; simp [progress])
    | (obtain ⟨_, -, rfl, -⟩ := h; simp [progress])

/-- A buffer that is passed over is passed over byte by byte. -/
private theorem parseLoop_cons_inv {state : State} {req : ParserRequest} {c : UInt8} {piece : Text}
    {p : Parsed} (h : parseLoop state req (c :: piece) = .ok p) (hp : p.verdict = .indeterminate) :
    ∃ state' req' q, consume state req c = .ok (.indeterminate, state', req') ∧
      parseLoop state' req' piece = .ok q ∧ p = q.advance := by
  rw [parseLoop] at h
  cases hstep : consume state req c with
  | error e => simp [hstep] at h
  | ok r =>
    obtain ⟨verdict, state', req'⟩ := r
    cases verdict with
    | true =>
      simp only [hstep, Except.ok.injEq] at h
      simp [← h] at hp
    | false =>
      simp only [hstep, Except.ok.injEq] at h
      simp [← h] at hp
    | indeterminate =>
      simp only [hstep] at h
      cases hrest : parseLoop state' req' piece with
      | error e => simp [hrest, Except.map] at h
      | ok q =>
        simp only [hrest, Except.map, Except.ok.injEq] at h
        exact ⟨state', req', q, rfl, hrest, h.symm⟩

/-- On a piece of the buffer the parser does not go back either. -/
private theorem parseLoop_progress {state : State} {req : ParserRequest} {piece : Text} {p : Parsed}
    (h : parseLoop state req piece = .ok p) (hp : p.verdict = .indeterminate) :
    progress state ≤ progress p.state := by
  induction piece generalizing state req p with
  | nil => rw [← Except.ok.inj h]
  | cons c piece ih =>
    obtain ⟨state', req', q, hstep, hrest, rfl⟩ := parseLoop_cons_inv h hp
    have hq : q.verdict = .indeterminate := hp
    have hle : progress state' ≤ progress q.state := ih hrest hq
    exact (consume_progress hstep).1.trans hle

/-- Before the version there is no arithmetic. -/
private theorem stepFits_before {state : State} (h : progress state = 0) (req : ParserRequest)
    (c : UInt8) : StepFits state req c := by
  cases state <;> trivial

/-- Behind the version there is no arithmetic. -/
private theorem stepFits_behind {state : State} (h : progress state = 5) (req : ParserRequest)
    (c : UInt8) : StepFits state req c := by
  cases state <;> trivial

/-- The progress ends behind the version. -/
private theorem progress_le (state : State) : progress state ≤ 5 := by
  cases state <;> decide

/-- Behind the version nothing overflows. -/
private theorem loopFits_behind {state : State} (h : progress state = 5) (req : ParserRequest)
    (buffer : Text) : LoopFits state req buffer := by
  induction buffer generalizing state req with
  | nil => trivial
  | cons c rest ih =>
    refine ⟨stepFits_behind h req c, ?_⟩
    split
    case h_1 state' req' hstep =>
      have hnext := (consume_progress hstep).1
      have hlast := progress_le state'
      exact ih (by omega) req'
    case h_2 => trivial

/-- A piece of the buffer that leads to the start of the version needs no arithmetic. -/
private theorem loopFits_before {state : State} {req : ParserRequest} {piece : Text} {p : Parsed}
    (h : parseLoop state req piece = .ok p) (hp : p.verdict = .indeterminate)
    (hstart : p.state = .httpVersionMajorStart) (rest : Text) :
    LoopFits state req (piece ++ rest) ↔ LoopFits .httpVersionMajorStart p.parsed rest := by
  induction piece generalizing state req p with
  | nil =>
    obtain rfl : ⟨.indeterminate, 0, state, req⟩ = p := Except.ok.inj h
    change state = _ at hstart
    rw [hstart, List.nil_append]
  | cons c piece ih =>
    obtain ⟨state', req', q, hstep, hrest, rfl⟩ := parseLoop_cons_inv h hp
    have hq : q.verdict = .indeterminate := hp
    have hlast : q.state = .httpVersionMajorStart := hstart
    have hle := parseLoop_progress hrest hq
    rw [hlast] at hle
    change _ ≤ 1 at hle
    have hone := consume_progress hstep
    have hzero : progress state = 0 := by omega
    rw [List.cons_append, loopFits_cons hstep, ih hrest hq hlast]
    exact and_iff_right (stepFits_before hzero req c)

/-- In a state that collects digits the arithmetic is that of the number. -/
private theorem loopFits_digits (state : State) (build : Int32 → ParserRequest)
    (hstep : ∀ n c, IsDigit c →
      consume state (build n) c = .ok (.indeterminate, state, build (digitStep n c)))
    (hfits : ∀ n c, IsDigit c → (StepFits state (build n) c ↔ AppendFits (some n) c))
    {digits : Text} (h : ∀ c ∈ digits, IsDigit c) (n : Int32) (rest : Text) :
    LoopFits state (build n) (digits ++ rest) ↔
      DigitsFit n digits ∧ LoopFits state (build (digits.foldl digitStep n)) rest := by
  induction digits generalizing n with
  | nil => simp [DigitsFit]
  | cons c digits ih =>
    have hc : IsDigit c := h c (by simp)
    have ih := ih (fun d hd => h d (by simp [hd])) (digitStep n c)
    rw [List.cons_append, loopFits_cons (hstep n c hc), hfits n c hc, ih, DigitsFit, and_assoc,
      List.foldl_cons]

/-- The arithmetic on the major number, up to the point behind it. -/
private theorem loopFits_major {major : Text} (hne : major ≠ []) (h : ∀ c ∈ major, IsDigit c)
    (req : ParserRequest) (hreq : req.httpVersionMajor = some 0) (rest : Text) :
    LoopFits .httpVersionMajorStart req (major ++ (text "." ++ rest)) ↔ DigitsFit 0 major ∧
      LoopFits .httpVersionMinorStart { req with httpVersionMajor := some (versionNumber major) }
        rest := by
  cases major with
  | nil => exact absurd rfl hne
  | cons c major =>
    have hc : isDigit (charToInt c) = true := h c (by simp)
    have hdigits := loopFits_digits .httpVersionMajor (fun n => { req with httpVersionMajor := some n })
      (fun n d hd => by
        have hdigit : isDigit (charToInt d) = true := hd
        simp [consume, digit_ne hd, hdigit, appendDigit, digitStep, bind, Except.bind])
      (fun n d hd => by
        have hdigit : isDigit (charToInt d) = true := hd
        simp [StepFits, hdigit])
      (show ∀ d ∈ major, IsDigit d from fun d hd => h d (by simp [hd])) (digitStep 0 c)
      (text "." ++ rest)
    have hfirst : consume .httpVersionMajorStart req c = .ok (.indeterminate, .httpVersionMajor,
        { req with httpVersionMajor := some (digitStep 0 c) }) := by
      simp [consume, hc, hreq, appendDigit, digitStep, bind, Except.bind]
    have hfits : StepFits .httpVersionMajorStart req c ↔ AppendFits (some 0) c := by
      simp [StepFits, hc, hreq]
    have hpoint : StepFits .httpVersionMajor
        { req with httpVersionMajor := some (versionNumber (c :: major)) } '.'.toUInt8 :=
      fun hdot => absurd hdot (by decide)
    rw [List.cons_append, loopFits_cons hfirst, hfits, hdigits, DigitsFit, and_assoc]
    refine and_congr_right fun _ => and_congr_right fun _ => ?_
    exact (loopFits_cons rfl rest).trans (and_iff_right hpoint)

/-- The arithmetic on the minor number, behind which there is none. -/
private theorem loopFits_minor {minor : Text} (hne : minor ≠ []) (h : ∀ c ∈ minor, IsDigit c)
    (req : ParserRequest) (hreq : req.httpVersionMinor = some 0) (rest : Text) :
    LoopFits .httpVersionMinorStart req (minor ++ (text "\r\n" ++ rest)) ↔ DigitsFit 0 minor := by
  cases minor with
  | nil => exact absurd rfl hne
  | cons c minor =>
    have hc : isDigit (charToInt c) = true := h c (by simp)
    have hdigits := loopFits_digits .httpVersionMinor (fun n => { req with httpVersionMinor := some n })
      (fun n d hd => by
        have hdigit : isDigit (charToInt d) = true := hd
        simp [consume, digit_ne hd, hdigit, appendDigit, digitStep, bind, Except.bind])
      (fun n d hd => by
        have hdigit : isDigit (charToInt d) = true := hd
        simp [StepFits, hdigit])
      (show ∀ d ∈ minor, IsDigit d from fun d hd => h d (by simp [hd])) (digitStep 0 c)
      (text "\r\n" ++ rest)
    have hfirst : consume .httpVersionMinorStart req c = .ok (.indeterminate, .httpVersionMinor,
        { req with httpVersionMinor := some (digitStep 0 c) }) := by
      simp [consume, hc, hreq, appendDigit, digitStep, bind, Except.bind]
    have hfits : StepFits .httpVersionMinorStart req c ↔ AppendFits (some 0) c := by
      simp [StepFits, hc, hreq]
    have hend : StepFits .httpVersionMinor
        { req with httpVersionMinor := some (versionNumber (c :: minor)) } '\r'.toUInt8 :=
      fun hcr => absurd hcr (by decide)
    rw [List.cons_append, loopFits_cons hfirst, hfits, hdigits, DigitsFit]
    refine and_congr_right fun _ => and_iff_left ?_
    exact (loopFits_cons rfl _).mpr ⟨hend, loopFits_behind rfl _ _⟩

/-- The arithmetic on the text of a head is that on the digits of its version. -/
private theorem loopFits_render (head : RequestHead) (rest : Text) :
    LoopFits .methodStart {} (head.render ++ rest) ↔
      DigitsFit 0 head.major ∧ DigitsFit 0 head.minor := by
  have hpasses := (passes_method head.method_ne_nil head.method_token {} rfl).append
    (passes_target head.target_text _ rfl)
  have hbefore := hpasses []
  rw [List.append_nil] at hbefore
  have hrender : head.render ++ rest = head.method ++ text " " ++ (head.target ++ text " HTTP/") ++
      (head.major ++ (text "." ++ (head.minor ++ (text "\r\n" ++
        (head.headers.flatMap HeaderLine.render ++ text "\r\n" ++ rest))))) := by
    simp only [RequestHead.render, List.append_assoc]
  rw [hrender, loopFits_before hbefore rfl rfl, loopFits_major head.major_ne_nil head.major_digit _ rfl,
    loopFits_minor head.minor_ne_nil head.minor_digit _ rfl]

/-- A version number of digits that are appended without overflow. -/
private theorem versionNumber_fits {digits : Text} (hne : digits ≠ []) (h : ∀ c ∈ digits, IsDigit c) :
    (DigitsFit 0 digits ↔ digitsValue digits + 48 < 2 ^ 31) ∧
      (DigitsFit 0 digits → (versionNumber digits).toInt = digitsValue digits) := by
  obtain ⟨hiff, hvalue⟩ := digitsFit_iff h (n := 0) (k := 0) rfl
  rw [or_iff_right hne] at hiff
  exact ⟨hiff, hvalue⟩

/-- Parsing the text of a head overflows nowhere exactly when its version fits. -/
private theorem parseFits_render_iff (head : RequestHead) (rest : Text) :
    ParseFits (head.render ++ rest) ↔ head.VersionFits := by
  obtain ⟨hmajor, hmajorValue⟩ := versionNumber_fits head.major_ne_nil head.major_digit
  obtain ⟨hminor, hminorValue⟩ := versionNumber_fits head.minor_ne_nil head.minor_digit
  have htranslate : (∀ p, parseLoop .methodStart {} (head.render ++ rest) = .ok p →
      p.verdict = .true → TranslateFits p.parsed) ↔ TranslateFits head.parsed := by
    rw [parseLoop_render]
    simp
  rw [ParseFits, loopFits_render, htranslate]
  simp only [TranslateFits, RequestHead.parsed, Option.mem_some_iff, forall_eq', FitsInt,
    RequestHead.VersionFits, RequestHead.majorNumber, RequestHead.minorNumber,
    show '0'.toUInt8.toNat = 48 from rfl]
  constructor
  · rintro ⟨⟨hmajorFits, hminorFits⟩, htranslate⟩
    rw [hmajorValue hmajorFits, hminorValue hminorFits] at htranslate
    rw [hminor] at hminorFits
    omega
  · intro hfits
    have hmajorFits := hmajor.mpr (by omega)
    have hminorFits := hminor.mpr (by omega)
    rw [hmajorValue hmajorFits, hminorValue hminorFits]
    refine ⟨⟨hmajorFits, hminorFits⟩, ?_⟩
    omega

/-- A version that fits is reported as ten times the major number plus the minor number. -/
private theorem toNat_version {head : RequestHead} (h : head.VersionFits) :
    (versionNumber head.major * 10 + versionNumber head.minor).toUInt32.toNat =
      10 * head.majorNumber + head.minorNumber := by
  obtain ⟨hpacked, hminorRoom⟩ := h
  rw [show '0'.toUInt8.toNat = 48 from rfl] at hminorRoom
  obtain ⟨hmajor, hmajorValue⟩ := versionNumber_fits head.major_ne_nil head.major_digit
  obtain ⟨hminor, hminorValue⟩ := versionNumber_fits head.minor_ne_nil head.minor_digit
  have hmajorNumber : (versionNumber head.major).toInt = head.majorNumber :=
    hmajorValue (hmajor.mpr (by change head.majorNumber + 48 < _; omega))
  have hminorNumber : (versionNumber head.minor).toInt = head.minorNumber :=
    hminorValue (hminor.mpr hminorRoom)
  have hten : (10 : Int32).toInt = 10 := by decide
  have hvalue : (versionNumber head.major * 10 + versionNumber head.minor).toInt =
      (10 * head.majorNumber + head.minorNumber : ℕ) := by
    rw [Int32.toInt_add, Int32.toInt_mul, hmajorNumber, hminorNumber, hten,
      Int.bmod_eq_of_le (n := (head.majorNumber : ℤ) * 10) (by omega) (by omega),
      Int.bmod_eq_of_le (by omega) (by omega)]
    omega
  have hnonneg : 0 ≤ versionNumber head.major * 10 + versionNumber head.minor := by
    rw [Int32.le_iff_toInt_le, hvalue]
    exact Int.natCast_nonneg _
  rw [Int32.toNat_toUInt32_of_le hnonneg, ← Int32.toNat_toInt, hvalue, Int.toNat_natCast]

/-- Two requests report the same version only if their version numbers are the same. -/
def DistinguishesVersions {B : Beast} (head₁ head₂ : RequestHead) (req₁ req₂ : Request B) : Prop :=
  req₁.version = req₂.version →
    head₁.majorNumber = head₂.majorNumber ∧ head₁.minorNumber = head₂.minorNumber

/-- Ten times the difference of the major numbers is not made up for by the minor numbers. -/
def Unconfused (head₁ head₂ : RequestHead) : Prop :=
  10 * head₁.majorNumber + head₁.minorNumber = 10 * head₂.majorNumber + head₂.minorNumber →
    head₁.majorNumber = head₂.majorNumber

/-- For two accepted header blocks, nothing overflows and the versions are not confused exactly when
both versions fit and the numbers are not packed into the same sum. -/
theorem parse_versions_iff {B : Beast} {req₁ req₂ : Request B} {buffer₁ buffer₂ : Text}
    {r₁ r₂ : ParseResult B} (hparse₁ : parse .methodStart req₁ buffer₁ = .ok r₁)
    (hparse₂ : parse .methodStart req₂ buffer₂ = .ok r₂) (haccepted₁ : r₁.verdict = .true)
    (haccepted₂ : r₂.verdict = .true) :
    ∃ (head₁ head₂ : RequestHead) (rest₁ rest₂ : Text),
      buffer₁ = head₁.render ++ rest₁ ∧ r₁.consumed = head₁.render.length ∧
      buffer₂ = head₂.render ++ rest₂ ∧ r₂.consumed = head₂.render.length ∧
      (ParseFits buffer₁ ∧ ParseFits buffer₂ ∧ DistinguishesVersions head₁ head₂ r₁.req r₂.req ↔
        head₁.VersionFits ∧ head₂.VersionFits ∧ Unconfused head₁ head₂) := by
  obtain ⟨head₁, rest₁, verb₁, rfl, hverb₁⟩ := exists_head_of_accepted hparse₁ haccepted₁
  obtain ⟨head₂, rest₂, verb₂, rfl, hverb₂⟩ := exists_head_of_accepted hparse₂ haccepted₂
  rw [parse_render head₁ rest₁ req₁ hverb₁] at hparse₁
  rw [parse_render head₂ rest₂ req₂ hverb₂] at hparse₂
  cases hparse₁
  cases hparse₂
  refine ⟨head₁, head₂, rest₁, rest₂, rfl, rfl, rfl, rfl, ?_⟩
  rw [parseFits_render_iff, parseFits_render_iff]
  refine and_congr_right fun hfits₁ => and_congr_right fun hfits₂ => ?_
  have hversion₁ := toNat_version hfits₁
  have hversion₂ := toNat_version hfits₂
  simp only [DistinguishesVersions, Unconfused, ← UInt32.toNat_inj, hversion₁, hversion₂]
  constructor
  · exact fun h hsum => (h hsum).1
  · intro h hsum
    have hmajor := h hsum
    omega

/-- The method of a request without body. -/
private theorem isToken_get : ∀ c ∈ text "GET", IsToken c := by
  simp only [IsToken]
  decide

/-- The target of the root. -/
private theorem isTarget_root : ∀ c ∈ text "/", IsTarget c := by
  simp only [IsTarget, IsText]
  decide

/-- A head with this version and without header lines. -/
def headOfVersion (major minor : Text) (hmajor : major ≠ [] ∧ ∀ c ∈ major, IsDigit c)
    (hminor : minor ≠ [] ∧ ∀ c ∈ minor, IsDigit c) : RequestHead :=
  ⟨text "GET", text "/", major, minor, [], List.cons_ne_nil _ _, isToken_get, isTarget_root,
    hmajor.1, hmajor.2, hminor.1, hminor.2⟩

/-- Some numbers of versions. -/
private theorem isDigit_versions :
    (text "1" ≠ [] ∧ ∀ c ∈ text "1", IsDigit c) ∧ (text "2" ≠ [] ∧ ∀ c ∈ text "2", IsDigit c) ∧
      (text "11" ≠ [] ∧ ∀ c ∈ text "11", IsDigit c) ∧
      (text "2147483648" ≠ [] ∧ ∀ c ∈ text "2147483648", IsDigit c) := by
  simp only [IsDigit]
  decide

/-- `GET / HTTP/1.1` -/
def headOneOne : RequestHead := headOfVersion (text "1") (text "1") isDigit_versions.1 isDigit_versions.1

/-- `GET / HTTP/1.11` -/
def headOneEleven : RequestHead :=
  headOfVersion (text "1") (text "11") isDigit_versions.1 isDigit_versions.2.2.1

/-- `GET / HTTP/2.1` -/
def headTwoOne : RequestHead :=
  headOfVersion (text "2") (text "1") isDigit_versions.2.1 isDigit_versions.1

/-- `GET / HTTP/1.2147483648` -/
def headOverflowing : RequestHead :=
  headOfVersion (text "1") (text "2147483648") isDigit_versions.1 isDigit_versions.2.2.2

/-- Two requests of the usual versions. -/
theorem parse_versions_usual : ∃ r₁ r₂ : ParseResult Beast.lists,
    parse .methodStart {} (headOneOne.render ++ []) = .ok r₁ ∧
      parse .methodStart {} (headTwoOne.render ++ []) = .ok r₂ ∧
      ∃ (head₁ head₂ : RequestHead) (rest₁ rest₂ : Text),
        headOneOne.render ++ [] = head₁.render ++ rest₁ ∧ r₁.consumed = head₁.render.length ∧
        headTwoOne.render ++ [] = head₂.render ++ rest₂ ∧ r₂.consumed = head₂.render.length ∧
        (ParseFits (headOneOne.render ++ []) ∧ ParseFits (headTwoOne.render ++ []) ∧
            DistinguishesVersions head₁ head₂ r₁.req r₂.req ↔
          head₁.VersionFits ∧ head₂.VersionFits ∧ Unconfused head₁ head₂) := by
  have hparse₁ := parse_render (B := Beast.lists) headOneOne [] {} rfl
  have hparse₂ := parse_render (B := Beast.lists) headTwoOne [] {} rfl
  exact ⟨_, _, hparse₁, hparse₂, parse_versions_iff hparse₁ hparse₂ rfl rfl⟩

/-- The versions 1.11 and 2.1 are reported as the same, and the minor number of 1.2147483648 does not
fit an `int`. -/
theorem not_parse_versions_confused :
    (¬ ∀ r₁ r₂ : ParseResult Beast.lists,
      parse .methodStart {} (text "GET / HTTP/1.11\r\n\r\n") = .ok r₁ →
      parse .methodStart {} (text "GET / HTTP/2.1\r\n\r\n") = .ok r₂ →
        DistinguishesVersions headOneEleven headTwoOne r₁.req r₂.req) ∧
      ¬ ParseFits (text "GET / HTTP/1.2147483648\r\n\r\n") := by
  constructor
  · intro h
    have hrender₁ : headOneEleven.render ++ [] = text "GET / HTTP/1.11\r\n\r\n" := by decide
    have hrender₂ : headTwoOne.render ++ [] = text "GET / HTTP/2.1\r\n\r\n" := by decide
    have hparse₁ := parse_render (B := Beast.lists) headOneEleven [] {} rfl
    have hparse₂ := parse_render (B := Beast.lists) headTwoOne [] {} rfl
    rw [hrender₁] at hparse₁
    rw [hrender₂] at hparse₂
    exact absurd (h _ _ hparse₁ hparse₂ (by decide)).1 (by decide)
  · have hrender : headOverflowing.render ++ [] = text "GET / HTTP/1.2147483648\r\n\r\n" := by
      decide
    rw [← hrender, parseFits_render_iff]
    exact fun hfits => absurd hfits.1 (by decide)

end Aite.Http
