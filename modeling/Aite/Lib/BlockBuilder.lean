import Aite.Lib.BlockGrammar
import Mathlib.Algebra.GroupWithZero.Nat

/-!
# Building a block while its symbols are read

A builder keeps the open path of blocks and may extend the last statement of the innermost
one. A word that comes first in its statement opens a new statement only if it is of a starting
kind, any other word goes to the last statement there is. The block that is built prints back
to the symbols that were read exactly when every statement begins with a starting word:
otherwise a statement is lost.
-/

namespace BlockGrammar

variable {V W : Type*}

/-- A block under construction. -/
structure Builder (W : Type*) where
  /-- The blocks around the innermost one, from the inside out: the statements before the open
  one and the words of the open one. -/
  outer : List (Block W × List W)
  /-- The statements of the innermost block but the last. -/
  done : Block W
  /-- The words of its last statement and the block of that statement. -/
  last : Option (List W × Option (Block W))

namespace Builder

/-- Nothing was read. -/
def start : Builder W := ⟨[], .empty, none⟩

/-- The innermost block. -/
def current (b : Builder W) : Block W :=
  match b.last with
  | none => b.done
  | some (words, body) => b.done.append (.single words body)

/-- A new statement. -/
def openWith (b : Builder W) (w : W) : Builder W :=
  { b with done := b.current, last := some ([w], none) }

/-- One more word of the last statement. -/
def addWord (b : Builder W) (w : W) : Option (Builder W) :=
  b.last.map fun last => { b with last := some (last.1 ++ [w], last.2) }

/-- A new block of the last statement, in the place of any that it had. -/
def enter (b : Builder W) : Option (Builder W) :=
  b.last.map fun last => ⟨(b.done, last.1) :: b.outer, .empty, none⟩

/-- The end of the innermost block. -/
def leave (b : Builder W) : Option (Builder W) :=
  match b.outer with
  | [] => none
  | (done, words) :: outer => some ⟨outer, done, some (words, some b.current)⟩

variable (starts : V → Bool) (value : V → W)

/-- What one symbol does, inside or outside a statement. -/
def step (inside : Bool) (b : Builder W) : Sym V → Option (Builder W)
  | .word v =>
    if inside = false ∧ starts v = true then some (b.openWith (value v)) else b.addWord (value v)
  | .stop => some b
  | .enter => b.enter
  | .leave => b.leave

end Builder

/-- Whether a symbol is a word. -/
def Sym.isWord : Sym V → Bool
  | .word _ => true
  | _ => false

open Builder

variable (starts : V → Bool) (value : V → W)

/-- What a sequence of symbols builds. -/
def build (inside : Bool) (b : Builder W) : List (Sym V) → Option (Builder W)
  | [] => some b
  | tok :: rest => (step starts value inside b tok).bind fun next => build tok.isWord next rest

/-- Every statement begins with a starting word. -/
def FirstWordsStart (inside : Bool) : List (Sym V) → Prop
  | [] => True
  | tok :: rest =>
    (∀ v, inside = false → tok = .word v → starts v = true) ∧ FirstWordsStart tok.isWord rest

variable {starts value}

/-- Inside a statement any words may come. -/
theorem firstWordsStart_words {words : List V} {rest : List (Sym V)}
    (h : FirstWordsStart starts true rest) :
    FirstWordsStart starts true (words.map .word ++ rest) := by
  induction words with
  | nil => exact h
  | cons v words ih => exact ⟨nofun, ih⟩

/-- A statement begins with its first word. -/
theorem firstWordsStart_cons {v : V} {words : List V} {tok : Sym V} {rest : List (Sym V)}
    (hv : starts v = true) (htok : tok.isWord = false) (h : FirstWordsStart starts false rest) :
    FirstWordsStart starts false ((v :: words).map .word ++ tok :: rest) := by
  refine ⟨fun w _ hw => ?_, firstWordsStart_words ⟨nofun, htok ▸ h⟩⟩
  rw [← Sym.word.inj hw]
  exact hv

/-- What the words are replaced by decides whether they start statements. -/
theorem firstWordsStart_map {U : Type*} (f : U → V) {toks : List (Sym U)} {inside : Bool}
    (h : FirstWordsStart (fun u => starts (f u)) inside toks) :
    FirstWordsStart starts inside (toks.map (Sym.map f)) := by
  induction toks generalizing inside with
  | nil => trivial
  | cons tok toks ih =>
    cases tok with
    | word u =>
      refine ⟨fun v hinside hv => ?_, ih h.2⟩
      rw [← Sym.word.inj hv]
      exact h.1 u hinside rfl
    | stop => exact ⟨nofun, ih h.2⟩
    | enter => exact ⟨nofun, ih h.2⟩
    | leave => exact ⟨nofun, ih h.2⟩

/-! ## Blocks that print back -/

/-- The symbols that lead into the innermost block. -/
def opened : List (Block W × List W) → List (Sym W)
  | [] => []
  | (done, words) :: outer => opened outer ++ (done.flatten ++ (words.map .word ++ [.enter]))

/-- The builder stands for the symbols read, inside or outside a statement. -/
def Follows : Bool → Builder W → List (Sym W) → Prop
  | true, b, read => ∃ words, b.last = some (words, none) ∧ words ≠ [] ∧ b.done.Proper ∧
      (∀ p ∈ b.outer, p.1.Proper ∧ p.2 ≠ []) ∧
      opened b.outer ++ (b.done.flatten ++ words.map .word) = read
  | false, b, read => b.current.Proper ∧ (∀ p ∈ b.outer, p.1.Proper ∧ p.2 ≠ []) ∧
      opened b.outer ++ b.current.flatten = read

/-- At the beginning nothing was read. -/
theorem follows_start : Follows false (start : Builder W) [] :=
  ⟨trivial, fun _ hmem => absurd hmem List.not_mem_nil, rfl⟩

/-- A starting word opens a statement outside and goes on with it inside. -/
private theorem Follows.word {inside : Bool} {b : Builder W} {read : List (Sym W)}
    (h : Follows inside b read) (value : V → W) {v : V} (hv : inside = false → starts v = true) :
    ∃ next, step starts value inside b (.word v) = some next ∧
      Follows true next (read ++ [.word (value v)]) ∧ next.outer = b.outer := by
  cases inside with
  | false =>
    obtain ⟨hcurrent, houter, rfl⟩ := h
    refine ⟨b.openWith (value v), by simp [step, hv], ?_, rfl⟩
    refine ⟨[value v], rfl, List.cons_ne_nil _ _, hcurrent, houter, ?_⟩
    simp [openWith]
  | true =>
    obtain ⟨words, hlast, hwords, hdone, houter, rfl⟩ := h
    refine ⟨{ b with last := some (words ++ [value v], none) }, ?_, ?_, rfl⟩
    · simp [step, addWord, hlast]
    · exact ⟨words ++ [value v], rfl, by simp, hdone, houter, by simp⟩

/-- A statement that has ended is the last one of the innermost block. -/
private theorem Follows.stop {b : Builder W} {read : List (Sym W)} (h : Follows true b read) :
    Follows false b (read ++ [.stop]) := by
  obtain ⟨words, hlast, hwords, hdone, houter, rfl⟩ := h
  have hcurrent : b.current = b.done.append (.simple words .empty) := by
    rw [current, hlast]
    rfl
  refine ⟨?_, houter, ?_⟩
  · rw [hcurrent]
    exact hdone.append ⟨hwords, trivial⟩
  · simp [hcurrent, Block.flatten]

/-- A block that is entered is empty. -/
private theorem Follows.enter {b : Builder W} {read : List (Sym W)} (h : Follows true b read) :
    ∃ next, b.enter = some next ∧ Follows false next (read ++ [.enter]) ∧
      next.outer.length = b.outer.length + 1 := by
  obtain ⟨words, hlast, hwords, hdone, houter, rfl⟩ := h
  refine ⟨⟨(b.done, words) :: b.outer, .empty, none⟩, by simp [Builder.enter, hlast], ?_, rfl⟩
  refine ⟨trivial, ?_, by simp [opened, current, Block.flatten]⟩
  intro p hp
  cases hp with
  | head => exact ⟨hdone, hwords⟩
  | tail _ hp => exact houter p hp

/-- A block that is left is the block of the statement it was opened for. -/
private theorem Follows.leave {b : Builder W} {read : List (Sym W)} (h : Follows false b read)
    {depth : ℕ} (hdepth : b.outer.length = depth + 1) :
    ∃ next, b.leave = some next ∧ Follows false next (read ++ [.leave]) ∧
      next.outer.length = depth := by
  obtain ⟨hcurrent, houter, rfl⟩ := h
  cases hb : b.outer with
  | nil => rw [hb] at hdepth; cases hdepth
  | cons frame outer =>
    obtain ⟨done, words⟩ := frame
    rw [hb] at hdepth houter
    have hframe := houter (done, words) List.mem_cons_self
    refine ⟨⟨outer, done, some (words, some b.current)⟩, by simp [Builder.leave, hb], ?_, ?_⟩
    · refine ⟨hframe.1.append ⟨hframe.2, hcurrent, trivial⟩, ?_, ?_⟩
      · intro p hp
        exact houter p (List.mem_cons_of_mem _ hp)
      · simp [opened, current, Block.single, Block.flatten]
    · exact Nat.succ.inj hdepth

/-- A symbol that is accepted goes on with the builder, when a statement begins with a starting
word. The depth is the number of open blocks. -/
theorem Follows.step {tok : Sym V} {toks : List (Sym V)} {inside : Bool} {b : Builder W}
    {read : List (Sym W)} (h : Follows inside b read)
    (haccepts : accepts inside b.outer.length (tok :: toks) = true)
    (hfirst : ∀ v, inside = false → tok = .word v → starts v = true) :
    ∃ next, Builder.step starts value inside b tok = some next ∧
      Follows tok.isWord next (read ++ [tok.map value]) ∧
      accepts tok.isWord next.outer.length toks = true := by
  cases tok with
  | word v =>
    obtain ⟨next, hstep, hnext, houter⟩ := h.word value (hfirst v · rfl)
    rw [← houter] at haccepts
    exact ⟨next, hstep, hnext, haccepts⟩
  | stop =>
    simp only [accepts, Bool.and_eq_true] at haccepts
    obtain ⟨rfl, haccepts⟩ := haccepts
    exact ⟨b, rfl, h.stop, haccepts⟩
  | enter =>
    simp only [accepts, Bool.and_eq_true] at haccepts
    obtain ⟨rfl, haccepts⟩ := haccepts
    obtain ⟨next, hstep, hnext, hlength⟩ := h.enter
    rw [← hlength] at haccepts
    exact ⟨next, hstep, hnext, haccepts⟩
  | leave =>
    cases hdepth : b.outer.length with
    | zero => rw [hdepth] at haccepts; cases haccepts
    | succ depth =>
      rw [hdepth] at haccepts
      simp only [accepts, Bool.and_eq_true, Bool.not_eq_true'] at haccepts
      obtain ⟨rfl, haccepts⟩ := haccepts
      obtain ⟨next, hstep, hnext, hlength⟩ := h.leave hdepth
      rw [← hlength] at haccepts
      exact ⟨next, hstep, hnext, haccepts⟩

/-- When every statement begins with a starting word, what is accepted is built. -/
theorem build_follows {toks : List (Sym V)} {inside : Bool} {depth : ℕ}
    (haccepts : accepts inside depth toks = true) (hfirst : FirstWordsStart starts inside toks)
    {b : Builder W} {read : List (Sym W)} (h : Follows inside b read)
    (hdepth : b.outer.length = depth) :
    ∃ last, build starts value inside b toks = some last ∧ last.outer = [] ∧
      Follows false last (read ++ toks.map (Sym.map value)) := by
  subst hdepth
  induction toks generalizing inside b read with
  | nil =>
    simp only [accepts, Bool.and_eq_true, Bool.not_eq_true', beq_iff_eq] at haccepts
    obtain ⟨rfl, hdepth⟩ := haccepts
    exact ⟨b, rfl, List.length_eq_zero_iff.mp hdepth, by simpa using h⟩
  | cons tok toks ih =>
    obtain ⟨next, hstep, hnext, haccepts⟩ := h.step haccepts hfirst.1
    rw [List.map_cons, List.append_cons, build, hstep]
    exact ih hfirst.2 hnext haccepts

/-! ## Statements that are lost -/

/-- The number of statements under construction. -/
def Builder.size (b : Builder W) : ℕ :=
  (b.outer.map fun frame => frame.1.size + 1).sum + b.current.size

/-- The number of statements that end or open a block among the symbols. -/
def endings : List (Sym V) → ℕ
  | [] => 0
  | .stop :: rest => endings rest + 1
  | .enter :: rest => endings rest + 1
  | .word _ :: rest => endings rest
  | .leave :: rest => endings rest

/-- Words end no statement. -/
@[simp] theorem endings_words (words : List V) : endings (words.map .word) = 0 := by
  induction words with
  | nil => rfl
  | cons w words ih => exact ih

/-- The endings of a sequence are those of its parts. -/
@[simp] theorem endings_append (toks rest : List (Sym V)) :
    endings (toks ++ rest) = endings toks + endings rest := by
  induction toks with
  | nil => simp [endings]
  | cons tok toks ih => cases tok <;> simp only [List.cons_append, endings, ih] <;> omega

/-- The words do not matter for the endings. -/
@[simp] theorem endings_map (f : V → W) (toks : List (Sym V)) :
    endings (toks.map (Sym.map f)) = endings toks := by
  induction toks with
  | nil => rfl
  | cons tok toks ih => cases tok <;> simp only [List.map_cons, Sym.map, endings, ih]

/-- Every statement ends once or opens one block. -/
theorem endings_flatten (b : Block W) : endings b.flatten = b.size := by
  induction b with
  | empty => rfl
  | simple words rest ih =>
    simp only [Block.flatten, endings_append, endings_words, endings, ih, Block.size]
    omega
  | nested words body rest ihbody ih =>
    simp only [Block.flatten, endings_append, endings_words, endings, ihbody, ih, Block.size]
    omega

/-- The statements that begin with a word of another kind. -/
def strays (starts : V → Bool) (inside : Bool) : List (Sym V) → ℕ
  | [] => 0
  | .word v :: rest =>
    (if inside = false ∧ starts v = false then 1 else 0) + strays starts true rest
  | .stop :: rest => strays starts false rest
  | .enter :: rest => strays starts false rest
  | .leave :: rest => strays starts false rest

/-- Without such a statement every statement begins with a starting word. -/
theorem firstWordsStart_of_strays {toks : List (Sym V)} {inside : Bool}
    (h : strays starts inside toks = 0) : FirstWordsStart starts inside toks := by
  induction toks generalizing inside with
  | nil => trivial
  | cons tok toks ih =>
    cases tok with
    | word v =>
      simp only [strays, Nat.add_eq_zero_iff] at h
      refine ⟨?_, ih h.2⟩
      intro w hinside hw
      cases hw
      by_contra hstarts
      simp [hinside, hstarts] at h
    | stop => exact ⟨nofun, ih h⟩
    | enter => exact ⟨nofun, ih h⟩
    | leave => exact ⟨nofun, ih h⟩

/-- A new statement is one more. -/
private theorem size_openWith (b : Builder W) (w : W) : (b.openWith w).size = b.size + 1 := by
  simp only [Builder.size, openWith, current, Block.size_append, Block.single, Block.size]
  omega

/-- A word of the last statement adds no statement. -/
private theorem size_addWord {b next : Builder W} {w : W} (h : b.addWord w = some next) :
    next.size = b.size := by
  obtain ⟨last, hlast, rfl⟩ := Option.map_eq_some_iff.mp h
  obtain ⟨words, body⟩ := last
  cases body <;> simp [Builder.size, current, hlast, Block.single, Block.size]

/-- Entering a block adds no statement. -/
private theorem size_enter {b next : Builder W} (h : b.enter = some next) :
    next.size ≤ b.size := by
  obtain ⟨last, hlast, rfl⟩ := Option.map_eq_some_iff.mp h
  obtain ⟨words, body⟩ := last
  cases body <;> simp [Builder.size, current, hlast, Block.single, Block.size] <;> omega

/-- Leaving a block adds no statement. -/
private theorem size_leave {b next : Builder W} (h : b.leave = some next) :
    next.size = b.size := by
  cases hb : b.outer with
  | nil => simp [Builder.leave, hb] at h
  | cons frame outer =>
    simp only [Builder.leave, hb, Option.some.injEq] at h
    subst h
    simp [Builder.size, current, hb, Block.single, Block.size]
    omega

/-- What is built has no statement for those that begin with a word of another kind. -/
theorem size_add_strays_le {toks : List (Sym V)} {inside : Bool} {depth : ℕ}
    (haccepts : accepts inside depth toks = true) {b last : Builder W}
    (h : build starts value inside b toks = some last) :
    last.size + strays starts inside toks + inside.toNat ≤ b.size + endings toks := by
  induction toks generalizing inside depth b with
  | nil =>
    simp only [accepts, Bool.and_eq_true, Bool.not_eq_true'] at haccepts
    rw [haccepts.1, Option.some.inj h]
    simp [strays, endings]
  | cons tok toks ih =>
    obtain ⟨next, hstep, hbuild⟩ := Option.bind_eq_some_iff.mp h
    cases tok with
    | word v =>
      have haccepts' : accepts true depth toks = true := haccepts
      have hrest := ih haccepts' hbuild
      simp only [step] at hstep
      split at hstep
      · next hopen =>
        have hsize := size_openWith b (value v)
        rw [Option.some.inj hstep] at hsize
        have houtside : inside.toNat = 0 := by rw [hopen.1]; rfl
        have hstray : ¬ (inside = false ∧ starts v = false) := by simp [hopen.2]
        simp only [strays, endings, if_neg hstray, Bool.toNat_true] at hrest ⊢
        omega
      · have hsize := size_addWord hstep
        have hstray : (if inside = false ∧ starts v = false then 1 else 0) + inside.toNat ≤ 1 := by
          cases inside with
          | false => simp only [true_and, Bool.toNat_false]; split <;> omega
          | true => simp
        simp only [strays, endings, Bool.toNat_true] at hrest ⊢
        omega
    | stop =>
      simp only [accepts, Bool.and_eq_true] at haccepts
      have hrest := ih haccepts.2 hbuild
      rw [← Option.some.inj hstep] at hrest
      simp only [strays, endings, haccepts.1, Bool.toNat_true, Bool.toNat_false] at hrest ⊢
      omega
    | enter =>
      simp only [accepts, Bool.and_eq_true] at haccepts
      have hrest := ih haccepts.2 hbuild
      have hsize := size_enter hstep
      simp only [strays, endings, haccepts.1, Bool.toNat_true, Bool.toNat_false] at hrest ⊢
      omega
    | leave =>
      cases depth with
      | zero => cases haccepts
      | succ depth =>
        simp only [accepts, Bool.and_eq_true, Bool.not_eq_true'] at haccepts
        have hrest := ih haccepts.2 hbuild
        have hsize := size_leave hstep
        simp only [strays, endings, haccepts.1, Bool.toNat_false] at hrest ⊢
        omega

/-- What is built prints back to the symbols exactly when every statement begins with a starting
word. -/
theorem build_flatten_iff {toks : List (Sym V)} (haccepts : accepts false 0 toks = true)
    {last : Builder W} (h : build starts value false start toks = some last) :
    (last.current.Proper ∧ last.current.flatten = toks.map (Sym.map value)) ↔
      FirstWordsStart starts false toks := by
  constructor
  · intro hprints
    have hsize := size_add_strays_le haccepts h
    have hendings := endings_flatten last.current
    rw [hprints.2, endings_map] at hendings
    apply firstWordsStart_of_strays
    simp only [Builder.size, start, current, Block.size, Bool.toNat_false, List.map_nil,
      List.sum_nil] at hsize
    simp only [current] at hendings
    omega
  · intro hfirst
    obtain ⟨b, hb, houter, hcurrent, -, hprints⟩ := build_follows haccepts hfirst follows_start rfl
    rw [h] at hb
    cases hb
    rw [houter] at hprints
    exact ⟨hcurrent, hprints⟩

end BlockGrammar
