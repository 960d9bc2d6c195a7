import Aite.Lib.BlockBuilder

/-!
# Reading another word

A builder writes down the symbols that it has read, except that a word which does not open a
statement takes the place of the end of the statement before. So once a builder has another word
than a given sequence of symbols, it never comes back to that sequence.
-/

namespace BlockGrammar

variable {V W : Type*}

/-- The end of a statement, with its block when it has one. -/
def closing : Option (Block W) → List (Sym W)
  | none => [.stop]
  | some body => .enter :: (body.flatten ++ [.leave])

/-- The symbols of a block under construction, up to the words of the last statement when it has
not ended. -/
def Builder.written (inside : Bool) (b : Builder W) : List (Sym W) :=
  opened b.outer ++ (b.done.flatten ++
    match b.last with
    | none => []
    | some (words, body) => words.map .word ++ if inside then [] else closing body)

/-- At the first place where the symbols read differ from the others, a word was read. -/
def Deviates (target read : List (Sym W)) : Prop :=
  ∃ before sym w after more, target = before ++ sym :: after ∧ read = before ++ .word w :: more ∧
    sym ≠ .word w

variable {starts : V → Bool} {value : V → W} {inside : Bool} {b next last : Builder W}
  {tok : Sym V} {toks : List (Sym V)} {target read more : List (Sym W)}

/-- Between statements the innermost block is written. -/
theorem Builder.written_outside (b : Builder W) :
    b.written false = opened b.outer ++ b.current.flatten := by
  obtain ⟨outer, done, last⟩ := b
  cases last with
  | none => simp [written, current]
  | some last =>
    obtain ⟨words, body⟩ := last
    cases body <;> simp [written, current, closing, Block.single, Block.flatten]

/-- A builder that stands for the symbols read has written them. -/
theorem Follows.written_eq (h : Follows inside b read) : b.written inside = read := by
  cases inside with
  | true =>
    obtain ⟨words, hlast, -, -, -, rfl⟩ := h
    simp [Builder.written, hlast]
  | false =>
    rw [Builder.written_outside]
    exact h.2.2

/-- One more word of the last statement is written behind its words. -/
private theorem written_addWord {w : W} (h : b.addWord w = some next) (inside : Bool) :
    ∃ front rest, b.written inside = front ++ rest ∧ next.written true = front ++ [.word w] ∧
      ∀ sym ∈ rest.head?, sym.isWord = false := by
  obtain ⟨⟨words, body⟩, hlast, rfl⟩ := Option.map_eq_some_iff.mp h
  refine ⟨opened b.outer ++ (b.done.flatten ++ words.map .word),
    if inside then [] else closing body, ?_, ?_, ?_⟩
  · simp [Builder.written, hlast]
  · simp [Builder.written]
  · intro sym hsym
    cases inside with
    | true => cases hsym
    | false =>
      cases body with
      | none => rw [← Option.some.inj hsym]; rfl
      | some body => rw [← Option.some.inj hsym]; rfl

/-- What was written stays, or a word takes the place of what is not a word. -/
theorem written_step (h : Builder.step starts value inside b tok = some next)
    (haccepts : accepts inside b.outer.length (tok :: toks) = true) :
    (∃ more, next.written tok.isWord = b.written inside ++ more) ∨
      ∃ front sym rest w, b.written inside = front ++ sym :: rest ∧ sym.isWord = false ∧
        next.written tok.isWord = front ++ [.word w] := by
  cases tok with
  | word v =>
    rw [Builder.step] at h
    split at h
    · next hopen =>
      left
      rw [← Option.some.inj h, hopen.1, Builder.written_outside]
      exact ⟨[.word (value v)], by simp [Builder.written, Builder.openWith, Sym.isWord]⟩
    · have hadded := written_addWord h inside
      obtain ⟨front, rest, hb, hnext, hrest⟩ := hadded
      cases rest with
      | nil =>
        left
        rw [List.append_nil] at hb
        exact ⟨[.word (value v)], by rw [hb]; exact hnext⟩
      | cons sym rest => exact .inr ⟨front, sym, rest, value v, hb, hrest sym rfl, hnext⟩
  | stop =>
    left
    simp only [accepts, Bool.and_eq_true] at haccepts
    rw [← Option.some.inj h, haccepts.1]
    cases hlast : b.last with
    | none => exact ⟨[], by simp [Builder.written, hlast]⟩
    | some last => exact ⟨closing last.2, by simp [Builder.written, hlast, Sym.isWord]⟩
  | enter =>
    left
    simp only [accepts, Bool.and_eq_true] at haccepts
    obtain ⟨last, hlast, rfl⟩ := Option.map_eq_some_iff.mp h
    rw [haccepts.1]
    exact ⟨[.enter], by simp [Builder.written, hlast, opened, Block.flatten]⟩
  | leave =>
    left
    have hinside : inside = false := by
      cases hdepth : b.outer.length with
      | zero => rw [hdepth] at haccepts; cases haccepts
      | succ depth =>
        rw [hdepth] at haccepts
        simp only [accepts, Bool.and_eq_true, Bool.not_eq_true'] at haccepts
        exact haccepts.1
    rw [hinside, Builder.written_outside]
    rw [Builder.step, Builder.leave] at h
    cases houter : b.outer with
    | nil => simp [houter] at h
    | cons frame outer =>
      simp only [houter, Option.some.injEq] at h
      rw [← h]
      exact ⟨[.leave], by simp [Builder.written, opened, closing, Sym.isWord]⟩

/-- What is accepted goes on behind a symbol at the depth of the builder. -/
theorem accepts_step (h : Builder.step starts value inside b tok = some next)
    (haccepts : accepts inside b.outer.length (tok :: toks) = true) :
    accepts tok.isWord next.outer.length toks = true := by
  cases tok with
  | word v =>
    have houter : next.outer = b.outer := by
      rw [Builder.step] at h
      split at h
      · rw [← Option.some.inj h]
        rfl
      · obtain ⟨last, -, rfl⟩ := Option.map_eq_some_iff.mp h
        rfl
    rw [houter]
    exact haccepts
  | stop =>
    simp only [accepts, Bool.and_eq_true] at haccepts
    rw [← Option.some.inj h]
    exact haccepts.2
  | enter =>
    simp only [accepts, Bool.and_eq_true] at haccepts
    obtain ⟨last, -, rfl⟩ := Option.map_eq_some_iff.mp h
    exact haccepts.2
  | leave =>
    rw [Builder.step, Builder.leave] at h
    cases houter : b.outer with
    | nil => simp [houter] at h
    | cons frame outer =>
      simp only [houter, Option.some.injEq] at h
      rw [← h]
      simp only [houter, List.length_cons, accepts, Bool.and_eq_true] at haccepts
      exact haccepts.2

/-- A sequence deviates from others only. -/
theorem Deviates.ne (h : Deviates target read) : read ≠ target := by
  obtain ⟨before, sym, w, after, more, rfl, rfl, hne⟩ := h
  intro heq
  have hsplit := List.append_cancel_left heq
  exact hne (List.cons.inj hsplit).1.symm

/-- More symbols behind another word. -/
theorem Deviates.append (h : Deviates target read) (more : List (Sym W)) :
    Deviates target (read ++ more) := by
  obtain ⟨before, sym, w, after, rest, htarget, rfl, hne⟩ := h
  exact ⟨before, sym, w, after, rest ++ more, htarget, by simp, hne⟩

/-- A word in the place of what is not a word. -/
theorem Deviates.replace {front rest : List (Sym W)} {sym : Sym W} {w : W}
    (h : Deviates target (front ++ sym :: rest)) (hsym : sym.isWord = false) :
    Deviates target (front ++ [.word w]) := by
  obtain ⟨before, other, u, after, more, rfl, hread, hne⟩ := h
  cases List.append_eq_append_iff.mp hread with
  | inl hlonger =>
    -- the other word stands behind the place
    obtain ⟨between, rfl, hsplit⟩ := hlonger
    cases between with
    | nil =>
      obtain ⟨rfl, -⟩ := List.cons.inj hsplit
      cases hsym
    | cons first between =>
      obtain ⟨rfl, -⟩ := List.cons.inj hsplit
      refine ⟨front, sym, w, between ++ other :: after, [], by simp, rfl, ?_⟩
      intro hword
      rw [hword] at hsym
      cases hsym
  | inr hshorter =>
    obtain ⟨between, rfl, hsplit⟩ := hshorter
    cases between with
    | nil =>
      obtain ⟨rfl, -⟩ := List.cons.inj hsplit
      cases hsym
    | cons first between =>
      obtain ⟨rfl, -⟩ := List.cons.inj hsplit
      exact ⟨before, other, u, after, between ++ [.word w], rfl, by simp, hne⟩

/-- Another word stays in what is written. -/
theorem Deviates.step (h : Deviates target (b.written inside))
    (hstep : Builder.step starts value inside b tok = some next)
    (haccepts : accepts inside b.outer.length (tok :: toks) = true) :
    Deviates target (next.written tok.isWord) := by
  cases written_step hstep haccepts with
  | inl hmore =>
    obtain ⟨more, hmore⟩ := hmore
    rw [hmore]
    exact h.append more
  | inr hreplaced =>
    obtain ⟨front, sym, rest, w, hb, hsym, hnext⟩ := hreplaced
    rw [hb] at h
    rw [hnext]
    exact h.replace hsym

/-- Another word stays in the block that is built. -/
theorem Deviates.build (h : Deviates target (b.written inside))
    (haccepts : accepts inside b.outer.length toks = true)
    (hbuild : build starts value inside b toks = some last) :
    Deviates target last.current.flatten := by
  induction toks generalizing inside b with
  | nil =>
    simp only [accepts, Bool.and_eq_true, Bool.not_eq_true', beq_iff_eq] at haccepts
    obtain ⟨rfl, hdepth⟩ := haccepts
    rw [Builder.written_outside, List.length_eq_zero_iff.mp hdepth, Option.some.inj hbuild] at h
    exact h
  | cons tok toks ih =>
    obtain ⟨next, hstep, hbuild⟩ := Option.bind_eq_some_iff.mp hbuild
    exact ih (h.step hstep haccepts) (accepts_step hstep haccepts) hbuild

/-- A block is not built from symbols of which one is another word, when every statement of the
block begins with a starting word. -/
theorem flatten_ne_of_other_word {before after others : List (Sym V)} {v u : V}
    (h : Follows inside b read)
    (haccepts : accepts inside b.outer.length (before ++ .word v :: after) = true)
    (hfirst : FirstWordsStart starts inside (before ++ .word v :: after))
    (hothers : accepts inside b.outer.length (before ++ .word u :: others) = true)
    (hu : starts u = true) (hne : value u ≠ value v)
    (hbuild : BlockGrammar.build starts value inside b (before ++ .word u :: others) = some last) :
    last.current.flatten ≠ read ++ (before ++ .word v :: after).map (Sym.map value) := by
  induction before generalizing inside b read with
  | nil =>
    obtain ⟨next, hstep, hbuild⟩ := Option.bind_eq_some_iff.mp hbuild
    have hstarts (w : V) (_ : inside = false) (hw : Sym.word u = .word w) : starts w = true :=
      Sym.word.inj hw ▸ hu
    obtain ⟨other, hother, hfollows, hrest⟩ := h.step hothers hstarts
    obtain rfl : other = next := Option.some.inj (hother.symm.trans hstep)
    have hdeviates : Deviates (read ++ .word (value v) :: after.map (Sym.map value))
        (other.written (Sym.word u).isWord) := by
      rw [hfollows.written_eq]
      exact ⟨read, _, value u, _, [], rfl, rfl, fun hword => hne (Sym.word.inj hword).symm⟩
    exact (hdeviates.build hrest hbuild).ne
  | cons tok before ih =>
    obtain ⟨next, hstep, hbuild⟩ := Option.bind_eq_some_iff.mp hbuild
    obtain ⟨other, hother, hfollows, hrest⟩ := h.step haccepts hfirst.1
    obtain rfl : other = next := Option.some.inj (hother.symm.trans hstep)
    have hdiffers := ih hfollows hrest hfirst.2 (accepts_step hstep hothers) hbuild
    rw [List.append_assoc] at hdiffers
    exact hdiffers

end BlockGrammar
