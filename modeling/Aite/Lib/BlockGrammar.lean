import Mathlib.Data.List.Basic
import Mathlib.Data.Nat.Notation

/-!
# Statements and nested blocks

A block is a sequence of statements; a statement is a sequence of words that either ends or
opens a block of its own. Printed as a sequence of symbols, the well-formed blocks are exactly
what an automaton accepts that remembers only the nesting depth and whether it is inside a
statement.

A builder puts a block together while the symbols are read: it keeps the open path of blocks
and may extend the last statement of the innermost one. When some words do not start a
statement of their own, the block it builds prints back to the symbols exactly when none of
these words comes first.
-/

namespace BlockGrammar

variable {V W : Type*}

/-- The symbols of a printed block. -/
inductive Sym (W : Type*) where
  | word (w : W)
  | stop
  | enter
  | leave
  deriving DecidableEq, Repr

/-- Changes the words and keeps the punctuation. -/
def Sym.map (f : V → W) : Sym V → Sym W
  | .word v => .word (f v)
  | .stop => .stop
  | .enter => .enter
  | .leave => .leave

/-- A sequence of statements, each with its words and, when it has one, its own block. -/
inductive Block (W : Type*) where
  | empty
  | simple (words : List W) (rest : Block W)
  | nested (words : List W) (body rest : Block W)
  deriving DecidableEq, Repr

namespace Block

/-- The symbols of a block. -/
def flatten : Block W → List (Sym W)
  | .empty => []
  | .simple words rest => words.map .word ++ .stop :: rest.flatten
  | .nested words body rest =>
    words.map .word ++ .enter :: (body.flatten ++ .leave :: rest.flatten)

/-- Every statement has a word. -/
def Proper : Block W → Prop
  | .empty => True
  | .simple words rest => words ≠ [] ∧ rest.Proper
  | .nested words body rest => words ≠ [] ∧ body.Proper ∧ rest.Proper

/-- The statements of one block and then those of another. -/
def append : Block W → Block W → Block W
  | .empty, other => other
  | .simple words rest, other => .simple words (rest.append other)
  | .nested words body rest, other => .nested words body (rest.append other)

/-- The number of statements, those of inner blocks included. -/
def size : Block W → ℕ
  | .empty => 0
  | .simple _ rest => rest.size + 1
  | .nested _ body rest => body.size + rest.size + 1

/-- The block of one statement. -/
def single (words : List W) : Option (Block W) → Block W
  | none => .simple words .empty
  | some body => .nested words body .empty

/-- The block with other words. -/
def map (f : V → W) : Block V → Block W
  | .empty => .empty
  | .simple words rest => .simple (words.map f) (rest.map f)
  | .nested words body rest => .nested (words.map f) (body.map f) (rest.map f)

/-- Changed words are printed as such. -/
theorem flatten_map (f : V → W) (b : Block V) : (b.map f).flatten = b.flatten.map (Sym.map f) := by
  have hwords (words : List V) :
      (words.map .word).map (Sym.map f) = (words.map f).map .word := by
    rw [List.map_map, List.map_map]
    rfl
  induction b with
  | empty => rfl
  | simple words rest ih =>
    simp only [map, flatten, ih, List.map_append, hwords, List.map_cons, Sym.map]
  | nested words body rest ihbody ih =>
    simp only [map, flatten, ihbody, ih, List.map_append, hwords, List.map_cons, Sym.map]

/-- Words that are changed twice. -/
theorem map_map {U : Type*} (f : V → W) (g : U → V) (b : Block U) :
    (b.map g).map f = b.map (f ∘ g) := by
  induction b with
  | empty => rfl
  | simple words rest ih => simp only [map, List.map_map, ih]
  | nested words body rest ihbody ih => simp only [map, List.map_map, ihbody, ih]

/-- Changing words keeps their number. -/
theorem Proper.map {b : Block V} (hb : b.Proper) (f : V → W) : (b.map f).Proper := by
  induction b with
  | empty => trivial
  | simple words rest ih => exact ⟨by simpa using hb.1, ih hb.2⟩
  | nested words body rest ihbody ih => exact ⟨by simpa using hb.1, ihbody hb.2.1, ih hb.2.2⟩

/-- Appended statements are printed one after the other. -/
@[simp] theorem flatten_append (b c : Block W) : (b.append c).flatten = b.flatten ++ c.flatten := by
  induction b with
  | empty => rfl
  | simple words rest ih => simp only [append, flatten, ih, List.append_assoc, List.cons_append]
  | nested words body rest _ ih =>
    simp only [append, flatten, ih, List.append_assoc, List.cons_append]

/-- Appending keeps every statement. -/
@[simp] theorem size_append (b c : Block W) : (b.append c).size = b.size + c.size := by
  induction b with
  | empty => simp [append, size]
  | simple words rest ih => simp only [append, size, ih]; omega
  | nested words body rest _ ih => simp only [append, size, ih]; omega

/-- Appended statements have words when those of both parts do. -/
theorem Proper.append {b c : Block W} (hb : b.Proper) (hc : c.Proper) : (b.append c).Proper := by
  induction b with
  | empty => exact hc
  | simple words rest ih => exact ⟨hb.1, ih hb.2⟩
  | nested words body rest _ ih => exact ⟨hb.1, hb.2.1, ih hb.2.2⟩

end Block

/-! ## The automaton -/

/-- Whether the automaton accepts, from inside or outside a statement at the given depth. -/
def accepts : Bool → ℕ → List (Sym W) → Bool
  | inside, depth, [] => !inside && depth == 0
  | _, depth, .word _ :: rest => accepts true depth rest
  | inside, depth, .stop :: rest => inside && accepts false depth rest
  | inside, depth, .enter :: rest => inside && accepts false (depth + 1) rest
  | inside, depth + 1, .leave :: rest => !inside && accepts false depth rest
  | _, 0, .leave :: _ => false

/-- Words leave the automaton inside a statement, however many they are. -/
theorem accepts_words {words : List W} (h : words ≠ []) (inside : Bool) (depth : ℕ)
    (rest : List (Sym W)) :
    accepts inside depth (words.map .word ++ rest) = accepts true depth rest := by
  induction words generalizing inside with
  | nil => exact absurd rfl h
  | cons w words ih =>
    change accepts true depth (words.map .word ++ rest) = accepts true depth rest
    by_cases hwords : words = []
    · rw [hwords]
      rfl
    · exact ih hwords true

/-- A block is passed over. -/
theorem accepts_flatten {b : Block W} (hb : b.Proper) (depth : ℕ) (rest : List (Sym W)) :
    accepts false depth (b.flatten ++ rest) = accepts false depth rest := by
  induction b generalizing depth rest with
  | empty => rfl
  | simple words tail ih =>
    rw [Block.flatten, List.append_assoc, accepts_words hb.1]
    exact ih hb.2 depth rest
  | nested words body tail ihbody ih =>
    rw [Block.flatten, List.append_assoc, accepts_words hb.1, List.cons_append, List.append_assoc]
    change accepts false (depth + 1) (body.flatten ++ (.leave :: (tail.flatten ++ rest))) = _
    rw [ihbody hb.2.1]
    exact ih hb.2.2 depth rest

/-- What remains when `depth` blocks are open: their remaining statements and ends. -/
def Closes : ℕ → List (Sym W) → Prop
  | 0, toks => ∃ b : Block W, b.Proper ∧ toks = b.flatten
  | depth + 1, toks => ∃ (b : Block W) (rest : List (Sym W)), b.Proper ∧
      toks = b.flatten ++ .leave :: rest ∧ Closes depth rest

/-- A block comes before what remains. -/
theorem Closes.flatten_append {b : Block W} (hb : b.Proper) {depth : ℕ} {rest : List (Sym W)}
    (h : Closes depth rest) : Closes depth (b.flatten ++ rest) := by
  cases depth with
  | zero =>
    obtain ⟨c, hc, rfl⟩ := h
    exact ⟨b.append c, hb.append hc, (Block.flatten_append b c).symm⟩
  | succ depth =>
    obtain ⟨c, after, hc, rfl, hafter⟩ := h
    refine ⟨b.append c, after, hb.append hc, ?_, hafter⟩
    rw [Block.flatten_append, List.append_assoc]

/-- A statement comes before what remains. -/
theorem Closes.simple {words : List W} (hwords : words ≠ []) {depth : ℕ} {rest : List (Sym W)}
    (h : Closes depth rest) : Closes depth (words.map .word ++ .stop :: rest) := by
  have hflatten := Closes.flatten_append (b := .simple words .empty) ⟨hwords, trivial⟩ h
  simpa [Block.flatten] using hflatten

/-- A statement whose block is closed first comes before what remains. -/
theorem Closes.nested {words : List W} (hwords : words ≠ []) {depth : ℕ} {rest : List (Sym W)}
    (h : Closes (depth + 1) rest) : Closes depth (words.map .word ++ .enter :: rest) := by
  obtain ⟨body, after, hbody, rfl, hafter⟩ := h
  have hflatten :=
    Closes.flatten_append (b := .nested words body .empty) ⟨hwords, hbody, trivial⟩ hafter
  simpa [Block.flatten] using hflatten

/-- The end of the innermost block comes before what remains outside it. -/
theorem Closes.leave {depth : ℕ} {rest : List (Sym W)} (h : Closes depth rest) :
    Closes (depth + 1) (.leave :: rest) :=
  ⟨.empty, rest, trivial, rfl, h⟩

/-- What the automaton accepts closes all open blocks, the words read so far starting the first
statement when it is inside one. -/
theorem closes_of_accepts {toks : List (Sym W)} {inside : Bool} {depth : ℕ}
    (h : accepts inside depth toks = true) (words : List W) (hwords : inside = true ↔ words ≠ []) :
    Closes depth (words.map .word ++ toks) := by
  induction toks generalizing inside depth words with
  | nil =>
    simp only [accepts, Bool.and_eq_true, Bool.not_eq_true', beq_iff_eq] at h
    obtain ⟨rfl, rfl⟩ := h
    have hnil : words = [] := by simpa using hwords
    rw [hnil]
    exact ⟨.empty, trivial, rfl⟩
  | cons tok toks ih =>
    cases tok with
    | word w =>
      have hword : accepts true depth toks = true := h
      have hrest := ih hword (words ++ [w]) (by simp)
      simpa using hrest
    | stop =>
      simp only [accepts, Bool.and_eq_true] at h
      have hrest := ih h.2 [] (by simp)
      exact Closes.simple (hwords.mp h.1) hrest
    | enter =>
      simp only [accepts, Bool.and_eq_true] at h
      have hrest := ih h.2 [] (by simp)
      exact Closes.nested (hwords.mp h.1) hrest
    | leave =>
      cases depth with
      | zero => cases h
      | succ depth =>
        simp only [accepts, Bool.and_eq_true, Bool.not_eq_true'] at h
        have hnil : words = [] := by simpa [h.1] using hwords
        have hrest := ih h.2 [] (by simp)
        rw [hnil]
        exact hrest.leave

/-- The automaton accepts exactly the printed well-formed blocks. -/
theorem accepts_iff {toks : List (Sym W)} :
    accepts false 0 toks = true ↔ ∃ b : Block W, b.Proper ∧ b.flatten = toks := by
  constructor
  · intro h
    obtain ⟨b, hb, hflatten⟩ := closes_of_accepts h [] (by simp)
    exact ⟨b, hb, hflatten.symm⟩
  · intro h
    obtain ⟨b, hb, rfl⟩ := h
    have hpass := accepts_flatten hb 0 []
    rw [List.append_nil] at hpass
    rw [hpass]
    rfl

/-- Behind the first symbols of what is accepted the others are accepted. -/
theorem accepts_suffix {front toks : List (Sym W)} {inside : Bool} {depth : ℕ}
    (h : accepts inside depth (front ++ toks) = true) :
    ∃ within deeper, accepts within deeper toks = true := by
  induction front generalizing inside depth with
  | nil => exact ⟨inside, depth, h⟩
  | cons tok front ih =>
    cases tok with
    | word v =>
      have hword : accepts true depth (front ++ toks) = true := h
      exact ih hword
    | stop =>
      rw [List.cons_append, accepts, Bool.and_eq_true] at h
      exact ih h.2
    | enter =>
      rw [List.cons_append, accepts, Bool.and_eq_true] at h
      exact ih h.2
    | leave =>
      cases depth with
      | zero => cases h
      | succ depth =>
        rw [List.cons_append, accepts, Bool.and_eq_true] at h
        exact ih h.2

/-- Behind a word of what is accepted the statement goes on or ends. -/
theorem accepts_behind_word {before after : List (Sym W)} {w : W} {inside : Bool} {depth : ℕ}
    (h : accepts inside depth (before ++ .word w :: after) = true) :
    ∃ tok rest, after = tok :: rest ∧ tok ≠ .leave := by
  obtain ⟨within, deeper, hword⟩ := accepts_suffix h
  change accepts true deeper after = true at hword
  cases after with
  | nil => cases hword
  | cons tok rest =>
    refine ⟨tok, rest, rfl, fun htok => ?_⟩
    rw [htok] at hword
    cases deeper with
    | zero => cases hword
    | succ deeper => cases hword

/-- The automaton does not accept an unfinished statement. -/
theorem getLast_of_accepts {toks : List (Sym W)} {inside : Bool} {depth : ℕ}
    (h : accepts inside depth toks = true) (w : W) : toks.getLast? ≠ some (.word w) := by
  intro hlast
  obtain ⟨front, rfl⟩ := List.getLast?_eq_some_iff.mp hlast
  obtain ⟨tok, rest, hbehind, -⟩ := accepts_behind_word h
  cases hbehind

/-- The automaton does not look at the words. -/
@[simp] theorem accepts_map (f : V → W) (inside : Bool) (depth : ℕ) (toks : List (Sym V)) :
    accepts inside depth (toks.map (Sym.map f)) = accepts inside depth toks := by
  induction toks generalizing inside depth with
  | nil => rfl
  | cons tok toks ih =>
    cases tok with
    | word v => exact ih true depth
    | stop => exact congrArg (inside && ·) (ih false depth)
    | enter => exact congrArg (inside && ·) (ih false (depth + 1))
    | leave =>
      cases depth with
      | zero => rfl
      | succ depth => exact congrArg (!inside && ·) (ih false depth)

/-- Two sequences of symbols that the automaton does not tell apart. -/
def Alike (toks others : List (Sym W)) : Prop :=
  ∀ (inside : Bool) (depth : ℕ) (rest : List (Sym W)),
    accepts inside depth (toks ++ rest) = accepts inside depth (others ++ rest)

/-- A sequence is like itself. -/
theorem Alike.refl (toks : List (Sym W)) : Alike toks toks := fun _ _ _ => rfl

/-- Replacing the end of a sequence by one alike gives a sequence alike. -/
theorem Alike.append_left (head : List (Sym W)) {toks others : List (Sym W)}
    (h : Alike toks others) : Alike (head ++ toks) (head ++ others) := by
  intro inside depth rest
  rw [List.append_assoc, List.append_assoc]
  induction head generalizing inside depth with
  | nil => exact h inside depth rest
  | cons tok head ih =>
    cases tok with
    | word w => exact ih true depth
    | stop => exact congrArg (inside && ·) (ih false depth)
    | enter => exact congrArg (inside && ·) (ih false (depth + 1))
    | leave =>
      cases depth with
      | zero => rfl
      | succ depth => exact congrArg (!inside && ·) (ih false depth)

/-- Sequences alike come before sequences alike. -/
theorem Alike.append {toks others after afterwards : List (Sym W)} (h : Alike toks others)
    (hafter : Alike after afterwards) : Alike (toks ++ after) (others ++ afterwards) := by
  intro inside depth rest
  rw [Alike.append_left toks hafter, List.append_assoc, List.append_assoc]
  exact h inside depth (afterwards ++ rest)

/-- All nonempty sequences of words are alike. -/
theorem alike_words {words others : List W} (hwords : words ≠ []) (hothers : others ≠ []) :
    Alike (words.map .word) (others.map .word) := by
  intro inside depth rest
  rw [accepts_words hwords, accepts_words hothers]

/-- Something with which the symbols are accepted: they lead the automaton into no error. -/
def Viable (toks : List (Sym W)) : Prop := ∃ more, accepts false 0 (toks ++ more) = true

/-- The first symbols of what leads into no error lead into none. -/
theorem Viable.of_append {toks others : List (Sym W)} (h : Viable (toks ++ others)) :
    Viable toks := by
  obtain ⟨more, hmore⟩ := h
  rw [List.append_assoc] at hmore
  exact ⟨others ++ more, hmore⟩

/-- What is accepted leads into no error. -/
theorem viable_of_accepts {toks : List (Sym W)} (h : accepts false 0 toks = true) : Viable toks :=
  ⟨[], by rw [List.append_nil]; exact h⟩

/-- What is like a sequence that leads into no error leads into none. -/
theorem Viable.of_alike {toks others : List (Sym W)} (h : Viable toks) (halike : Alike toks others) :
    Viable others := by
  obtain ⟨more, hmore⟩ := h
  rw [halike false 0 more] at hmore
  exact ⟨more, hmore⟩

/-- Sequences alike may be followed by the same. -/
theorem Alike.append_right {toks others : List (Sym W)} (h : Alike toks others)
    (after : List (Sym W)) : Alike (toks ++ after) (others ++ after) := h.append (.refl after)

/-! ## The block of its symbols -/

/-- What may follow the statements of a block. -/
def Ends (tail : List (Sym W)) : Prop := tail = [] ∨ ∃ rest, tail = .leave :: rest

/-- Words before punctuation are determined. -/
private theorem words_injective {words others : List W} {a c : Sym W} {after afterwards : List (Sym W)}
    (ha : ∀ w, a ≠ .word w) (hc : ∀ w, c ≠ .word w)
    (h : words.map .word ++ a :: after = others.map .word ++ c :: afterwards) :
    words = others ∧ a = c ∧ after = afterwards := by
  induction words generalizing others with
  | nil =>
    cases others with
    | nil => exact ⟨rfl, List.cons.inj h⟩
    | cons w others => exact absurd (List.cons.inj h).1 (ha w)
  | cons v words ih =>
    cases others with
    | nil => exact absurd (List.cons.inj h).1.symm (hc v)
    | cons w others =>
      have hinj := List.cons.inj h
      have hrest := ih hinj.2
      exact ⟨congrArg₂ List.cons (Sym.word.inj hinj.1) hrest.1, hrest.2⟩

/-- A statement does not start with the end of a block. -/
private theorem words_ne_ends {words : List W} (hwords : words ≠ []) {tail after : List (Sym W)}
    (htail : Ends tail) : words.map .word ++ after ≠ tail := by
  intro h
  cases words with
  | nil => exact hwords rfl
  | cons w words =>
    cases htail with
    | inl hnil => rw [hnil] at h; cases h
    | inr hleave =>
      obtain ⟨rest, rfl⟩ := hleave
      cases h

/-- Blocks with the same symbols are the same, whatever follows them. -/
private theorem flatten_append_injective {b c : Block W} (hb : b.Proper) (hc : c.Proper)
    {tail others : List (Sym W)} (htail : Ends tail) (hothers : Ends others)
    (h : b.flatten ++ tail = c.flatten ++ others) : b = c ∧ tail = others := by
  induction b generalizing c tail others with
  | empty =>
    cases c with
    | empty => exact ⟨rfl, h⟩
    | simple words rest =>
      simp only [Block.flatten, List.nil_append, List.append_assoc] at h
      exact absurd h.symm (words_ne_ends hc.1 htail)
    | nested words body rest =>
      simp only [Block.flatten, List.nil_append, List.append_assoc] at h
      exact absurd h.symm (words_ne_ends hc.1 htail)
  | simple words rest ih =>
    simp only [Block.flatten, List.append_assoc, List.cons_append] at h
    cases c with
    | empty => exact absurd h (words_ne_ends hb.1 hothers)
    | simple words' rest' =>
      simp only [Block.flatten, List.append_assoc, List.cons_append] at h
      obtain ⟨rfl, -, hrest⟩ := words_injective nofun nofun h
      have hinj := ih hb.2 hc.2 htail hothers hrest
      exact ⟨congrArg (Block.simple words) hinj.1, hinj.2⟩
    | nested words' body' rest' =>
      simp only [Block.flatten, List.append_assoc, List.cons_append] at h
      obtain ⟨-, hne, -⟩ := words_injective nofun nofun h
      cases hne
  | nested words body rest ihbody ih =>
    simp only [Block.flatten, List.append_assoc, List.cons_append] at h
    cases c with
    | empty => exact absurd h (words_ne_ends hb.1 hothers)
    | simple words' rest' =>
      simp only [Block.flatten, List.append_assoc, List.cons_append] at h
      obtain ⟨-, hne, -⟩ := words_injective nofun nofun h
      cases hne
    | nested words' body' rest' =>
      simp only [Block.flatten, List.append_assoc, List.cons_append] at h
      obtain ⟨rfl, -, hrest⟩ := words_injective nofun nofun h
      obtain ⟨rfl, hleave⟩ := ihbody hb.2.1 hc.2.1 (.inr ⟨_, rfl⟩) (.inr ⟨_, rfl⟩) hrest
      have hinj := ih hb.2.2 hc.2.2 htail hothers (List.cons.inj hleave).2
      exact ⟨congrArg (Block.nested words body) hinj.1, hinj.2⟩

/-- A well-formed block is determined by its symbols. -/
theorem flatten_injective {b c : Block W} (hb : b.Proper) (hc : c.Proper)
    (h : b.flatten = c.flatten) : b = c :=
  (flatten_append_injective hb hc (.inl rfl) (.inl rfl) (congrArg (· ++ []) h)).1

end BlockGrammar
