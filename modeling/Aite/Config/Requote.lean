import Aite.Config.Lookup
import Aite.Config.ParseTree

/-!
# Quoting arguments of a config

The parser keeps the quotes of a quoted string in its value. So a config in which arguments were
put between quotes is parsed into the same tree, except that these words carry their quotes, and
a field that is looked up has them too.
-/

namespace Aite.Config

open BlockGrammar

/-- A word between double quotes. -/
def quoteWord (w : Text) : Text := '"'.toUInt8 :: (w ++ ['"'.toUInt8])

/-- A word without a backslash and without a quote. -/
def IsPlain (w : Text) : Prop := '\\'.toUInt8 ∉ w ∧ '"'.toUInt8 ∉ w

/-- A word as it was, or between quotes. -/
def SameOrQuoted (w w' : Text) : Prop := w' = w ∨ (IsPlain w ∧ w' = quoteWord w)

/-- The words of a statement, of which any but the first may be between quotes. -/
def WordsRequoted (words words' : List Text) : Prop :=
  ∃ first args args', words = first :: args ∧ words' = first :: args' ∧
    List.Forall₂ SameOrQuoted args args'

/-- A config tree in which arguments may be between quotes. -/
inductive Requoted : Block Text → Block Text → Prop
  | empty : Requoted .empty .empty
  | simple {words words' : List Text} {rest rest' : Block Text} : WordsRequoted words words' →
      Requoted rest rest' → Requoted (.simple words rest) (.simple words' rest')
  | nested {words words' : List Text} {body body' rest rest' : Block Text} :
      WordsRequoted words words' → Requoted body body' → Requoted rest rest' →
      Requoted (.nested words body rest) (.nested words' body' rest')

/-- A token sequence in which bare words inside a statement may be between quotes. -/
inductive Requotes : Bool → List (Sym Token) → List (Sym Token) → Prop
  | nil {inside : Bool} : Requotes inside [] []
  | same {inside : Bool} {tok : Sym Token} {toks toks' : List (Sym Token)} :
      Requotes tok.isWord toks toks' → Requotes inside (tok :: toks) (tok :: toks')
  | quote {w : Text} {toks toks' : List (Sym Token)} : IsPlain w → Requotes true toks toks' →
      Requotes true (.word ⟨false, w⟩ :: toks) (.word ⟨true, quoteWord w⟩ :: toks')

/-- Trees under construction in which arguments may be between quotes. -/
structure BuildersRequoted (b b' : Builder Text) : Prop where
  outer : List.Forall₂ (fun p p' => Requoted p.1 p'.1 ∧ WordsRequoted p.2 p'.2) b.outer b'.outer
  done : Requoted b.done b'.done
  last : Option.Rel (fun l l' => WordsRequoted l.1 l'.1 ∧ Option.Rel Requoted l.2 l'.2)
    b.last b'.last

variable {inside : Bool} {toks toks' : List (Sym Token)} {b b' : Builder Text} {w w' : Text}
  {config config' : Block Text}

/-! ## Building the tree -/

/-- Statements behind each other. -/
theorem Requoted.append {other other' : Block Text} (h : Requoted config config')
    (hother : Requoted other other') : Requoted (config.append other) (config'.append other') := by
  induction h with
  | empty => exact hother
  | simple hwords _ ih => exact .simple hwords ih
  | nested hwords hbody _ _ ih => exact .nested hwords hbody ih

/-- The innermost block. -/
theorem BuildersRequoted.current (h : BuildersRequoted b b') : Requoted b.current b'.current := by
  obtain ⟨outer, done, last⟩ := b
  obtain ⟨outer', done', last'⟩ := b'
  have hdone : Requoted done done' := h.done
  have hlast := h.last
  cases hlast with
  | none => exact hdone
  | @some l l' hlast =>
    obtain ⟨words, body⟩ := l
    obtain ⟨words', body'⟩ := l'
    obtain ⟨hwords, hbody⟩ := hlast
    cases hbody with
    | none => exact hdone.append (.simple hwords .empty)
    | some hbody => exact hdone.append (.nested hwords hbody .empty)

/-- One more word of the last statement. -/
theorem BuildersRequoted.addWord (h : BuildersRequoted b b') (hw : SameOrQuoted w w') :
    Option.Rel BuildersRequoted (b.addWord w) (b'.addWord w') := by
  obtain ⟨outer, done, last⟩ := b
  obtain ⟨outer', done', last'⟩ := b'
  have hlast := h.last
  cases hlast with
  | none => exact .none
  | some hlast =>
    obtain ⟨⟨first, args, args', heq, heq', hargs⟩, hbody⟩ := hlast
    refine .some ⟨h.outer, h.done, .some ⟨⟨first, args ++ [w], args' ++ [w'], ?_, ?_, ?_⟩, hbody⟩⟩
    · rw [heq, List.cons_append]
    · rw [heq', List.cons_append]
    · exact List.rel_append hargs (.cons hw .nil)

/-- What one symbol does to both trees. -/
theorem BuildersRequoted.step (h : BuildersRequoted b b') (tok : Sym Token) :
    Option.Rel BuildersRequoted (Builder.step Token.starts Token.value inside b tok)
      (Builder.step Token.starts Token.value inside b' tok) := by
  cases tok with
  | word v =>
    simp only [Builder.step]
    split_ifs
    · exact .some ⟨h.outer, h.current, .some ⟨⟨v.value, [], [], rfl, rfl, .nil⟩, .none⟩⟩
    · exact h.addWord (.inl rfl)
  | stop => exact .some h
  | enter =>
    obtain ⟨outer, done, last⟩ := b
    obtain ⟨outer', done', last'⟩ := b'
    have hlast := h.last
    cases hlast with
    | none => exact .none
    | some hlast => exact .some ⟨.cons ⟨h.done, hlast.1⟩ h.outer, .empty, .none⟩
  | leave =>
    have hcurrent := h.current
    obtain ⟨outer, done, last⟩ := b
    obtain ⟨outer', done', last'⟩ := b'
    have houter := h.outer
    cases houter with
    | nil => exact .none
    | cons hp houter => exact .some ⟨houter, hp.1, .some ⟨hp.2, .some hcurrent⟩⟩

/-- Both token sequences build trees that differ in quotes only. -/
theorem build_requoted (htoks : Requotes inside toks toks') (h : BuildersRequoted b b') :
    Option.Rel BuildersRequoted (build Token.starts Token.value inside b toks)
      (build Token.starts Token.value inside b' toks') := by
  induction htoks generalizing b b' with
  | nil => exact .some h
  | @same inside tok toks toks' _ ih =>
    have hstep : Option.Rel BuildersRequoted (Builder.step Token.starts Token.value inside b tok)
        (Builder.step Token.starts Token.value inside b' tok) := h.step tok
    rw [build, build]
    generalize Builder.step Token.starts Token.value inside b tok = next at hstep
    generalize Builder.step Token.starts Token.value inside b' tok = next' at hstep
    cases hstep with
    | none => exact .none
    | some hnext => exact ih hnext
  | @quote w toks toks' hplain _ ih =>
    have hstep := h.addWord (.inr ⟨hplain, rfl⟩ : SameOrQuoted w (quoteWord w))
    have hleft : Builder.step Token.starts Token.value true b (.word ⟨false, w⟩) = b.addWord w := rfl
    have hright : Builder.step Token.starts Token.value true b' (.word ⟨true, quoteWord w⟩) =
        b'.addWord (quoteWord w) := rfl
    rw [build, build, hleft, hright]
    generalize b.addWord w = next at hstep
    generalize b'.addWord (quoteWord w) = next' at hstep
    cases hstep with
    | none => exact .none
    | some hnext => exact ih hnext

/-- Quotes do not change whether a token sequence is accepted. -/
theorem accepts_requotes (h : Requotes inside toks toks') (depth : ℕ) :
    accepts inside depth toks' = accepts inside depth toks := by
  induction h generalizing depth with
  | nil => rfl
  | @same inside tok toks toks' _ ih =>
    cases tok with
    | word v => exact ih depth
    | stop => exact congrArg (inside && ·) (ih depth)
    | enter => exact congrArg (inside && ·) (ih (depth + 1))
    | leave =>
      cases depth with
      | zero => rfl
      | succ depth => exact congrArg (!inside && ·) (ih depth)
  | quote _ _ ih => exact ih depth

/-- A config in which arguments are put between quotes is accepted, and its tree differs in these
quotes only. -/
theorem parseText_requoted {file file' : Text} {store : Store}
    (hparse : parseText file = .ok (true, store)) (hconfig : Holds store 0 config)
    (htoks : TokensOf file toks) (htoks' : TokensOf file' toks')
    (hquotes : Requotes false toks toks') :
    ∃ store' config', parseText file' = .ok (true, store') ∧ Holds store' 0 config' ∧
      Requoted config config' := by
  obtain ⟨lexemes, r, b, -, -, hread, haccepts, hbuild, hholds⟩ := exists_built hparse
  rw [← accepts_map Word.token] at haccepts
  obtain rfl := hread.unique htoks
  obtain rfl := hconfig.unique hholds
  have hrelated := build_requoted hquotes
    (⟨.nil, .empty, .none⟩ : BuildersRequoted Builder.start Builder.start)
  rw [hbuild] at hrelated
  have hreturns := htoks'.returns
  rw [accepts_requotes hquotes, haccepts] at hreturns
  generalize hbuild' : build Token.starts Token.value false .start toks' = built at hreturns hrelated
  cases hrelated with
  | @some _ b' hb =>
    cases hreturns with
    | inr hfault => exact absurd hfault.2 (Option.some_ne_none _)
    | inl hok =>
      obtain ⟨store', hok, hbuilt⟩ := hok
      obtain ⟨c, hc, hcurrent⟩ := hbuilt rfl
      obtain rfl := Option.some.inj hc
      exact ⟨store', _, hok, hcurrent, hb.current⟩

/-! ## Looking up fields -/

/-- The words of a requoted statement begin alike. -/
theorem WordsRequoted.head?_eq {words words' : List Text} (h : WordsRequoted words words') :
    words'.head? = words.head? := by
  obtain ⟨first, args, args', rfl, rfl, -⟩ := h
  rfl

/-- The values of a field are found with the quotes that they were put between. -/
theorem configLookup_requoted (h : Requoted config config') (names : List Text) (field : Text) :
    List.Forall₂ SameOrQuoted (configLookup config names field)
      (configLookup config' names field) := by
  induction h generalizing names with
  | empty =>
    cases names with
    | nil => exact .nil
    | cons name names => exact .nil
  | simple hwords _ ih =>
    cases names with
    | cons name names => exact ih (name :: names)
    | nil =>
      rw [configLookup, configLookup, hwords.head?_eq]
      split_ifs
      · obtain ⟨first, args, args', rfl, rfl, hargs⟩ := hwords
        exact hargs
      · exact ih []
  | nested hwords _ _ ihbody ih =>
    cases names with
    | nil => exact ih []
    | cons name names =>
      rw [configLookup, configLookup, hwords.head?_eq]
      split_ifs
      · exact ihbody names
      · exact ih (name :: names)

end Aite.Config
