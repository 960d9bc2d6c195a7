import Aite.Basic
import Aite.Lib.BlockGrammar

/-!
# The lexical grammar of config files

A config file is a sequence of blanks, comments, bare words, quoted strings and punctuation.
A bare word is as long as possible; which bytes end it is a parameter, since the tokenizer
goes on past a carriage return.

Lexing is deterministic, so two ways of reading the beginning of one file agree as far as
the shorter one goes.
-/

namespace Aite.Config

open BlockGrammar

/-- What a byte begins at the start of an item. -/
inductive ByteClass where
  | enter
  | leave
  | comment
  | quote
  | stop
  | space
  | bare
  deriving DecidableEq, Repr

/-- The class of a byte. -/
def classify (c : UInt8) : ByteClass :=
  if c = '\x7b'.toUInt8 then .enter
  else if c = '\x7d'.toUInt8 then .leave
  else if c = '#'.toUInt8 then .comment
  else if c = '"'.toUInt8 ∨ c = '\''.toUInt8 then .quote
  else if c = ';'.toUInt8 then .stop
  else if c = ' '.toUInt8 ∨ c = '\t'.toUInt8 ∨ c = '\n'.toUInt8 ∨ c = '\r'.toUInt8 then .space
  else .bare

/-- Whitespace and punctuation end a bare word. -/
def endsBare (c : UInt8) : Bool :=
  classify c = .space || classify c = .stop || classify c = .enter || classify c = .leave

/-- The bytes that end a bare word in the tokenizer. -/
def endsNormal (c : UInt8) : Bool := endsBare c && c ≠ '\r'.toUInt8

/-- The bytes that end a comment. -/
def isLineEnd (c : UInt8) : Bool := c = '\n'.toUInt8 || c = '\r'.toUInt8

/-- The bytes that may follow a quoted string. -/
def followsQuoted (c : UInt8) : Bool :=
  classify c = .space || classify c = .stop || classify c = .enter

/-- The text before the closing quote: a quote in it directly follows a backslash, and its last
byte is not one. The byte before the text is given. -/
def InsideQuotes (quote : UInt8) : UInt8 → Text → Prop
  | before, [] => before ≠ '\\'.toUInt8
  | before, c :: rest => (c = quote → before = '\\'.toUInt8) ∧ InsideQuotes quote c rest

/-- A word of a config file, as it is written. -/
inductive Word where
  | bare (spelling : Text)
  | quoted (quote : UInt8) (body : Text)
  deriving DecidableEq, Repr

/-- One item at the start of a text: the word or the punctuation it is, and the text behind it. -/
inductive LexStep (ends : UInt8 → Bool) : Text → List (Sym Word) → Text → Prop
  | space {c : UInt8} {rest : Text} : classify c = .space → LexStep ends (c :: rest) [] rest
  | comment {c : UInt8} {rest : Text} : classify c = .comment →
      LexStep ends (c :: rest) [] (rest.dropWhile (!isLineEnd ·))
  | stop {c : UInt8} {rest : Text} : classify c = .stop → LexStep ends (c :: rest) [.stop] rest
  | enter {c : UInt8} {rest : Text} : classify c = .enter → LexStep ends (c :: rest) [.enter] rest
  | leave {c : UInt8} {rest : Text} : classify c = .leave → LexStep ends (c :: rest) [.leave] rest
  | bare {c : UInt8} {rest : Text} : classify c = .bare →
      LexStep ends (c :: rest) [.word (.bare (c :: rest.takeWhile (!ends ·)))]
        (rest.dropWhile (!ends ·))
  | quoted {c d : UInt8} {rest body after : Text} : classify c = .quote →
      rest = body ++ c :: d :: after → InsideQuotes c c body → followsQuoted d = true →
      LexStep ends (c :: rest) [.word (.quoted c body)] (d :: after)

/-- The items at the start of a text and the text behind them. -/
inductive LexesTo (ends : UInt8 → Bool) : Text → List (Sym Word) → Text → Prop
  | refl {t : Text} : LexesTo ends t [] t
  | head {t mid rest : Text} {item toks : List (Sym Word)} : LexStep ends t item mid →
      LexesTo ends mid toks rest → LexesTo ends t (item ++ toks) rest

/-- A valid config file: all of it is items, and these form statements and blocks. -/
def Valid (file : Text) : Prop :=
  ∃ toks, LexesTo endsBare file toks [] ∧ ∃ b : Block Word, b.Proper ∧ b.flatten = toks

variable {ends : UInt8 → Bool} {t r mid rest : Text} {item toks others : List (Sym Word)}

/-- The quotes are the double and the single one. -/
theorem classify_quote_iff {c : UInt8} :
    classify c = .quote ↔ c = '"'.toUInt8 ∨ c = '\''.toUInt8 := by
  constructor
  · intro h
    by_contra hc
    simp only [classify, hc, if_false] at h
    split_ifs at h
  · intro h
    cases h with
    | inl h => rw [h]; rfl
    | inr h => rw [h]; rfl

/-- The closing quote is determined. -/
theorem insideQuotes_unique {quote before : UInt8} {body other after afterwards : Text}
    (hbody : InsideQuotes quote before body) (hother : InsideQuotes quote before other)
    (h : body ++ quote :: after = other ++ quote :: afterwards) :
    body = other ∧ after = afterwards := by
  induction body generalizing before other with
  | nil =>
    cases other with
    | nil => exact ⟨rfl, (List.cons.inj h).2⟩
    | cons c other => exact absurd (hother.1 (List.cons.inj h).1.symm) hbody
  | cons c body ih =>
    cases other with
    | nil => exact absurd (hbody.1 (List.cons.inj h).1) hother
    | cons d other =>
      obtain ⟨rfl, hrest⟩ := List.cons.inj h
      obtain ⟨rfl, hafter⟩ := ih hbody.2 hother.2 hrest
      exact ⟨rfl, hafter⟩

/-- The first item of a text is determined. -/
theorem LexStep.unique (h : LexStep ends t item mid) (h' : LexStep ends t others rest) :
    item = others ∧ mid = rest := by
  cases h with
  | quoted hquote hrest hbody hfollows =>
    cases h' with
    | quoted _ hrest' hbody' _ =>
      obtain ⟨rfl, hafter⟩ := insideQuotes_unique hbody hbody' (hrest.symm.trans hrest')
      exact ⟨rfl, hafter⟩
    | _ h' => cases hquote.symm.trans h'
  | _ h =>
    cases h' with
    | quoted hquote _ _ _ => cases h.symm.trans hquote
    | _ h' => first | exact ⟨rfl, rfl⟩ | cases h.symm.trans h'

/-- Every item has a byte. -/
theorem LexStep.length_lt (h : LexStep ends t item mid) : mid.length < t.length := by
  cases h with
  | comment hc => exact Nat.lt_succ_of_le (List.dropWhile_suffix _).length_le
  | bare hc => exact Nat.lt_succ_of_le (List.dropWhile_suffix _).length_le
  | quoted hquote hrest hbody hfollows =>
    rw [hrest]
    simp only [List.length_cons, List.length_append]
    omega
  | _ => exact Nat.lt_succ_self _

/-- An item that is not a bare word is read in the same way whatever ends a bare word. -/
theorem LexStep.of_not_bare (h : LexStep ends t item mid) (other : UInt8 → Bool)
    (hbare : ∀ w, item ≠ [.word (.bare w)]) : LexStep other t item mid := by
  cases h with
  | space hc => exact .space hc
  | comment hc => exact .comment hc
  | stop hc => exact .stop hc
  | enter hc => exact .enter hc
  | leave hc => exact .leave hc
  | bare hc => exact absurd rfl (hbare _)
  | quoted hquote hrest hbody hfollows => exact .quoted hquote hrest hbody hfollows

/-- What has neither whitespace nor punctuation and starts with neither a comment sign nor a quote
starts with a byte that begins a bare word. -/
theorem exists_cons_of_bare {spelling : Text} (hne : spelling ≠ [])
    (hends : ∀ c ∈ spelling, endsBare c = false)
    (hhead : ∀ c ∈ spelling.head?, classify c ≠ .comment ∧ classify c ≠ .quote) :
    ∃ c body, spelling = c :: body ∧ classify c = .bare ∧ ∀ d ∈ body, endsBare d = false := by
  cases spelling with
  | nil => exact absurd rfl hne
  | cons c body =>
    have hfirst := hends c List.mem_cons_self
    refine ⟨c, body, rfl, ?_, fun d hd => hends d (List.mem_cons_of_mem c hd)⟩
    cases hclass : classify c <;> simp_all [endsBare]

/-- What does not end a bare word does not end one for the tokenizer. -/
theorem endsNormal_of_endsBare {c : UInt8} (h : endsBare c = false) : endsNormal c = false := by
  rw [endsNormal, h]
  rfl

/-- A bare word is read up to what ends it. -/
theorem LexStep.bare_append {c : UInt8} {body behind : Text} (hc : classify c = .bare)
    (hbody : ∀ d ∈ body, ends d = false) (hbehind : ∀ d ∈ behind.head?, ends d = true) :
    LexStep ends (c :: (body ++ behind)) [.word (.bare (c :: body))] behind := by
  have hall : ∀ d ∈ body, (!ends d) = true := fun d hd => by rw [hbody d hd]; rfl
  have hstep : LexStep ends (c :: (body ++ behind)) _ _ := .bare hc
  rw [List.takeWhile_append_of_pos hall, List.dropWhile_append_of_pos hall] at hstep
  cases behind with
  | nil => simpa using hstep
  | cons d behind =>
    have hd : (!ends d) = false := by rw [hbehind d rfl]; rfl
    simpa [List.takeWhile_cons, List.dropWhile_cons, hd] using hstep

namespace LexesTo

/-- One item. -/
theorem single (h : LexStep ends t item mid) : LexesTo ends t item mid := by
  have hhead := LexesTo.head h .refl
  rwa [List.append_nil] at hhead

/-- Items and then the items behind them. -/
theorem trans (h : LexesTo ends t toks mid) (h' : LexesTo ends mid others rest) :
    LexesTo ends t (toks ++ others) rest := by
  induction h with
  | refl => exact h'
  | head hstep _ ih =>
    rw [List.append_assoc]
    exact .head hstep (ih h')

/-- There are no items in the empty text. -/
theorem eq_nil (h : LexesTo ends [] toks r) : toks = [] ∧ r = [] := by
  cases h with
  | refl => exact ⟨rfl, rfl⟩
  | head hstep _ => cases hstep

/-- Of two readings of one text, one goes on where the other ends. -/
theorem linear (h : LexesTo ends t toks mid) (h' : LexesTo ends t others rest) :
    (∃ more, others = toks ++ more ∧ LexesTo ends mid more rest) ∨
      ∃ more, toks = others ++ more ∧ LexesTo ends rest more mid := by
  induction h generalizing others rest with
  | refl => exact .inl ⟨others, rfl, h'⟩
  | head hstep htail ih =>
    cases h' with
    | refl => exact .inr ⟨_, rfl, .head hstep htail⟩
    | head hstep' htail' =>
      obtain ⟨rfl, rfl⟩ := hstep.unique hstep'
      cases ih htail' with
      | inl hmore =>
        obtain ⟨more, rfl, hmore⟩ := hmore
        exact .inl ⟨more, (List.append_assoc _ _ _).symm, hmore⟩
      | inr hmore =>
        obtain ⟨more, rfl, hmore⟩ := hmore
        exact .inr ⟨more, (List.append_assoc _ _ _).symm, hmore⟩

/-- The items of a whole text are determined. -/
theorem unique (h : LexesTo ends t toks []) (h' : LexesTo ends t others []) : toks = others := by
  cases h.linear h' with
  | inl hmore =>
    obtain ⟨more, rfl, hmore⟩ := hmore
    rw [hmore.eq_nil.1, List.append_nil]
  | inr hmore =>
    obtain ⟨more, rfl, hmore⟩ := hmore
    rw [hmore.eq_nil.1, List.append_nil]

end LexesTo

end Aite.Config
