import Aite.Config.Lexemes
import Mathlib.Data.List.Chain
import Mathlib.Data.List.TakeWhile

/-!
# Bare words with carriage returns

A bare word ends at any whitespace, but the tokenizer goes on past a carriage return. What it
takes for one word is then a sequence of words and carriage returns, unless a carriage return
directly precedes a comment or a quoted string, which the tokenizer does not see. Apart from
these, the two ways of lexing accept the same statements. Only words count that the parser gets
to: it stops at the first token that cannot follow what it has read.
-/

namespace Aite.Config

open BlockGrammar

/-- No carriage return directly precedes a comment sign or a quote. -/
def SafeWord (w : Text) : Prop :=
  w.IsChain fun c d => c = '\r'.toUInt8 → classify d ≠ .comment ∧ classify d ≠ .quote

/-- Behind some items, in no word that the parser gets to does a carriage return hide a comment or a
quoted string. -/
def SafeFrom (front : List (Sym Word)) (t : Text) : Prop :=
  ∀ toks s w r, LexesTo endsNormal t toks s → LexStep endsNormal s [.word (.bare w)] r →
    Viable (front ++ toks) → SafeWord w

/-- In no word that the parser gets to does a carriage return hide a comment or a quoted string. -/
def SafeReturns (file : Text) : Prop := SafeFrom [] file

/-- No statement is left unfinished. -/
def EndsStatement (toks : List (Sym Word)) : Prop := ∀ w, toks.getLast? ≠ some (.word w)

variable {t r mid rest : Text} {front item toks others : List (Sym Word)} {c : UInt8}

/-- A byte that ends bare words but not those of the tokenizer is a carriage return. -/
private theorem eq_return (hnormal : endsNormal c = false) (hbare : endsBare c = true) :
    c = '\r'.toUInt8 := by
  simpa [endsNormal, hbare] using hnormal

/-- A carriage return is whitespace. -/
private theorem classify_return : classify '\r'.toUInt8 = .space := by decide

/-- A byte of a word either is a carriage return or cannot stand at the start of an item unless
it starts a bare word, a comment or a quoted string. -/
private theorem normal_cases (hnormal : endsNormal c = false) (hcomment : classify c ≠ .comment)
    (hquote : classify c ≠ .quote) :
    classify c = .bare ∨ (classify c = .space ∧ c = '\r'.toUInt8) := by
  by_cases hbare : endsBare c = true
  · have hc := eq_return hnormal hbare
    exact .inr ⟨hc ▸ classify_return, hc⟩
  · left
    cases hclass : classify c <;> simp_all [endsBare]

/-- What is left of a word behind its first bare word begins with a carriage return. -/
private theorem head_dropWhile {s : Text} (hs : ∀ d ∈ s, endsNormal d = false) :
    ∀ d ∈ (s.dropWhile (!endsBare ·)).head?, d = '\r'.toUInt8 := by
  intro d hd
  have hends := List.head?_dropWhile_not (!endsBare ·) s
  rw [Option.mem_def.mp hd] at hends
  have hmem : d ∈ s := (List.dropWhile_suffix _).subset (List.mem_of_mem_head? hd)
  apply eq_return (hs d hmem)
  simpa using hends

/-- A bare word does not go on into what follows a word of the tokenizer. -/
private theorem dropWhile_append_rest (s : Text) (hrest : ∀ d ∈ rest.head?, endsNormal d = true) :
    (s ++ rest).dropWhile (!endsBare ·) = s.dropWhile (!endsBare ·) ++ rest := by
  rw [List.dropWhile_append]
  split
  · next hempty =>
    rw [List.isEmpty_iff.mp hempty, List.nil_append]
    cases rest with
    | nil => rfl
    | cons d rest =>
      have hd : endsBare d = true := by
        have hnormal := hrest d rfl
        simp only [endsNormal, Bool.and_eq_true] at hnormal
        exact hnormal.1
      simp [hd]
  · rfl

/-- A bare word and then the words behind it. -/
private theorem words_of_bare {s : Text} (hc : classify c = .bare)
    (hrest : ∀ d ∈ rest.head?, endsNormal d = true)
    (h : ∃ words : List Word,
      LexesTo endsBare (s.dropWhile (!endsBare ·) ++ rest) (words.map .word) rest) :
    ∃ words : List Word, words ≠ [] ∧
      LexesTo endsBare (c :: s ++ rest) (words.map .word) rest := by
  obtain ⟨words, hwords⟩ := h
  have hstep : LexStep endsBare (c :: (s ++ rest)) _ _ := .bare hc
  rw [dropWhile_append_rest s hrest] at hstep
  exact ⟨_ :: words, List.cons_ne_nil _ _, .head hstep hwords⟩

/-- The rest of a word of the tokenizer is a sequence of words. -/
private theorem words_of_normal {s : Text} (hs : ∀ d ∈ s, endsNormal d = false)
    (hsafe : SafeWord s) (hhead : ∀ d ∈ s.head?, classify d ≠ .comment ∧ classify d ≠ .quote)
    (hrest : ∀ d ∈ rest.head?, endsNormal d = true) :
    ∃ words : List Word, LexesTo endsBare (s ++ rest) (words.map .word) rest := by
  induction hn : s.length using Nat.strong_induction_on generalizing s with
  | _ n ih =>
  cases s with
  | nil => exact ⟨[], .refl⟩
  | cons c s =>
    have hchain := List.isChain_cons.mp hsafe
    have htail : ∀ d ∈ s, endsNormal d = false := fun d hd => hs d (List.mem_cons_of_mem c hd)
    rw [List.length_cons] at hn
    cases normal_cases (hs c List.mem_cons_self) (hhead c rfl).1 (hhead c rfl).2 with
    | inl hbare =>
      have hsuffix := List.dropWhile_suffix (l := s) (!endsBare ·)
      have hwords := words_of_bare hbare hrest (s := s)
        (ih _ (by have := hsuffix.length_le; omega)
          (fun d hd => htail d (hsuffix.subset hd)) (hchain.2.suffix hsuffix)
          (fun d hd => by rw [head_dropWhile htail d hd, classify_return]; simp) rfl)
      obtain ⟨words, -, hwords⟩ := hwords
      exact ⟨words, hwords⟩
    | inr hreturn =>
      obtain ⟨words, hwords⟩ := ih s.length (by omega) htail hchain.2
        (fun d hd => hchain.1 d hd hreturn.2) rfl
      exact ⟨words, .head (.space hreturn.1) hwords⟩

/-- A safe word of the tokenizer is a sequence of bare words. -/
private theorem exists_words (hc : classify c = .bare)
    (hsafe : SafeWord (c :: rest.takeWhile (!endsNormal ·))) :
    ∃ words : List Word, words ≠ [] ∧
      LexesTo endsBare (c :: rest) (words.map .word) (rest.dropWhile (!endsNormal ·)) := by
  have hs : ∀ d ∈ rest.takeWhile (!endsNormal ·), endsNormal d = false := by
    intro d hd
    simpa using List.mem_takeWhile_imp hd
  have hrest : ∀ d ∈ (rest.dropWhile (!endsNormal ·)).head?, endsNormal d = true := by
    intro d hd
    have hends := List.head?_dropWhile_not (!endsNormal ·) rest
    rw [Option.mem_def.mp hd] at hends
    simpa using hends
  have hsuffix := List.dropWhile_suffix (l := rest.takeWhile (!endsNormal ·)) (!endsBare ·)
  have hwords := words_of_bare hc hrest (s := rest.takeWhile (!endsNormal ·))
    (words_of_normal (fun d hd => hs d (hsuffix.subset hd))
      ((List.isChain_cons.mp hsafe).2.suffix hsuffix)
      (fun d hd => by rw [head_dropWhile hs d hd, classify_return]; simp) hrest)
  rwa [List.cons_append, List.takeWhile_append_dropWhile] at hwords

/-- Safety is kept behind the items that were read. -/
private theorem SafeFrom.behind (h : SafeFrom front t) (hstep : LexStep endsNormal t item mid) :
    SafeFrom (front ++ item) mid := by
  intro toks s w r hlex hword hviable
  rw [List.append_assoc] at hviable
  exact h (item ++ toks) s w r (.head hstep hlex) hword hviable

/-- The end of finished statements is finished. -/
theorem EndsStatement.behind (h : EndsStatement (toks ++ others)) : EndsStatement others := by
  intro w hw
  apply h w
  rw [List.getLast?_append, hw]
  rfl

/-- Some of the words of an unfinished statement do not end it. -/
private theorem not_endsStatement_of_words {words : List Word} (htoks : toks ≠ [])
    (h : words.map .word = toks ++ others) : ¬ EndsStatement toks := by
  intro hends
  have hmem : toks.getLast htoks ∈ words.map Sym.word :=
    h ▸ List.mem_append_left others (List.getLast_mem htoks)
  obtain ⟨w, -, hw⟩ := List.mem_map.mp hmem
  exact hends w (hw ▸ List.getLast?_eq_some_getLast htoks)

/-- What the tokenizer reads are items of the config grammar, each word of it standing for one or
more words. -/
theorem lexesTo_bare (hlex : LexesTo endsNormal t toks rest) (hsafe : SafeFrom front t)
    (hviable : Viable (front ++ toks)) :
    ∃ others, LexesTo endsBare t others rest ∧ Alike toks others := by
  induction hlex generalizing front with
  | refl => exact ⟨[], .refl, .refl _⟩
  | @head t mid rest item toks hstep htail ih =>
    have hbehind : Viable (front ++ item ++ toks) := by
      rw [List.append_assoc]
      exact hviable
    obtain ⟨others, hothers, halike⟩ := ih (hsafe.behind hstep) hbehind
    by_cases hbare : ∀ w, item ≠ [.word (.bare w)]
    · exact ⟨item ++ others, .head (hstep.of_not_bare _ hbare) hothers, .append_left item halike⟩
    · push Not at hbare
      obtain ⟨w, rfl⟩ := hbare
      have hword := hsafe [] t w mid .refl hstep (by rw [List.append_nil]; exact hviable.of_append)
      cases hstep with
      | bare hc =>
        obtain ⟨words, hwords, hlexes⟩ := exists_words hc hword
        refine ⟨words.map .word ++ others, hlexes.trans hothers, .append ?_ halike⟩
        exact alike_words (List.cons_ne_nil _ []) hwords

/-- Items that end no statement halfway are read by the tokenizer, up to the number of words. -/
theorem lexesTo_normal (hlex : LexesTo endsBare t toks rest) (hends : EndsStatement toks)
    (hsafe : SafeFrom front t) (hviable : Viable (front ++ toks)) :
    ∃ others, LexesTo endsNormal t others rest ∧ Alike others toks := by
  induction hn : t.length using Nat.strong_induction_on generalizing t toks front with
  | _ n ih =>
  cases hlex with
  | refl => exact ⟨[], .refl, .refl _⟩
  | @head _ mid _ item toks hstep htail =>
    by_cases hbare : ∀ w, item ≠ [.word (.bare w)]
    · have hstep' := hstep.of_not_bare endsNormal hbare
      rw [← List.append_assoc] at hviable
      obtain ⟨others, hothers, halike⟩ := ih mid.length (hn ▸ hstep.length_lt) htail
        hends.behind (hsafe.behind hstep') hviable rfl
      exact ⟨item ++ others, .head hstep' hothers, .append_left item halike⟩
    · push Not at hbare
      obtain ⟨w, rfl⟩ := hbare
      have hlex := LexesTo.head hstep htail
      cases hstep with
      | @bare c tail hc =>
        have hstep' : LexStep endsNormal (c :: tail) _ _ := .bare hc
        have hword := hsafe [] _ _ _ .refl hstep' (by rw [List.append_nil]; exact hviable.of_append)
        obtain ⟨words, hwords, hlexes⟩ := exists_words hc hword
        cases hlexes.linear hlex with
        | inl hmore =>
          obtain ⟨more, hsplit, hmore⟩ := hmore
          rw [hsplit] at hends hviable ⊢
          -- one word of the tokenizer leads as far as the words for which it stands
          have hone : Alike (words.map Sym.word)
              ([Word.bare (c :: tail.takeWhile (!endsNormal ·))].map Sym.word) :=
            alike_words hwords (List.cons_ne_nil _ [])
          have hbehind := hviable.of_alike ((hone.append_right more).append_left front)
          rw [← List.append_assoc] at hbehind
          obtain ⟨others, hothers, halike⟩ := ih _ (hn ▸ hstep'.length_lt) hmore
            hends.behind (hsafe.behind hstep') hbehind rfl
          refine ⟨_, .head hstep' hothers, .append ?_ halike⟩
          exact alike_words (List.cons_ne_nil _ []) hwords
        | inr hmore =>
          obtain ⟨more, hsplit, -⟩ := hmore
          -- The items end inside the word.
          exact absurd hends (not_endsStatement_of_words (List.cons_ne_nil _ toks) hsplit)

end Aite.Config
