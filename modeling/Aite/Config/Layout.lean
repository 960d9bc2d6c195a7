import Aite.Config.OpeningQuotes
import Aite.Config.ParseTree
import Aite.Lib.BlockDeviation

/-!
# The layout of a config file

The tokens of a config can be written with any blanks and comments between them. The parser
gives the same verdict and the same tree for every layout in which no carriage return directly
follows a bare word, which the tokenizer reads as a part of the word, and no bare word of one byte
ends the file behind a config, which it does not see. Only words count that the parser gets to. A
config is given another tree when a carriage return does follow one of its words.
-/

namespace Aite.Config

open BlockGrammar

/-- The spelling of a bare word has neither whitespace nor punctuation and starts with neither a
comment sign nor a quote. A quoted string ends at the first quote that no backslash precedes. -/
def Word.Spelled : Word → Prop
  | .bare spelling => spelling ≠ [] ∧ (∀ c ∈ spelling, endsBare c = false) ∧
      ∀ c ∈ spelling.head?, classify c ≠ .comment ∧ classify c ≠ .quote
  | .quoted quote body => classify quote = .quote ∧ InsideQuotes quote quote body

/-- A token as it is written. -/
def spell : Sym Word → Text
  | .word (.bare spelling) => spelling
  | .word (.quoted quote body) => quote :: (body ++ [quote])
  | .stop => [';'.toUInt8]
  | .enter => ['\x7b'.toUInt8]
  | .leave => ['\x7d'.toUInt8]

/-- Any mix of blanks and of comments, each with the end of its line. -/
inductive Gap : Text → Prop
  | nil : Gap []
  | blank {c : UInt8} {rest : Text} : classify c = .space → Gap rest → Gap (c :: rest)
  | comment {c : UInt8} {body rest : Text} : (∀ d ∈ body, isLineEnd d = false) →
      isLineEnd c = true → Gap rest → Gap ('#'.toUInt8 :: (body ++ c :: rest))

/-- A comment that the end of the file ends. -/
def LastComment (t : Text) : Prop :=
  ∃ body, t = '#'.toUInt8 :: body ∧ ∀ d ∈ body, isLineEnd d = false

/-- A token and the gap behind it. -/
structure Piece where
  sym : Sym Word
  gap : Text
  deriving DecidableEq, Repr

/-- The text of tokens and gaps, and what is behind them. -/
def layOut (tail : Text) : List Piece → Text
  | [] => tail
  | p :: rest => spell p.sym ++ (p.gap ++ layOut tail rest)

/-- The words are spelled as such, and each has whitespace, punctuation or the end of the file
behind it: neither another word nor a comment sign. -/
def Fits (tail : Text) : List Piece → Prop
  | [] => True
  | p :: rest => (∀ w, p.sym = .word w → w.Spelled ∧
      ∀ c ∈ (p.gap ++ layOut tail rest).head?, endsBare c = true) ∧ Gap p.gap ∧ Fits tail rest

/-- A bare word that the parser gets to is not directly followed by a carriage return, and behind a
config there is none of a single byte that ends the file. -/
def KeepsWord (front : List (Sym Word)) (behind : Text) : Sym Word → Prop
  | .word (.bare spelling) => (Viable front → behind.head? ≠ some '\r'.toUInt8) ∧
      (accepts false 0 front = true → spelling.length = 1 → behind ≠ [])
  | _ => True

/-- Behind some tokens all bare words are kept. -/
def AllKept (tail : Text) (front : List (Sym Word)) : List Piece → Prop
  | [] => True
  | p :: rest => KeepsWord front (p.gap ++ layOut tail rest) p.sym ∧
      AllKept tail (front ++ [p.sym]) rest

/-- A way of writing a sequence of tokens. -/
structure Layout (toks : List (Sym Word)) where
  /-- The gap before the first token. -/
  first : Text
  pieces : List Piece
  /-- A comment at the end of the file, whose line does not end. -/
  tail : Text
  syms : pieces.map Piece.sym = toks
  first_gap : Gap first
  tail_comment : tail = [] ∨ LastComment tail
  fits : Fits tail pieces

/-- The file. -/
def Layout.file {toks : List (Sym Word)} (layout : Layout toks) : Text :=
  layout.first ++ layOut layout.tail layout.pieces

/-- No bare word that the parser gets to is read as another one. -/
def Layout.KeepsWords {toks : List (Sym Word)} (layout : Layout toks) : Prop :=
  AllKept layout.tail [] layout.pieces

/-- Both files have the same verdict and, when they are accepted, the same tree. -/
def SameMeaning (file other : Text) : Prop :=
  ∃ verdict store store', parseText file = .ok (verdict, store) ∧
    parseText other = .ok (verdict, store') ∧
    (verdict = true → ∃ config, Holds store 0 config ∧ Holds store' 0 config)

/-- The tokens are those of a config in which every statement begins with a bare word. -/
def IsBareConfig (toks : List (Sym Word)) : Prop :=
  (∃ b : Block Word, b.Proper ∧ b.flatten = toks) ∧
    FirstWordsStart (fun w : Word => w.token.starts) false toks

/-- Behind every word the statement goes on or ends. -/
def GoesOn (toks : List (Sym Word)) : Prop :=
  ∀ before w after, toks = before ++ .word w :: after →
    ∃ tok rest, after = tok :: rest ∧ tok ≠ .leave

/-- What the tokenizer reads as this token: in front of the end of a bare word, and of what may
follow a quoted string. -/
def ReadsAlone (behind : Text) : Sym Word → Prop
  | .word (.bare _) => ∀ c ∈ behind.head?, endsNormal c = true
  | .word (.quoted _ _) => ∃ c ∈ behind.head?, followsQuoted c = true
  | _ => True

variable {ends : UInt8 → Bool} {g behind tail r mid rest : Text} {sym : Sym Word} {c : UInt8}
  {front toks lexemes more : List (Sym Word)} {pieces : List Piece} {p : Piece} {w : Word}

/-! ## Gaps -/

/-- The end of a line is a blank. -/
theorem classify_lineEnd (h : isLineEnd c = true) : classify c = .space := by
  simp only [isLineEnd, Bool.or_eq_true, decide_eq_true_eq] at h
  cases h with
  | inl h => rw [h]; rfl
  | inr h => rw [h]; rfl

/-- A comment goes on to the end of its line. -/
private theorem dropWhile_comment {body : Text} (h : ∀ d ∈ body, isLineEnd d = false)
    (rest : Text) :
    (body ++ rest).dropWhile (!isLineEnd ·) = rest.dropWhile (!isLineEnd ·) := by
  apply List.dropWhile_append_of_pos
  intro d hd
  rw [h d hd]
  rfl

/-- There are no tokens in a gap. -/
theorem Gap.lexesTo (h : Gap g) (rest : Text) : LexesTo ends (g ++ rest) [] rest := by
  induction h with
  | nil => exact .refl
  | blank hc _ ih => exact .head (.space hc) ih
  | @comment c body g hbody hc _ ih =>
    have hcomment : LexStep ends ('#'.toUInt8 :: (body ++ c :: (g ++ rest))) [] _ := .comment rfl
    rw [dropWhile_comment hbody, List.dropWhile_cons_of_neg (by simp [hc])] at hcomment
    rw [List.cons_append, List.append_assoc, List.cons_append]
    exact .head hcomment (.head (.space (classify_lineEnd hc)) ih)

/-- There are no tokens in a comment at the end of the file. -/
theorem lexesTo_tail (h : tail = [] ∨ LastComment tail) : LexesTo ends tail [] [] := by
  cases h with
  | inl h => rw [h]; exact .refl
  | inr h =>
    obtain ⟨body, rfl, hbody⟩ := h
    have hcomment : LexStep ends ('#'.toUInt8 :: body) [] _ := .comment rfl
    have hdrop := dropWhile_comment hbody []
    rw [List.append_nil] at hdrop
    rw [hdrop] at hcomment
    exact .single hcomment

/-- A gap begins with a blank or a comment. -/
private theorem Gap.head (h : Gap g) :
    ∀ c ∈ g.head?, classify c = .space ∨ classify c = .comment := by
  intro c hc
  cases h with
  | nil => cases hc
  | blank hspace _ => rw [← Option.some.inj hc]; exact .inl hspace
  | comment _ _ _ => rw [← Option.some.inj hc]; exact .inr rfl

/-! ## Tokens -/

/-- The spelling of a bare word begins like one. -/
private theorem exists_bare {spelling : Text} (h : (Word.bare spelling).Spelled) :
    ∃ c body, spelling = c :: body ∧ classify c = .bare ∧ ∀ d ∈ body, endsBare d = false :=
  exists_cons_of_bare h.1 h.2.1 h.2.2

/-- A token is read in front of what ends it. -/
theorem lexStep_spell (hspelled : ∀ w, sym = .word w → w.Spelled) (h : ReadsAlone behind sym) :
    LexStep endsNormal (spell sym ++ behind) [sym] behind := by
  cases sym with
  | stop => exact .stop rfl
  | enter => exact .enter rfl
  | leave => exact .leave rfl
  | word w =>
    cases w with
    | bare spelling =>
      obtain ⟨c, body, rfl, hc, hbody⟩ := exists_bare (hspelled _ rfl)
      exact .bare_append hc (fun d hd => endsNormal_of_endsBare (hbody d hd)) h
    | quoted quote body =>
      obtain ⟨hquote, hbody⟩ := hspelled _ rfl
      obtain ⟨d, hd, hfollows⟩ := h
      cases behind with
      | nil => cases hd
      | cons e after =>
        obtain rfl : e = d := Option.some.inj hd
        rw [spell, List.cons_append, List.append_assoc]
        exact .quoted hquote rfl hbody hfollows

/-- A quoted string is not read in front of anything else. -/
private theorem not_lexStep_quoted {quote : UInt8} {body : Text} {item : List (Sym Word)}
    (hquote : classify quote = .quote) (hbody : InsideQuotes quote quote body)
    (h : ¬ ReadsAlone behind (.word (.quoted quote body))) :
    ¬ LexStep endsNormal (quote :: (body ++ quote :: behind)) item mid := by
  intro hstep
  cases hstep with
  | quoted _ htail hother hfollows =>
    obtain ⟨-, hbehind⟩ := insideQuotes_unique hbody hother htail
    exact h ⟨_, by rw [hbehind]; rfl, hfollows⟩
  | _ hc => cases hquote.symm.trans hc

/-- Every token has a byte. -/
private theorem spell_ne_nil (hspelled : ∀ w, sym = .word w → w.Spelled) : spell sym ≠ [] := by
  cases sym with
  | word w =>
    cases w with
    | bare spelling => exact (hspelled _ rfl).1
    | quoted quote body => exact List.cons_ne_nil _ _
  | _ => exact List.cons_ne_nil _ _

/-- Only a closing bracket is spelled with one. -/
private theorem eq_leave (hspelled : ∀ w, sym = .word w → w.Spelled) (hc : c ∈ (spell sym).head?)
    (hleave : classify c = .leave) : sym = .leave := by
  cases sym with
  | leave => rfl
  | word w =>
    cases w with
    | bare spelling =>
      obtain ⟨d, body, rfl, hd, -⟩ := exists_bare (hspelled _ rfl)
      obtain rfl : d = c := Option.some.inj hc
      cases hd.symm.trans hleave
    | quoted quote body =>
      obtain rfl : quote = c := Option.some.inj hc
      cases (hspelled _ rfl).1.symm.trans hleave
  | _ =>
    rw [← Option.some.inj hc] at hleave
    cases hleave

/-! ## Reading a layout -/

/-- A closing bracket behind a gap is the next token. -/
private theorem sym_eq_leave (hfits : Fits tail (p :: pieces)) (hgap : Gap g)
    (hc : c ∈ (g ++ layOut tail (p :: pieces)).head?) (hleave : classify c = .leave) :
    p.sym = .leave := by
  have hspelled (w : Word) (hw : p.sym = .word w) : w.Spelled := (hfits.1 w hw).1
  cases g with
  | nil =>
    apply eq_leave hspelled _ hleave
    rw [List.nil_append, layOut, List.head?_append_of_ne_nil _ (spell_ne_nil hspelled)] at hc
    exact hc
  | cons d g =>
    have hspace := hgap.head d rfl
    rw [Option.some.inj hc, hleave] at hspace
    simp at hspace

/-- In front of a token the file has not ended. -/
private theorem behind_ne_nil (hfits : Fits tail (p :: pieces)) (g : Text) :
    g ++ layOut tail (p :: pieces) ≠ [] := by
  rw [layOut]
  intro hnil
  have hspell := (List.append_eq_nil_iff.mp (List.append_eq_nil_iff.mp hnil).2).1
  exact spell_ne_nil (fun w hw => (hfits.1 w hw).1) hspell

/-- A kept word that the parser gets to ends for the tokenizer as well. -/
private theorem endsNormal_of_kept {spelling : Text} (h : ∀ c ∈ behind.head?, endsBare c = true)
    (hviable : Viable front) (hkept : KeepsWord front behind (.word (.bare spelling))) :
    ∀ c ∈ behind.head?, endsNormal c = true := by
  intro c hc
  have hreturn : c ≠ '\r'.toUInt8 := fun hreturn => hkept.1 hviable (hreturn ▸ hc)
  rw [endsNormal, h c hc, decide_eq_true hreturn]
  rfl

/-- A kept word is read as such when the statement goes on or ends behind it. -/
private theorem readsAlone_of_kept (hfits : Fits tail (p :: pieces)) (hviable : Viable front)
    (hkept : KeepsWord front (p.gap ++ layOut tail pieces) p.sym)
    (hgoes : ∀ w, p.sym = .word w → ∃ q rest, pieces = q :: rest ∧ q.sym ≠ .leave) :
    ReadsAlone (p.gap ++ layOut tail pieces) p.sym := by
  obtain ⟨sym, gap⟩ := p
  obtain ⟨hword, hgap, hrest⟩ := hfits
  cases sym with
  | word w =>
    obtain ⟨-, hends⟩ := hword w rfl
    cases w with
    | bare spelling => exact endsNormal_of_kept hends hviable hkept
    | quoted quote body =>
      obtain ⟨q, rest, rfl, hq⟩ := hgoes _ rfl
      cases hbehind : gap ++ layOut tail (q :: rest) with
      | nil => exact absurd hbehind (behind_ne_nil hrest gap)
      | cons c after =>
        have hc : c ∈ (gap ++ layOut tail (q :: rest)).head? := by rw [hbehind]; rfl
        have hleave : classify c ≠ .leave := fun h => hq (sym_eq_leave hrest hgap hc h)
        refine ⟨c, rfl, ?_⟩
        have hbare := hends c hc
        simp only [endsBare, Bool.or_eq_true, decide_eq_true_eq] at hbare
        simpa [followsQuoted, hleave] using hbare
  | _ => trivial

/-- A token that is read as such is read with the gap behind it. -/
private theorem lexesTo_piece (hfits : Fits tail (p :: pieces))
    (hreads : ReadsAlone (p.gap ++ layOut tail pieces) p.sym) :
    LexesTo endsNormal (layOut tail (p :: pieces)) [p.sym] (layOut tail pieces) := by
  have hstep := LexesTo.single (lexStep_spell (fun w hw => (hfits.1 w hw).1) hreads)
  exact hstep.trans (hfits.2.1.lexesTo _)

/-- The tokens before the first piece and its own come before those of the others. -/
private theorem append_syms (front : List (Sym Word)) (p : Piece) (pieces : List Piece) :
    front ++ (p :: pieces).map Piece.sym = front ++ [p.sym] ++ pieces.map Piece.sym := by
  rw [List.map_cons, List.append_assoc, List.singleton_append]

/-- What goes on behind the first token. -/
private theorem GoesOn.of_cons (h : GoesOn (sym :: toks)) : GoesOn toks := by
  intro before w after htoks
  exact h (sym :: before) w after (by rw [htoks]; rfl)

/-- A word is not the last token. -/
private theorem GoesOn.next (h : GoesOn ((p :: pieces).map Piece.sym)) (w : Word)
    (hw : p.sym = .word w) : ∃ q rest, pieces = q :: rest ∧ q.sym ≠ .leave := by
  obtain ⟨tok, rest, hrest, htok⟩ := h [] w (pieces.map Piece.sym) (by rw [← hw]; rfl)
  obtain ⟨q, others, rfl, rfl, -⟩ := List.map_eq_cons_iff.mp hrest
  exact ⟨q, others, rfl, htok⟩

/-- The tokens of a layout are read when all words are kept and the statements go on. -/
theorem lexesTo_layOut (hfits : Fits tail pieces) (htail : tail = [] ∨ LastComment tail)
    (hkept : AllKept tail front pieces) (hgoes : GoesOn (pieces.map Piece.sym))
    (hviable : Viable (front ++ pieces.map Piece.sym)) :
    LexesTo endsNormal (layOut tail pieces) (pieces.map Piece.sym) [] := by
  induction pieces generalizing front with
  | nil => exact lexesTo_tail htail
  | cons p pieces ih =>
    have hreads := readsAlone_of_kept hfits hviable.of_append hkept.1 hgoes.next
    rw [append_syms] at hviable
    exact (lexesTo_piece hfits hreads).trans (ih hfits.2.2 hkept.2 hgoes.of_cons hviable)

/-- Behind what the tokenizer leaves of a complete file there is at most a bare word of one byte. -/
private theorem lexesTo_of_leaves (h : Leaves true r) (hlex : LexesTo endsNormal r more mid) :
    (more = [] ∧ mid = r) ∨
      ∃ c, classify c = .bare ∧ r = [c] ∧ more = [.word (.bare [c])] ∧ mid = [] := by
  cases hlex with
  | refl => exact .inl ⟨rfl, rfl⟩
  | head hstep htail =>
    cases h with
    | inl h => rw [h] at hstep; cases hstep
    | inr h =>
      obtain ⟨c, hc, rfl⟩ := h
      obtain ⟨rfl, rfl⟩ := hstep.unique (.bare hc)
      obtain ⟨rfl, rfl⟩ := htail.eq_nil
      exact .inr ⟨c, hc, rfl, rfl, rfl⟩

/-- A bare word is read at once. -/
private theorem eq_of_lexesTo_nil (hc : classify c = .bare) (h : LexesTo ends (c :: rest) [] mid) :
    mid = c :: rest := by
  generalize hnil : ([] : List (Sym Word)) = lexemes at h
  cases h with
  | refl => rfl
  | head hstep _ =>
    obtain ⟨rfl, -⟩ := hstep.unique (.bare hc)
    cases hnil

/-- A complete file does not end with a quoted string that is not read. -/
private theorem not_lexesTo_quoted {quote : UInt8} {body : Text} (hquote : classify quote = .quote)
    (hbody : InsideQuotes quote quote body)
    (h : ¬ ReadsAlone behind (.word (.quoted quote body))) (hleaves : Leaves true r) :
    ¬ LexesTo endsNormal (quote :: (body ++ quote :: behind)) lexemes r := by
  intro hlex
  cases hlex with
  | refl =>
    cases hleaves with
    | inl hnil => cases hnil
    | inr hword =>
      obtain ⟨c, hc, hword⟩ := hword
      rw [← (List.cons.inj hword).1] at hc
      cases hquote.symm.trans hc
  | head hstep _ => exact not_lexStep_quoted hquote hbody h hstep

/-- In a complete file a kept token is read as such. -/
private theorem readsAlone_of_lexesTo (hfits : Fits tail (p :: pieces)) (hviable : Viable front)
    (hkept : KeepsWord front (p.gap ++ layOut tail pieces) p.sym)
    (hlex : LexesTo endsNormal (layOut tail (p :: pieces)) lexemes r) (hleaves : Leaves true r) :
    ReadsAlone (p.gap ++ layOut tail pieces) p.sym := by
  by_contra hreads
  cases hsym : p.sym with
  | word w =>
    rw [hsym] at hreads hkept
    cases w with
    | bare spelling => exact hreads (endsNormal_of_kept (hfits.1 _ hsym).2 hviable hkept)
    | quoted quote body =>
      obtain ⟨hquote, hbody⟩ := (hfits.1 _ hsym).1
      rw [layOut, hsym, spell, List.cons_append, List.append_assoc] at hlex
      exact not_lexesTo_quoted hquote hbody hreads hleaves hlex
  | _ => rw [hsym] at hreads; exact hreads trivial

/-- Behind a config a kept bare word is not what is left of the file. -/
private theorem not_left_of_kept (haccepts : accepts false 0 front = true)
    (hkept : KeepsWord front (p.gap ++ layOut tail pieces) p.sym) (hc : classify c = .bare)
    (hsym : p.sym = .word (.bare [c])) :
    ¬ LexesTo endsNormal (layOut tail (p :: pieces)) [] [c] := by
  intro hlex
  rw [layOut, hsym] at hlex
  rw [hsym] at hkept
  have hwhole := eq_of_lexesTo_nil hc hlex
  exact hkept.2 haccepts rfl (List.cons.inj hwhole).2.symm

/-- An accepted file whose words are kept has no tokens but those that are laid out. -/
theorem syms_of_lexesTo (hfits : Fits tail pieces) (htail : tail = [] ∨ LastComment tail)
    (hkept : AllKept tail front pieces) (hlex : LexesTo endsNormal (layOut tail pieces) lexemes r)
    (hleaves : Leaves true r) (haccepts : accepts false 0 (front ++ lexemes) = true) :
    lexemes = pieces.map Piece.sym := by
  induction pieces generalizing front lexemes r with
  | nil =>
    cases (lexesTo_tail htail).linear hlex with
    | inl hmore =>
      obtain ⟨more, rfl, hmore⟩ := hmore
      exact hmore.eq_nil.1
    | inr hmore =>
      obtain ⟨more, hnil, -⟩ := hmore
      exact (List.append_eq_nil_iff.mp hnil.symm).1
  | cons p pieces ih =>
    obtain ⟨hkeep, hkept⟩ := hkept
    have hviable := (viable_of_accepts haccepts).of_append
    have hpiece := lexesTo_piece hfits (readsAlone_of_lexesTo hfits hviable hkeep hlex hleaves)
    cases hpiece.linear hlex with
    | inl hmore =>
      obtain ⟨more, rfl, hmore⟩ := hmore
      rw [← List.append_assoc] at haccepts
      rw [ih hfits.2.2 hkept hmore hleaves haccepts]
      rfl
    | inr hmore =>
      obtain ⟨more, hsyms, hmore⟩ := hmore
      cases lexesTo_of_leaves hleaves hmore with
      | inl hnil =>
        obtain ⟨rfl, hbehind⟩ := hnil
        rw [List.append_nil] at hsyms
        rw [← hsyms, ← List.append_nil (front ++ [p.sym])] at haccepts
        have hrest := ih hfits.2.2 hkept .refl (hbehind ▸ hleaves) haccepts
        rw [← hsyms, List.map_cons, ← hrest]
      | inr hword =>
        obtain ⟨c, hc, rfl, rfl, -⟩ := hword
        rw [← List.nil_append [p.sym]] at hsyms
        obtain ⟨rfl, hsym⟩ := List.append_inj' hsyms rfl
        rw [List.append_nil] at haccepts
        exact absurd hlex (not_left_of_kept haccepts hkeep hc (List.cons.inj hsym).1)

/-- A carriage return behind a bare word is read as a part of it. -/
private theorem lexStep_return {spelling : Text} (hspelled : (Word.bare spelling).Spelled)
    (h : behind.head? = some '\r'.toUInt8) :
    ∃ more mid, LexStep endsNormal (spelling ++ behind)
      [.word (.bare (spelling ++ '\r'.toUInt8 :: more))] mid := by
  obtain ⟨c, body, rfl, hc, hbody⟩ := exists_bare hspelled
  obtain ⟨after, rfl⟩ := List.head?_eq_some_iff.mp h
  have hall : ∀ d ∈ body, (!endsNormal d) = true := by
    intro d hd
    rw [endsNormal_of_endsBare (hbody d hd)]
    rfl
  have hstep : LexStep endsNormal (c :: (body ++ '\r'.toUInt8 :: after)) _ _ := .bare hc
  rw [List.takeWhile_append_of_pos hall, List.takeWhile_cons_of_pos rfl] at hstep
  exact ⟨_, _, hstep⟩

/-- A layout that does not keep the words is read with another word. -/
theorem exists_other_word (hfits : Fits tail pieces) (hgoes : GoesOn (pieces.map Piece.sym))
    (hviable : Viable (front ++ pieces.map Piece.sym)) (hkept : ¬ AllKept tail front pieces) :
    ∃ before spelling more after mid,
      pieces.map Piece.sym = before ++ .word (.bare spelling) :: after ∧ spelling ≠ [] ∧
      LexesTo endsNormal (layOut tail pieces)
        (before ++ [.word (.bare (spelling ++ '\r'.toUInt8 :: more))]) mid := by
  induction pieces generalizing front with
  | nil => exact absurd trivial hkept
  | cons p pieces ih =>
    have hfront : Viable front := hviable.of_append
    by_cases hkeep : KeepsWord front (p.gap ++ layOut tail pieces) p.sym
    · rw [append_syms] at hviable
      obtain ⟨before, spelling, more, after, mid, hsyms, hne, hlex⟩ :=
        ih hfits.2.2 hgoes.of_cons hviable fun hrest => hkept ⟨hkeep, hrest⟩
      have hpiece := lexesTo_piece hfits (readsAlone_of_kept hfits hfront hkeep hgoes.next)
      exact ⟨p.sym :: before, spelling, more, after, mid, by rw [List.map_cons, hsyms]; rfl, hne,
        hpiece.trans hlex⟩
    · cases hsym : p.sym with
      | word w =>
        cases w with
        | bare spelling =>
          rw [hsym] at hkeep
          have hspelled := (hfits.1 _ hsym).1
          obtain ⟨q, rest, rfl, -⟩ := hgoes.next _ hsym
          have hreturn : (p.gap ++ layOut tail (q :: rest)).head? = some '\r'.toUInt8 := by
            by_contra hreturn
            exact hkeep ⟨fun _ => hreturn, fun _ _ => behind_ne_nil hfits.2.2 p.gap⟩
          obtain ⟨more, mid, hstep⟩ := lexStep_return hspelled hreturn
          rw [layOut, hsym]
          exact ⟨[], spelling, more, _, mid, by rw [List.map_cons, hsym]; rfl, hspelled.1,
            .single hstep⟩
        | quoted quote body => rw [hsym] at hkeep; exact absurd trivial hkeep
      | _ => rw [hsym] at hkeep; exact absurd trivial hkeep

/-! ## The meaning of a layout -/

/-- In what is accepted the statements go on or end behind every word. -/
private theorem goesOn_of_accepts (h : accepts false 0 toks = true) : GoesOn toks := by
  intro before w after htoks
  rw [htoks] at h
  exact accepts_behind_word h

namespace Layout

variable (layout other : Layout toks)

/-- The first gap has no tokens. -/
private theorem lexesTo_first :
    LexesTo endsNormal layout.file [] (layOut layout.tail layout.pieces) :=
  layout.first_gap.lexesTo _

/-- In a layout of a config the statements go on or end behind every word. -/
private theorem goesOn (haccepts : accepts false 0 toks = true) :
    GoesOn (layout.pieces.map Piece.sym) := by
  rw [layout.syms]
  exact goesOn_of_accepts haccepts

/-- The tokens of a config lead into no error. -/
private theorem viable (haccepts : accepts false 0 toks = true) :
    Viable ([] ++ layout.pieces.map Piece.sym) := by
  rw [List.nil_append, layout.syms]
  exact viable_of_accepts haccepts

/-- The tokens of a config are those of a layout that keeps the words. -/
theorem tokensOf (hkept : layout.KeepsWords) (haccepts : accepts false 0 toks = true) :
    TokensOf layout.file (toks.map (BlockGrammar.Sym.map Word.token)) := by
  have hlex := lexesTo_layOut layout.fits layout.tail_comment hkept (layout.goesOn haccepts)
    (layout.viable haccepts)
  rw [layout.syms] at hlex
  obtain ⟨n, -, hscan⟩ := scan_of_lexesTo (layout.lexesTo_first.trans hlex)
    (.inl ⟨rfl, getLast_of_accepts haccepts⟩) (s := .ofText layout.file) (.inl ⟨[], rfl⟩)
  exact ⟨n, hscan⟩

/-- The tokens that are read of an accepted file are those of the layout when the words are kept. -/
theorem lexemes_eq {lexemes : List (Sym Word)} {r : Text} (hkept : layout.KeepsWords)
    (hlex : LexesTo endsNormal layout.file lexemes r) (hleaves : Leaves true r)
    (haccepts : accepts false 0 lexemes = true) : lexemes = toks := by
  rw [← layout.syms]
  cases layout.lexesTo_first.linear hlex with
  | inl hmore =>
    obtain ⟨more, rfl, hmore⟩ := hmore
    exact syms_of_lexesTo layout.fits layout.tail_comment hkept hmore hleaves haccepts
  | inr hmore =>
    obtain ⟨more, hnil, hmore⟩ := hmore
    obtain ⟨rfl, rfl⟩ := List.append_eq_nil_iff.mp hnil.symm
    cases lexesTo_of_leaves hleaves hmore with
    | inl hrest =>
      exact syms_of_lexesTo layout.fits layout.tail_comment hkept .refl (hrest.2 ▸ hleaves) haccepts
    | inr hword =>
      obtain ⟨c, -, -, hword, -⟩ := hword
      cases hword

/-- A layout that keeps the words has the verdict of its tokens and the tree that they build, unless
a quoted string comes first. -/
theorem outcome (hkept : layout.KeepsWords) (hopens : ¬ OpensWithQuoted layout.file) :
    ∃ store, parseText layout.file = .ok (accepts false 0 toks, store) ∧
      (accepts false 0 toks = true → ∃ b, build Token.starts Token.value false .start
        (toks.map (BlockGrammar.Sym.map Word.token)) = some b ∧ Holds store 0 b.current) := by
  rw [← parseText_fault_iff] at hopens
  cases haccepts : accepts false 0 toks with
  | true =>
    have hreturns := (layout.tokensOf hkept haccepts).returns
    rw [accepts_map, haccepts] at hreturns
    obtain ⟨store, hok, hbuilt⟩ := hreturns.resolve_right fun hfault => hopens hfault.1
    exact ⟨store, hok, fun _ => hbuilt rfl⟩
  | false =>
    obtain ⟨n, lexemes, complete, r, -, hlex, hleaves, hreturns⟩ := exists_read layout.file
    have hverdict : (complete && accepts false 0 lexemes) = false := by
      cases complete with
      | false => rfl
      | true =>
        by_contra haccepted
        simp only [Bool.true_and, Bool.not_eq_false] at haccepted
        rw [layout.lexemes_eq hkept hlex hleaves haccepted, haccepts] at haccepted
        cases haccepted
    rw [hverdict] at hreturns
    obtain ⟨store, hok, -⟩ := hreturns.resolve_right fun hfault => hopens hfault.1
    exact ⟨store, hok, fun h => by cases h⟩

/-- A config in which every statement begins with a bare word is accepted in every layout that keeps
the words, and its tree is its parse tree. -/
theorem parses (hkept : layout.KeepsWords) (hconfig : IsBareConfig toks) :
    ∃ store config, parseText layout.file = .ok (true, store) ∧ Holds store 0 config ∧
      config.Proper ∧ config.flatten =
        (toks.map (BlockGrammar.Sym.map Word.token)).map (BlockGrammar.Sym.map Token.value) := by
  have haccepts := accepts_iff.mpr hconfig.1
  exact parseText_of_firstWordsStart (layout.tokensOf hkept haccepts)
    (by rw [accepts_map, haccepts]) (firstWordsStart_map Word.token hconfig.2)

/-- A layout that does not keep the words of such a config is read with another word. -/
private theorem exists_broken (hkept : ¬ layout.KeepsWords) (hconfig : IsBareConfig toks)
    {lexemes : List (Sym Word)} {r : Text} (hlex : LexesTo endsNormal layout.file lexemes r)
    (hleaves : Leaves true r) :
    ∃ before spelling more after others, toks = before ++ .word (.bare spelling) :: after ∧
      lexemes = before ++ .word (.bare (spelling ++ '\r'.toUInt8 :: more)) :: others := by
  have haccepts := accepts_iff.mpr hconfig.1
  obtain ⟨before, spelling, more, after, mid, hsyms, hne, hother⟩ :=
    exists_other_word layout.fits (layout.goesOn haccepts) (layout.viable haccepts) hkept
  rw [layout.syms] at hsyms
  refine ⟨before, spelling, more, after, ?_⟩
  cases (layout.lexesTo_first.trans hother).linear hlex with
  | inl hmore =>
    obtain ⟨others, rfl, -⟩ := hmore
    exact ⟨others, hsyms, by simp⟩
  | inr hmore =>
    obtain ⟨others, hread, hmore⟩ := hmore
    cases lexesTo_of_leaves hleaves hmore with
    | inl hnil =>
      rw [hnil.1, List.append_nil] at hread
      exact ⟨[], hsyms, hread.symm⟩
    | inr hword =>
      -- the word that is read has two bytes at least
      obtain ⟨c, -, -, rfl, -⟩ := hword
      have hlast := List.cons.inj (List.append_inj_right' hread rfl)
      have hlength := congrArg List.length (Word.bare.inj (Sym.word.inj hlast.1))
      have hpos := List.length_pos_iff.mpr hne
      simp only [List.length_append, List.length_cons, List.length_nil] at hlength
      omega

/-- No layout that reads another word gives the parse tree of such a config. -/
private theorem not_sameMeaning (hkept : ¬ layout.KeepsWords) (hother : other.KeepsWords)
    (hconfig : IsBareConfig toks) : ¬ SameMeaning layout.file other.file := by
  rintro ⟨verdict, store, store', hok, hok', htree⟩
  obtain ⟨_, tree, hparse, hholds, -, hflatten⟩ := other.parses hother hconfig
  obtain ⟨rfl, rfl⟩ := Prod.mk.inj (Except.ok.inj (hok'.symm.trans hparse))
  obtain ⟨config, hleft, hright⟩ := htree rfl
  obtain rfl := hright.unique hholds
  obtain ⟨lexemes, r, b, hlex, hleaves, -, haccepts, hbuild, hcurrent⟩ := exists_built hok
  obtain rfl := hleft.unique hcurrent
  obtain ⟨before, spelling, more, after, others, rfl, rfl⟩ :=
    layout.exists_broken hkept hconfig hlex hleaves
  have hexpected := accepts_iff.mpr hconfig.1
  rw [← accepts_map Word.token] at hexpected haccepts
  have hfirst : FirstWordsStart Token.starts false
      (List.map (BlockGrammar.Sym.map Word.token) (before ++ .word (.bare spelling) :: after)) :=
    firstWordsStart_map Word.token hconfig.2
  simp only [List.map_append, List.map_cons] at hexpected hfirst haccepts hbuild hflatten
  have hne : (Word.bare (spelling ++ '\r'.toUInt8 :: more)).token.value ≠
      (Word.bare spelling).token.value := by
    intro heq
    have hlength := congrArg List.length heq
    simp [Word.token] at hlength
  have hdiffers := flatten_ne_of_other_word follows_start hexpected hfirst haccepts rfl hne hbuild
  rw [List.nil_append, List.map_append, List.map_cons] at hdiffers
  exact hdiffers hflatten

end Layout

/-- A file with a verdict does not lead to a statement that does not exist. -/
private theorem not_opensWithQuoted_of_ok {file : Text} {result : Bool × Store}
    (hok : parseText file = .ok result) : ¬ OpensWithQuoted file := by
  rw [← parseText_fault_iff, hok]
  exact nofun

/-- Two layouts that keep the words have the same meaning exactly when in neither a quoted string
comes first in the file or in a block. A layout of a config whose statements begin with bare words
has the meaning of one that keeps the words exactly when it keeps them too. -/
theorem sameMeaning_layouts_iff (layout other : Layout toks) (hother : other.KeepsWords) :
    (layout.KeepsWords → (SameMeaning layout.file other.file ↔
      ¬ OpensWithQuoted layout.file ∧ ¬ OpensWithQuoted other.file)) ∧
    (IsBareConfig toks → (SameMeaning layout.file other.file ↔ layout.KeepsWords)) := by
  constructor
  · intro hkept
    constructor
    · rintro ⟨verdict, store, store', hok, hok', -⟩
      exact ⟨not_opensWithQuoted_of_ok hok, not_opensWithQuoted_of_ok hok'⟩
    · rintro ⟨hopens, hopens'⟩
      obtain ⟨store, hok, hbuilt⟩ := layout.outcome hkept hopens
      obtain ⟨store', hok', hbuilt'⟩ := other.outcome hother hopens'
      refine ⟨_, store, store', hok, hok', fun haccepts => ?_⟩
      obtain ⟨b, hb, hholds⟩ := hbuilt haccepts
      obtain ⟨b', hb', hholds'⟩ := hbuilt' haccepts
      obtain rfl : b = b' := Option.some.inj (hb.symm.trans hb')
      exact ⟨b.current, hholds, hholds'⟩
  · intro hconfig
    constructor
    · intro hsame
      by_contra hkept
      exact layout.not_sameMeaning other hkept hother hconfig hsame
    · intro hkept
      obtain ⟨store, config, hok, hholds, hproper, hflatten⟩ := layout.parses hkept hconfig
      obtain ⟨store', config', hok', hholds', hproper', hflatten'⟩ := other.parses hother hconfig
      obtain rfl := flatten_injective hproper hproper' (hflatten.trans hflatten'.symm)
      exact ⟨true, store, store', hok, hok', fun _ => ⟨config, hholds, hholds'⟩⟩

/-- A word of one byte at the end of the file does not matter behind a token that is refused. -/
example : AllKept [] [] [⟨.stop, []⟩, ⟨.word (.bare (text "a")), []⟩] := by
  have hrefused : ¬ Viable ([] ++ [(.stop : Sym Word)]) := by
    rintro ⟨more, hmore⟩
    cases hmore
  refine ⟨trivial, ⟨fun hviable => absurd hviable hrefused, fun haccepts => ?_⟩, trivial⟩
  cases haccepts

/-- A bare word, in front of what follows it. -/
private theorem fits_bare {spelling gap : Text} (hspelled : (Word.bare spelling).Spelled)
    (hends : ∀ c ∈ (gap ++ layOut tail pieces).head?, endsBare c = true) (hgap : Gap gap)
    (hfits : Fits tail pieces) : Fits tail (⟨.word (.bare spelling), gap⟩ :: pieces) := by
  refine ⟨fun w hw => ?_, hgap, hfits⟩
  rw [← Sym.word.inj hw]
  exact ⟨hspelled, hends⟩

/-- Punctuation, in front of a gap. -/
private theorem fits_punctuation {gap : Text} (hsym : sym.isWord = false) (hgap : Gap gap)
    (hfits : Fits tail pieces) : Fits tail (⟨sym, gap⟩ :: pieces) := by
  refine ⟨fun w hw => ?_, hgap, hfits⟩
  rw [show sym = .word w from hw] at hsym
  cases hsym

/-- A token in front of anything but a carriage return is kept. -/
private theorem keepsWord_of_head (h : behind.head? = some c) (hc : c ≠ '\r'.toUInt8)
    (front : List (Sym Word)) (sym : Sym Word) : KeepsWord front behind sym := by
  cases sym with
  | word w =>
    cases w with
    | bare spelling =>
      refine ⟨fun _ hreturn => hc (Option.some.inj (h.symm.trans hreturn)), fun _ _ hnil => ?_⟩
      rw [hnil] at h
      cases h
    | quoted quote body => trivial
  | _ => trivial

/-- A statement is parsed alike on one line and with blanks, a comment and another line end. -/
theorem sameMeaning_listen : ∃ layout other :
    Layout [.word (.bare (text "listen")), .word (.bare (text "80")), .stop],
    layout.file = text "\tlisten  80 ; # port\r\n" ∧ other.file = text "listen 80;" ∧
      SameMeaning layout.file other.file := by
  have hlisten : (Word.bare (text "listen")).Spelled := ⟨by decide, by decide, by decide⟩
  have hport : (Word.bare (text "80")).Spelled := ⟨by decide, by decide, by decide⟩
  have hcomment : Gap (text " # port\r\n") := .blank rfl
    (@Gap.comment '\r'.toUInt8 (text " port") (text "\n") (by decide) rfl (.blank rfl .nil))
  let layout : Layout [.word (.bare (text "listen")), .word (.bare (text "80")), .stop] := {
    first := text "\t"
    pieces := [⟨.word (.bare (text "listen")), text "  "⟩, ⟨.word (.bare (text "80")), text " "⟩,
      ⟨.stop, text " # port\r\n"⟩]
    tail := []
    syms := rfl
    first_gap := .blank rfl .nil
    tail_comment := .inl rfl
    fits := fits_bare hlisten (by decide) (.blank rfl (.blank rfl .nil))
      (fits_bare hport (by decide) (.blank rfl .nil) (fits_punctuation rfl hcomment trivial)) }
  let other : Layout [.word (.bare (text "listen")), .word (.bare (text "80")), .stop] := {
    first := []
    pieces := [⟨.word (.bare (text "listen")), text " "⟩, ⟨.word (.bare (text "80")), []⟩,
      ⟨.stop, []⟩]
    tail := []
    syms := rfl
    first_gap := .nil
    tail_comment := .inl rfl
    fits := fits_bare hlisten (by decide) (.blank rfl .nil)
      (fits_bare hport (by decide) .nil (fits_punctuation rfl .nil trivial)) }
  have hkept : layout.KeepsWords :=
    ⟨keepsWord_of_head rfl (by decide) _ _, keepsWord_of_head rfl (by decide) _ _, trivial, trivial⟩
  have hother : other.KeepsWords :=
    ⟨keepsWord_of_head rfl (by decide) _ _, keepsWord_of_head rfl (by decide) _ _, trivial, trivial⟩
  have hconfig : IsBareConfig [.word (.bare (text "listen")), .word (.bare (text "80")), .stop] :=
    ⟨accepts_iff.mp rfl, by simp [FirstWordsStart, Sym.isWord, Word.token, Token.starts]⟩
  exact ⟨layout, other, rfl, rfl,
    ((sameMeaning_layouts_iff layout other hother).2 hconfig).mpr hkept⟩

/-- A file whose lines end with a carriage return and a line feed has another tree than the same
file with line feeds. -/
theorem not_sameMeaning_lineEnds : ∃ (toks : List (Sym Word)) (layout other : Layout toks),
    layout.file = text "server\r\n\x7b\r\n\x7d\r\n" ∧ other.file = text "server\n\x7b\n\x7d\n" ∧
      ¬ SameMeaning layout.file other.file := by
  have hserver : (Word.bare (text "server")).Spelled := ⟨by decide, by decide, by decide⟩
  have hreturn : Gap (text "\r\n") := .blank rfl (.blank rfl .nil)
  have hfeed : Gap (text "\n") := .blank rfl .nil
  refine ⟨[.word (.bare (text "server")), .enter, .leave], {
    first := []
    pieces := [⟨.word (.bare (text "server")), text "\r\n"⟩, ⟨.enter, text "\r\n"⟩,
      ⟨.leave, text "\r\n"⟩]
    tail := []
    syms := rfl
    first_gap := .nil
    tail_comment := .inl rfl
    fits := fits_bare hserver (by decide) hreturn
      (fits_punctuation rfl hreturn (fits_punctuation rfl hreturn trivial)) }, {
    first := []
    pieces := [⟨.word (.bare (text "server")), text "\n"⟩, ⟨.enter, text "\n"⟩, ⟨.leave, text "\n"⟩]
    tail := []
    syms := rfl
    first_gap := .nil
    tail_comment := .inl rfl
    fits := fits_bare hserver (by decide) hfeed
      (fits_punctuation rfl hfeed (fits_punctuation rfl hfeed trivial)) }, rfl, rfl, ?_⟩
  rintro ⟨verdict, store, store', hok, hok', htree⟩
  have hleft : parseText (text "server\r\n\x7b\r\n\x7d\r\n") =
    .ok (true, [⟨[⟨[text "server\r"], some 1⟩]⟩, ⟨[]⟩]) := rfl
  have hright : parseText (text "server\n\x7b\n\x7d\n") =
    .ok (true, [⟨[⟨[text "server"], some 1⟩]⟩, ⟨[]⟩]) := rfl
  obtain ⟨rfl, rfl⟩ := Prod.mk.inj (Except.ok.inj (hleft.symm.trans hok))
  obtain ⟨-, rfl⟩ := Prod.mk.inj (Except.ok.inj (hright.symm.trans hok'))
  obtain ⟨config, hconfig, hconfig'⟩ := htree rfl
  have htree : Holds [⟨[⟨[text "server\r"], some 1⟩]⟩, ⟨[]⟩] 0
      (.nested [text "server\r"] .empty .empty) :=
    ⟨_, rfl, 1, _, [], rfl, by decide, rfl, rfl, rfl⟩
  have htree' : Holds [⟨[⟨[text "server"], some 1⟩]⟩, ⟨[]⟩] 0
      (.nested [text "server"] .empty .empty) :=
    ⟨_, rfl, 1, _, [], rfl, by decide, rfl, rfl, rfl⟩
  rw [hconfig.unique htree] at hconfig'
  have heq := hconfig'.unique htree'
  cases heq

end Aite.Config
