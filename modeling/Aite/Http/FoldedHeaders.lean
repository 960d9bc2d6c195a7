import Aite.Http.RequestHead
import Aite.Lib.SeparatedWords

/-!
# Folded headers

The value of a header may be written over several lines, each further line beginning with
blanks, and lines of blanks only may stand in between. The parser drops the blanks that a
continuation line begins with and puts nothing in their place: what keeps the last word of a
line and the first word of the next apart are the spaces at the end of the line, if there are
any.
-/

namespace Aite.Http

open SeparatedWords

/-- The blanks that a continuation line begins with. -/
structure Indent where
  blank : UInt8
  blanks : Text
  blank_lws : IsLws blank
  blanks_lws : ∀ c ∈ blanks, IsLws c

/-- A piece of a value that neither begins nor ends with a blank, and the spaces behind it. -/
structure Segment where
  content : Text
  spaces : ℕ
  content_ne_nil : content ≠ []
  content_text : ∀ c ∈ content, IsText c
  first_solid : ∀ c ∈ content.head?, isBlank c = false
  last_solid : ∀ c ∈ content.getLast?, isBlank c = false

/-- The spaces behind a segment. -/
def Segment.gap (segment : Segment) : Text := List.replicate segment.spaces ' '.toUInt8

/-- The bytes of a segment and of the spaces behind it. -/
def Segment.render (segment : Segment) : Text := segment.content ++ segment.gap

/-- A further segment, with the lines of blanks and the blanks in front of it. -/
structure FoldedLine where
  blankLines : List Indent
  indent : Indent
  segment : Segment

/-- The bytes of the lines up to the end of a further segment. -/
def FoldedLine.render (line : FoldedLine) : Text :=
  (line.blankLines.flatMap fun blanks => blanks.blank :: blanks.blanks ++ text "\r\n") ++
    (line.indent.blank :: line.indent.blanks ++ (line.segment.render ++ text "\r\n"))

/-- A header whose value is written over one or more lines. -/
structure FoldedHeader where
  name : Text
  /-- The spaces in front of the value, less the one that belongs to the colon. -/
  spaces : ℕ
  first : Segment
  lines : List FoldedLine
  name_ne_nil : name ≠ []
  name_token : ∀ c ∈ name, IsToken c

/-- The bytes of a folded header. -/
def FoldedHeader.render (folded : FoldedHeader) : Text :=
  folded.name ++ (text ": " ++ (List.replicate folded.spaces ' '.toUInt8 ++
    (folded.first.render ++ (text "\r\n" ++ folded.lines.flatMap FoldedLine.render))))

/-- The bytes of a request head in which a folded header stands between others. -/
def RequestHead.renderFolded (head : RequestHead) (before : List HeaderLine) (folded : FoldedHeader)
    (after : List HeaderLine) : Text :=
  head.method ++ (text " " ++ (head.target ++ (text " HTTP/" ++ (head.major ++ (text "." ++
    (head.minor ++ (text "\r\n" ++ ((before.flatMap HeaderLine.render ++
      (folded.render ++ after.flatMap HeaderLine.render)) ++ text "\r\n"))))))))

/-- The segments of a folded value, in order. -/
def FoldedHeader.segments (folded : FoldedHeader) : List Segment :=
  folded.first :: folded.lines.map FoldedLine.segment

/-- A value has the segments of a folded header in order and keeps them apart, so that it has the
words of every unfolded spelling. -/
structure FoldedHeader.KeepsApart (folded : FoldedHeader) (value : Text) : Prop where
  /-- The header is read under its outer blanks. -/
  keptApart : KeptApart isBlank (folded.segments.map Segment.content) (value.dropWhile isBlank)
  sameWords : ∀ unfolded, KeptApart isBlank (folded.segments.map Segment.content) unfolded →
    words isBlank value = words isBlank unfolded

/-- Every segment but the last is followed by a space on its line. -/
def FoldedHeader.Spaced (folded : FoldedHeader) : Prop :=
  ∀ segment ∈ folded.segments.dropLast, segment.spaces ≠ 0

/-- A space may stand in a value. -/
private theorem isText_space : IsText ' '.toUInt8 := by
  simp only [IsText]
  decide

/-- The spaces behind a segment are blanks. -/
private theorem gap_blank {spaces : ℕ} :
    ∀ c ∈ List.replicate spaces ' '.toUInt8, isBlank c = true := by
  intro c hc
  rw [List.eq_of_mem_replicate hc]
  rfl

/-- The text of a segment with the spaces behind it. -/
private theorem render_text (segment : Segment) : ∀ c ∈ segment.render, IsText c := by
  intro c hc
  cases List.mem_append.mp hc with
  | inl hc => exact segment.content_text c hc
  | inr hc => exact List.eq_of_mem_replicate hc ▸ isText_space

/-- A segment does not begin with a space. -/
private theorem render_start (segment : Segment) : segment.render.head? ≠ some ' '.toUInt8 := by
  obtain ⟨content, spaces, hne, -, hfirst, -⟩ := segment
  cases content with
  | nil => exact absurd rfl hne
  | cons c content =>
    intro hspace
    rw [show c = ' '.toUInt8 by simpa [Segment.render] using hspace] at hfirst
    exact absurd (hfirst _ rfl) (by decide)

/-- A line of blanks as a continuation line. -/
def Indent.line (blanks : Indent) : ContinuationLine :=
  ⟨blanks.blank, blanks.blanks, [], blanks.blank_lws, blanks.blanks_lws, by simp, by simp⟩

/-- The continuation lines up to the end of a further segment. -/
def FoldedLine.continuations (line : FoldedLine) : List ContinuationLine :=
  line.blankLines.map Indent.line ++ [⟨line.indent.blank, line.indent.blanks, line.segment.render,
    line.indent.blank_lws, line.indent.blanks_lws, render_text line.segment,
    render_start line.segment⟩]

/-- A folded header as a header line of a request head. -/
def FoldedHeader.line (folded : FoldedHeader) : HeaderLine where
  name := folded.name
  value := List.replicate folded.spaces ' '.toUInt8 ++ folded.first.render
  continuations := folded.lines.flatMap FoldedLine.continuations
  name_ne_nil := folded.name_ne_nil
  name_token := folded.name_token
  value_text := by
    intro c hc
    cases List.mem_append.mp hc with
    | inl hc => exact List.eq_of_mem_replicate hc ▸ isText_space
    | inr hc => exact render_text folded.first c hc

/-- The continuation lines of a further segment have its bytes. -/
private theorem render_continuations (line : FoldedLine) :
    line.continuations.flatMap ContinuationLine.render = line.render := by
  simp only [FoldedLine.continuations, FoldedLine.render, List.flatMap_append, List.flatMap_map,
    List.flatMap_singleton]
  rfl

/-- As a header line, a folded header has its bytes. -/
theorem FoldedHeader.render_line (folded : FoldedHeader) : folded.line.render = folded.render := by
  simp only [HeaderLine.render, FoldedHeader.render, FoldedHeader.line, List.append_assoc,
    List.flatMap_assoc]
  rw [show (fun line : FoldedLine => line.continuations.flatMap ContinuationLine.render) =
    FoldedLine.render from funext render_continuations]

/-- A head with a folded header has its bytes. -/
private theorem render_folded (head : RequestHead) (before : List HeaderLine)
    (folded : FoldedHeader) (after : List HeaderLine) :
    head.renderFolded before folded after =
      { head with headers := before ++ folded.line :: after }.render := by
  rw [RequestHead.renderFolded, RequestHead.render, List.flatMap_append, List.flatMap_cons,
    folded.render_line]

/-- The continuation lines of a further segment add its text and the spaces behind it. -/
private theorem content_continuations (line : FoldedLine) :
    line.continuations.flatMap ContinuationLine.content = line.segment.render := by
  have hblank : (line.blankLines.map Indent.line).flatMap ContinuationLine.content = [] := by
    rw [List.flatMap_map, List.flatMap_eq_nil_iff]
    exact fun blanks _ => rfl
  rw [FoldedLine.continuations, List.flatMap_append, hblank, List.flatMap_singleton]
  rfl

/-- The segments with what is left between them. -/
def FoldedHeader.pieces (folded : FoldedHeader) : List (Text × Text) :=
  folded.segments.map fun segment => (segment.content, segment.gap)

/-- The parser keeps of a folded header its segments and the spaces at the ends of their lines. -/
theorem FoldedHeader.parsed_line (folded : FoldedHeader) : folded.line.parsed =
    ⟨folded.name, List.replicate folded.spaces ' '.toUInt8 ++ spread folded.pieces⟩ := by
  have hcontent : (folded.lines.flatMap FoldedLine.continuations).flatMap ContinuationLine.content =
      folded.lines.flatMap fun line => line.segment.render := by
    rw [List.flatMap_assoc]
    congr 1
    funext line
    exact content_continuations line
  have hspread : spread folded.pieces =
      folded.first.render ++ folded.lines.flatMap fun line => line.segment.render := by
    rw [FoldedHeader.pieces, FoldedHeader.segments, spread, List.flatMap_map, List.flatMap_cons,
      List.flatMap_map]
    rfl
  simp only [HeaderLine.parsed, FoldedHeader.line]
  rw [hcontent, hspread, List.append_assoc]

/-- What the parser keeps of a folded header keeps the segments apart exactly when each of them but
the last is followed by a space. -/
private theorem keepsApart_parsed_iff (folded : FoldedHeader) :
    folded.KeepsApart folded.line.parsed.value ↔ folded.Spaced := by
  have hsolid : ∀ p ∈ folded.pieces, Solid isBlank p.1 := by
    intro p hp
    obtain ⟨segment, -, rfl⟩ := List.mem_map.mp hp
    exact ⟨segment.content_ne_nil, segment.first_solid⟩
  have hgap : ∀ p ∈ folded.pieces, ∀ c ∈ p.2, isBlank c = true := by
    intro p hp
    obtain ⟨segment, -, rfl⟩ := List.mem_map.mp hp
    exact gap_blank
  have hspread := keptApart_spread_iff _ _ hsolid hgap
  change KeptApart isBlank (folded.pieces.map Prod.fst) (spread folded.pieces) ↔
    ∀ p ∈ folded.pieces.dropLast, p.2 ≠ [] at hspread
  have hfst : folded.pieces.map Prod.fst = folded.segments.map Segment.content := by
    rw [FoldedHeader.pieces, List.map_map]
    rfl
  have hspaced : (∀ p ∈ folded.pieces.dropLast, p.2 ≠ []) ↔ folded.Spaced := by
    rw [FoldedHeader.pieces, ← List.map_dropLast, List.forall_mem_map]
    simp only [Segment.gap, ne_eq, List.replicate_eq_nil_iff]
    rfl
  rw [hfst, hspaced] at hspread
  have hdrop : (List.replicate folded.spaces ' '.toUInt8 ++ spread folded.pieces).dropWhile isBlank
      = spread folded.pieces :=
    dropWhile_append_spread _ gap_blank (hsolid (folded.first.content, folded.first.gap) (by
      rw [FoldedHeader.pieces, FoldedHeader.segments, List.map_cons]
      exact List.mem_cons_self))
  rw [FoldedHeader.parsed_line]
  constructor
  · intro h
    have := h.keptApart
    rw [hdrop] at this
    exact hspread.mp this
  · intro h
    have hkept := hspread.mpr h
    refine ⟨by rw [hdrop]; exact hkept, fun unfolded hunfolded => ?_⟩
    rw [← words_dropWhile, hdrop, hkept.words, hunfolded.words]

/-- A header block with a folded header is accepted with a value that keeps the segments of the
header apart exactly when every segment but the last is followed by a space on its line. -/
theorem parseLoop_keepsApart_iff (head : RequestHead) (before after : List HeaderLine)
    (folded : FoldedHeader) (rest : Text) :
    (∃ p value,
        parseLoop .methodStart {} (head.renderFolded before folded after ++ rest) = .ok p ∧
        p.verdict = .true ∧ p.parsed.headers[before.length]? = some ⟨folded.name, value⟩ ∧
        folded.KeepsApart value) ↔ folded.Spaced := by
  rw [render_folded, parseLoop_render, ← keepsApart_parsed_iff]
  have hheader : ((before ++ folded.line :: after).map HeaderLine.parsed)[before.length]? =
      some folded.line.parsed := by
    rw [List.map_append, List.map_cons, List.getElem?_append_right (by simp)]
    simp
  constructor
  · rintro ⟨p, value, hp, -, hvalue, hkeeps⟩
    rw [← Except.ok.inj hp] at hvalue
    change ((before ++ folded.line :: after).map HeaderLine.parsed)[before.length]? = _ at hvalue
    rw [hheader, Option.some.injEq] at hvalue
    rw [hvalue]
    exact hkeeps
  · intro hkeeps
    exact ⟨_, _, rfl, rfl, hheader, hkeeps⟩

/-- A letter, with no space behind it. -/
private theorem letter_solid {letter : Text} (h : letter = text "a" ∨ letter = text "b") :
    (∀ c ∈ letter, IsText c) ∧ (∀ c ∈ letter.head?, isBlank c = false) ∧
      ∀ c ∈ letter.getLast?, isBlank c = false := by
  simp only [IsText]
  rcases h with rfl | rfl <;> decide

/-- Two words on two lines. -/
def wordsOnTwoLines : FoldedHeader where
  name := text "X"
  spaces := 0
  first := ⟨text "a", 0, List.cons_ne_nil _ _, (letter_solid (.inl rfl)).1,
    (letter_solid (.inl rfl)).2.1, (letter_solid (.inl rfl)).2.2⟩
  lines := [⟨[], ⟨' '.toUInt8, [], .inl rfl, by simp⟩, ⟨text "b", 0, List.cons_ne_nil _ _,
    (letter_solid (.inr rfl)).1, (letter_solid (.inr rfl)).2.1, (letter_solid (.inr rfl)).2.2⟩⟩]
  name_ne_nil := List.cons_ne_nil _ _
  name_token := by simp only [IsToken]; decide

/-- Two words on two lines become one. -/
theorem not_parseLoop_keepsApart_glued :
    wordsOnTwoLines.render = text "X: a\r\n b\r\n" ∧
      ¬ ∃ p value, parseLoop .methodStart {}
            (text "GET / HTTP/1.1\r\n" ++ wordsOnTwoLines.render ++ text "\r\n") = .ok p ∧
          p.verdict = .true ∧ p.parsed.headers[0]? = some ⟨wordsOnTwoLines.name, value⟩ ∧
          wordsOnTwoLines.KeepsApart value := by
  refine ⟨by decide, ?_⟩
  rintro ⟨p, value, hp, -, hvalue, hkeeps⟩
  have hloop : parseLoop .methodStart {}
      (text "GET / HTTP/1.1\r\n" ++ wordsOnTwoLines.render ++ text "\r\n") =
        .ok ⟨.true, 28, .expectingNewline3, ⟨text "GET", text "/", some 1, some 1,
          [⟨text "X", text "ab"⟩]⟩⟩ := by
    decide
  rw [← Except.ok.inj (hloop.symm.trans hp)] at hvalue
  obtain rfl : text "ab" = value := congrArg Header.value (Option.some.inj hvalue)
  have hwords := hkeeps.keptApart.words
  exact absurd hwords (by decide)

end Aite.Http
