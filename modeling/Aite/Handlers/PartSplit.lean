import Aite.Handlers.MultipartRoundTrip

/-!
# Reading a part splits the stream

The loop over `std::getline` on the text of the stream itself. It takes the next line and its
newline until it finds a delimiter line, so that what it has consumed then is the header, the
blank line behind it, the body and the delimiter line, each newline included. On the lines of the
stream it is the reader of the form.
-/

namespace Aite.Handlers

open MemeHandler

/-- `std::getline`: the next line and what is left of the stream, none at its end. -/
def getline (s : Text) : Option (Text × Text) :=
  if s = [] then none
  else some (s.takeWhile (· ≠ '\n'.toUInt8), (s.dropWhile (· ≠ '\n'.toUInt8)).tail)

/-- A stream begins with a line, with or without its newline, before a rest. -/
structure BeginsWith (s line newline rest : Text) : Prop where
  split : s = line ++ newline ++ rest
  oneLine : '\n'.toUInt8 ∉ line
  newline : newline = text "\n" ∨ newline = [] ∧ rest = [] ∧ line ≠ []

/-- At the end of the stream there is no line, and otherwise the stream begins with the next
one. -/
theorem getline_cases (s : Text) : s = [] ∧ getline s = none ∨
    ∃ line newline rest, getline s = some (line, rest) ∧ BeginsWith s line newline rest := by
  by_cases hs : s = []
  · exact .inl ⟨hs, if_pos hs⟩
  · right
    have hsplit := List.takeWhile_append_dropWhile (p := (· ≠ '\n'.toUInt8)) (l := s)
    have hline : '\n'.toUInt8 ∉ s.takeWhile (· ≠ '\n'.toUInt8) := by
      intro hmem
      simpa using List.mem_takeWhile_imp hmem
    cases hrest : s.dropWhile (· ≠ '\n'.toUInt8) with
    | nil =>
      rw [hrest, List.append_nil] at hsplit
      refine ⟨_, [], [], by rw [getline, if_neg hs, hrest]; rfl, ?_, hline, ?_⟩
      · simp only [List.append_nil, hsplit]
      · rw [hsplit]
        exact .inr ⟨rfl, rfl, hs⟩
    | cons c rest =>
      have hc : c = '\n'.toUInt8 := by
        have hhead := List.head?_dropWhile_not (· ≠ '\n'.toUInt8) s
        rw [hrest] at hhead
        simpa using hhead
      refine ⟨_, text "\n", rest, by rw [getline, if_neg hs, hrest]; rfl, ?_, hline, .inl rfl⟩
      rw [hrest, hc] at hsplit
      rw [List.append_assoc]
      exact hsplit.symm

/-- A stream from which a line was taken begins with it. -/
theorem exists_beginsWith {s line rest : Text} (h : getline s = some (line, rest)) :
    ∃ newline, BeginsWith s line newline rest := by
  cases getline_cases s with
  | inl hend =>
    rw [hend.2] at h
    cases h
  | inr hnext =>
    obtain ⟨line', newline, rest', hget, hbegins⟩ := hnext
    cases hget.symm.trans h
    exact ⟨newline, hbegins⟩

/-- The next line leaves less of the stream. -/
theorem getline_length {s line rest : Text} (h : getline s = some (line, rest)) :
    rest.length < s.length := by
  obtain ⟨newline, hbegins⟩ := exists_beginsWith h
  rw [hbegins.split, List.length_append, List.length_append]
  cases hbegins.newline with
  | inl hnewline =>
    rw [hnewline]
    change rest.length < line.length + 1 + rest.length
    omega
  | inr hlast =>
    have hpos := List.length_pos_iff.mpr hlast.2.2
    omega

namespace MemeHandler

/-- The loop of `MemeHandler::parse` on the text of the stream. -/
def parseStreamLoop (boundary : Text) (state : PartState) (crlf_end : Bool) (part : Part)
    (ss_body : Text) : Bool × Part × Text :=
  match _hline : getline ss_body with
  | none => (false, part, ss_body)
  | some (curr_line, rest) =>
    match state with
    | .readingHeader =>
      if isBoundary boundary curr_line then (true, part, rest)
      else if curr_line = text "\r" ∧ crlf_end = true then
        parseStreamLoop boundary .readingBody (crlfEnd curr_line) part rest
      else
        let part := { part with header := part.header ++ curr_line ++ text "\n" }
        parseStreamLoop boundary .readingHeader (crlfEnd curr_line) part rest
    | .readingBody =>
      if isBoundary boundary curr_line then (true, part, rest)
      else
        let part := { part with body := part.body ++ curr_line ++ text "\n" }
        parseStreamLoop boundary .readingBody (crlfEnd curr_line) part rest
termination_by ss_body.length
decreasing_by all_goals exact getline_length _hline

/-- `MemeHandler::parse` on the text of the stream: whether there was a delimiter line, the part,
and what is left of the stream. -/
def parseStream (boundary ss_body : Text) : Bool × Part × Text :=
  parseStreamLoop boundary .readingHeader false {} ss_body

end MemeHandler

variable {boundary s line newline rest delimiter : Text} {lines : List Text} {state : PartState}
  {crlf : Bool} {part : Part}

/-- The lines of a stream from which a line was taken. -/
theorem linesOf_of_getline (h : getline s = some (line, rest)) :
    linesOf s = line :: linesOf rest := by
  obtain ⟨newline, hbegins⟩ := exists_beginsWith h
  rw [hbegins.split]
  cases hbegins.newline with
  | inl hnewline =>
    rw [hnewline]
    exact linesOf_cons hbegins.oneLine rest
  | inr hlast =>
    obtain ⟨rfl, rfl, hne⟩ := hlast
    have hnil : linesOf [] = [] := rfl
    rw [List.append_nil, List.append_nil, hnil, linesOf, List.splitOn_eq_singleton hbegins.oneLine]
    simp [hne]

/-! ## The loop -/

/-- Lines that are no delimiters, a delimiter line, and what is left. -/
structure EndsAt (boundary s : Text) (lines : List Text) (delimiter newline rest : Text) : Prop where
  split : s = unlines lines ++ delimiter ++ newline ++ rest
  content : ∀ line ∈ lines, '\n'.toUInt8 ∉ line ∧ isBoundary boundary line = false
  delimiter : '\n'.toUInt8 ∉ delimiter ∧ isBoundary boundary delimiter = true
  newline : newline = text "\n" ∨ newline = [] ∧ rest = []

/-- An empty line is no delimiter. -/
private theorem isBoundary_nil (boundary : Text) : isBoundary boundary [] = false := by
  simp [isBoundary, text]

/-- A line that is no delimiter comes before the delimiter line, and has a newline. -/
private theorem EndsAt.cons {last after : Text} (h : EndsAt boundary rest lines delimiter last after)
    (hbegins : BeginsWith s line newline rest) (hline : ¬ isBoundary boundary line = true) :
    EndsAt boundary s (line :: lines) delimiter last after := by
  refine ⟨?_, fun other hother => ?_, h.delimiter, h.newline⟩
  · cases hbegins.newline with
    | inl hnewline =>
      rw [hbegins.split, hnewline, h.split]
      simp only [unlines, List.flatMap_cons, List.append_assoc]
    | inr hlast =>
      -- Behind a last line without a newline there is no delimiter.
      have hempty := h.split
      rw [hlast.2.1, eq_comm, List.append_eq_nil_iff, List.append_eq_nil_iff,
        List.append_eq_nil_iff] at hempty
      have hdelimiter := h.delimiter.2
      rw [hempty.1.1.2, isBoundary_nil] at hdelimiter
      cases hdelimiter
  · cases List.mem_cons.mp hother with
    | inl hother => exact hother ▸ ⟨hbegins.oneLine, Bool.eq_false_iff.mpr hline⟩
    | inr hother => exact h.content other hother

/-- The loop reads a part up to a delimiter line, or the whole stream. -/
def Reads (boundary : Text) (state : PartState) (crlf : Bool) (part : Part) (s : Text)
    (result : Bool × Part × Text) : Prop :=
  (∃ lines delimiter newline rest, EndsAt boundary s lines delimiter newline rest ∧
    result = (true, readLines state crlf part lines, rest)) ∨
  result = (false, readLines state crlf part (linesOf s), []) ∧
    ∀ line ∈ linesOf s, isBoundary boundary line = false

/-- A delimiter line ends a part. -/
private theorem Reads.found (hget : getline s = some (line, rest))
    (hline : isBoundary boundary line = true) (hread : readLines state crlf part [] = part) :
    Reads boundary state crlf part s (true, part, rest) := by
  obtain ⟨newline, hbegins⟩ := exists_beginsWith hget
  have hnewline : newline = text "\n" ∨ newline = [] ∧ rest = [] :=
    hbegins.newline.imp_right fun hlast => ⟨hlast.1, hlast.2.1⟩
  refine .inl ⟨[], line, newline, rest, ⟨hbegins.split, ?_, ⟨hbegins.oneLine, hline⟩, hnewline⟩, ?_⟩
  · exact fun _ h => absurd h List.not_mem_nil
  · rw [hread]

/-- A line that is no delimiter is read before the rest of the stream. -/
private theorem Reads.cons {other : PartState} {next : Part} {result : Bool × Part × Text}
    (h : Reads boundary other (crlfEnd line) next rest result)
    (hget : getline s = some (line, rest)) (hline : ¬ isBoundary boundary line = true)
    (hread : ∀ lines, readLines state crlf part (line :: lines) =
      readLines other (crlfEnd line) next lines) : Reads boundary state crlf part s result := by
  obtain ⟨newline, hbegins⟩ := exists_beginsWith hget
  cases h with
  | inl hfound =>
    obtain ⟨lines, delimiter, last, after, hends, hresult⟩ := hfound
    refine .inl ⟨line :: lines, delimiter, last, after, hends.cons hbegins hline, ?_⟩
    rw [hread, hresult]
  | inr hnone =>
    rw [Reads, linesOf_of_getline hget, hread]
    refine .inr ⟨hnone.1, fun other hother => ?_⟩
    cases List.mem_cons.mp hother with
    | inl hother => exact hother ▸ Bool.eq_false_iff.mpr hline
    | inr hother => exact hnone.2 other hother

/-- The stream from which no line can be taken is at its end. -/
private theorem eq_nil_of_getline (h : getline s = none) : s = [] := by
  cases getline_cases s with
  | inl hend => exact hend.1
  | inr hnext =>
    obtain ⟨line, newline, rest, hget, -⟩ := hnext
    cases hget.symm.trans h

/-- Whatever the state, the loop reads up to a delimiter line or the whole stream. -/
theorem reads_parseStreamLoop (boundary : Text) (state : PartState) (crlf : Bool) (part : Part)
    (s : Text) :
    Reads boundary state crlf part s (parseStreamLoop boundary state crlf part s) := by
  fun_induction parseStreamLoop boundary state crlf part s with
  | case1 state crlf part s hget =>
    rw [eq_nil_of_getline hget]
    cases state <;> exact .inr ⟨rfl, fun _ h => absurd h List.not_mem_nil⟩
  | case2 crlf part s line rest hget hline => exact .found hget hline rfl
  | case3 crlf part s line rest hget hline hblank ih =>
    exact ih.cons hget hline fun lines => if_pos hblank
  | case4 crlf part s line rest hget hline hblank next ih =>
    exact ih.cons hget hline fun lines => if_neg hblank
  | case5 crlf part s line rest hget hline => exact .found hget hline rfl
  | case6 crlf part s line rest hget hline next ih => exact ih.cons hget hline fun lines => rfl

/-- On the lines of the stream the loop is the reader of the form. -/
theorem parseLoop_linesOf (boundary : Text) (state : PartState) (crlf : Bool) (part : Part)
    (s : Text) :
    parseLoop boundary state crlf part (linesOf s) =
      ((parseStreamLoop boundary state crlf part s).1,
        (parseStreamLoop boundary state crlf part s).2.1,
        linesOf (parseStreamLoop boundary state crlf part s).2.2) := by
  fun_induction parseStreamLoop boundary state crlf part s with
  | case1 state crlf part s hget =>
    rw [eq_nil_of_getline hget]
    cases state <;> rfl
  | case2 crlf part s line rest hget hline =>
    rw [linesOf_of_getline hget, parseLoop, if_pos hline]
  | case3 crlf part s line rest hget hline hblank ih =>
    rw [linesOf_of_getline hget, parseLoop, if_neg hline, if_pos hblank, ih]
  | case4 crlf part s line rest hget hline hblank next ih =>
    rw [linesOf_of_getline hget, parseLoop, if_neg hline, if_neg hblank]
    exact ih
  | case5 crlf part s line rest hget hline =>
    rw [linesOf_of_getline hget, parseLoop, if_pos hline]
  | case6 crlf part s line rest hget hline next ih =>
    rw [linesOf_of_getline hget, parseLoop, if_neg hline]
    exact ih

/-! ## Header and body -/

/-- No line is a lone carriage return behind a line that ends in one. -/
def Unseparated : Bool → List Text → Prop
  | _, [] => True
  | crlf, line :: rest => ¬ (line = text "\r" ∧ crlf = true) ∧ Unseparated (crlfEnd line) rest

/-- The flag of the loop behind some lines: whether the last of them ends in a carriage return. -/
def lastCrlf : Bool → List Text → Bool
  | crlf, [] => crlf
  | _, line :: rest => lastCrlf (crlfEnd line) rest

/-- The flag is that of the last line, if there is one. -/
theorem lastCrlf_eq (crlf : Bool) (lines : List Text) :
    lastCrlf crlf lines = (lines.getLast?.map crlfEnd).getD crlf := by
  induction lines generalizing crlf with
  | nil => rfl
  | cons line rest ih =>
    rw [lastCrlf, ih, List.getLast?_cons]
    cases rest.getLast? <;> rfl

/-- Lines are read into the header up to the first lone carriage return behind a line that ends in
one, and into the body behind it. -/
theorem readLines_cases (crlf : Bool) (part : Part) (lines : List Text) :
    (Unseparated crlf lines ∧ readLines .readingHeader crlf part lines =
      { part with header := part.header ++ unlines lines }) ∨
    ∃ header body, lines = header ++ text "\r" :: body ∧ Unseparated crlf header ∧
      lastCrlf crlf header = true ∧ readLines .readingHeader crlf part lines =
        ⟨part.header ++ unlines header, part.body ++ unlines body⟩ := by
  have hnil : part.header ++ unlines [] = part.header := List.append_nil _
  induction lines generalizing crlf part with
  | nil =>
    refine .inl ⟨trivial, ?_⟩
    rw [readLines, hnil]
  | cons line lines ih =>
    by_cases hblank : line = text "\r" ∧ crlf = true
    · refine .inr ⟨[], lines, ?_, trivial, hblank.2, ?_⟩
      · rw [hblank.1]
        rfl
      · rw [readLines, if_pos hblank, readLines_body, hnil]
    · have hunlines (others : List Text) : part.header ++ line ++ text "\n" ++ unlines others =
          part.header ++ unlines (line :: others) := by
        simp only [unlines, List.flatMap_cons, List.append_assoc]
      rw [readLines, if_neg hblank]
      cases ih (crlfEnd line) { part with header := part.header ++ line ++ text "\n" }
          (List.append_nil _) with
      | inl hheader =>
        left
        rw [hheader.2, ← hunlines]
        exact ⟨⟨hblank, hheader.1⟩, rfl⟩
      | inr hbody =>
        obtain ⟨header, body, hlines, hunseparated, hlast, hread⟩ := hbody
        refine .inr ⟨line :: header, body, ?_, ⟨hblank, hunseparated⟩, hlast, ?_⟩
        · rw [hlines]
          rfl
        · rw [hread, ← hunlines]

/-- What was consumed of the stream is the header, the line that separates it from the body, the
body and a delimiter line with its newline if it had one. Header and body are whole lines and no
delimiter is among them. The separator is there if the body state was entered, that is, at the
first lone carriage return behind a line that ends in one. -/
structure Partitions (boundary s : Text) (part : Part) (rest : Text) (header body : List Text)
    (separator delimiter newline : Text) : Prop where
  split : s = part.header ++ separator ++ part.body ++ delimiter ++ newline ++ rest
  lines : part = ⟨unlines header, unlines body⟩
  content : ∀ line ∈ header ++ body, '\n'.toUInt8 ∉ line ∧ isBoundary boundary line = false
  unseparated : Unseparated false header
  separator : (separator = text "\r\n" ∧ ∃ last, header.getLast? = some last ∧
    last.getLast? = some '\r'.toUInt8) ∨ separator = [] ∧ body = []
  delimiter : '\n'.toUInt8 ∉ delimiter ∧ isBoundary boundary delimiter = true
  newline : newline = text "\n" ∨ newline = [] ∧ rest = []

/-- A line that ends in a carriage return. -/
private theorem getLast_of_crlfEnd (h : crlfEnd line = true) :
    line.getLast? = some '\r'.toUInt8 := by
  unfold crlfEnd at h
  rw [Bool.and_eq_true] at h
  exact of_decide_eq_true h.2

/-- The lines before a delimiter line are a header, and a separator and a body if there is a lone
carriage return. -/
private theorem EndsAt.partitions (h : EndsAt boundary s lines delimiter newline rest) :
    ∃ header body separator, Partitions boundary s (partOf lines) rest header body separator
      delimiter newline := by
  cases readLines_cases false {} lines with
  | inl hheader =>
    have hpart : partOf lines = ⟨unlines lines, unlines []⟩ := hheader.2
    refine ⟨lines, [], [], ?_, hpart, ?_, hheader.1, .inr ⟨rfl, rfl⟩, h.delimiter, h.newline⟩
    · rw [hpart, h.split]
      simp [unlines]
    · rw [List.append_nil]
      exact h.content
  | inr hbody =>
    obtain ⟨header, body, hlines, hunseparated, hlast, hread⟩ := hbody
    have hpart : partOf lines = ⟨unlines header, unlines body⟩ := hread
    refine ⟨header, body, text "\r\n", ?_, hpart, fun line hline => h.content line ?_,
      hunseparated, .inl ⟨rfl, ?_⟩, h.delimiter, h.newline⟩
    · rw [hpart, h.split, hlines]
      simp [unlines, text]
    · rw [hlines]
      cases List.mem_append.mp hline with
      | inl hline => exact List.mem_append_left _ hline
      | inr hline => exact List.mem_append_right _ (List.mem_cons_of_mem _ hline)
    · rw [lastCrlf_eq] at hlast
      cases hend : header.getLast? with
      | none =>
        rw [hend] at hlast
        cases hlast
      | some last =>
        rw [hend] at hlast
        exact ⟨last, rfl, getLast_of_crlfEnd hlast⟩

/-- Reading a part either finds a delimiter line, and what it consumed is the header, the
separator, the body and that line, with the rest of the stream left as it was; or it consumes the
whole stream, in which no line is a delimiter. -/
theorem parseStream_partitions (boundary s : Text) :
    (∃ part rest header body separator delimiter newline,
      parseStream boundary s = (true, part, rest) ∧
      Partitions boundary s part rest header body separator delimiter newline) ∨
    ∃ part, parseStream boundary s = (false, part, []) ∧
      ∀ line ∈ linesOf s, isBoundary boundary line = false := by
  cases reads_parseStreamLoop boundary .readingHeader false {} s with
  | inl hfound =>
    obtain ⟨lines, delimiter, newline, rest, hends, hresult⟩ := hfound
    obtain ⟨header, body, separator, hpartitions⟩ := hends.partitions
    exact .inl ⟨_, rest, header, body, separator, delimiter, newline, hresult, hpartitions⟩
  | inr hnone => exact .inr ⟨_, hnone.1, hnone.2⟩

/-- The reader of the form takes the lines that the loop over the stream consumes, and leaves
those of the rest to the next part. -/
theorem parse_linesOf (boundary s : Text) :
    parse boundary (linesOf s) = ((parseStream boundary s).1, (parseStream boundary s).2.1,
      linesOf (parseStream boundary s).2.2) :=
  parseLoop_linesOf boundary .readingHeader false {} s

end Aite.Handlers
