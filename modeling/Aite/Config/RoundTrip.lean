import Aite.Config.ParseTree
import Aite.Config.QuotedSpellings

/-!
# Printing and parsing a config tree

A tree whose statements begin with a bare word is printed with one space between words, with
the quotes inside quoted strings escaped, and with a line for each statement. Parsing the text
gives the tree back, a quoted word being stored between two quotes.
-/

namespace Aite.Config

open BlockGrammar

/-- A word of a tree; a quoted one is given by its content. -/
inductive Arg where
  | bare (spelling : Text)
  | quoted (content : Text)
  deriving DecidableEq, Repr

/-- A bare word is not empty, has neither whitespace nor punctuation, and does not start with a
comment sign or a quote. A quoted string has no backslash. -/
def Arg.WellFormed : Arg → Prop
  | .bare spelling => spelling ≠ [] ∧ (∀ c ∈ spelling, endsBare c = false) ∧
      ∀ c ∈ spelling.head?, classify c ≠ .comment ∧ classify c ≠ .quote
  | .quoted content => '\\'.toUInt8 ∉ content

instance : DecidablePred Arg.WellFormed
  | .bare _ => inferInstanceAs (Decidable (_ ∧ _ ∧ _))
  | .quoted _ => inferInstanceAs (Decidable (¬ _))

/-- The words of a statement, the first of them bare. -/
def StatementWords (words : List Arg) : Prop :=
  (∃ spelling rest, words = .bare spelling :: rest) ∧ ∀ a ∈ words, a.WellFormed

/-- All statements have such words. -/
def Printable : Block Arg → Prop
  | .empty => True
  | .simple words rest => StatementWords words ∧ Printable rest
  | .nested words body rest => StatementWords words ∧ Printable body ∧ Printable rest

/-- A word as it is printed. -/
def Arg.render : Arg → Text
  | .bare spelling => spelling
  | .quoted content => '"'.toUInt8 :: (escape content ++ ['"'.toUInt8])

/-- A word as the parser stores it. -/
def Arg.stored : Arg → Text
  | .bare spelling => spelling
  | .quoted content => '"'.toUInt8 :: (content ++ ['"'.toUInt8])

/-- The words of a statement, separated by one space. -/
def renderWords (words : List Arg) : Text := [' '.toUInt8].intercalate (words.map Arg.render)

/-- A tree as it is printed. -/
def render : Block Arg → Text
  | .empty => []
  | .simple words rest => renderWords words ++ text " ;\n" ++ render rest
  | .nested words body rest =>
    renderWords words ++ text " \x7b " ++ render body ++ text " \x7d\n" ++ render rest

/-- A word in the lexical grammar. -/
def Arg.word : Arg → Word
  | .bare spelling => .bare spelling
  | .quoted content => .quoted '"'.toUInt8 (escape content)

variable {a : Arg} {words : List Arg} {tree : Block Arg} {content rest : Text} {c : UInt8}

/-! ## Words -/

/-- The tokenizer returns a word as it is stored. -/
private theorem token_word (h : a.WellFormed) : a.word.token.value = a.stored := by
  cases a with
  | bare spelling => rfl
  | quoted content =>
    change (Word.quoted '"'.toUInt8 (escape content)).token.value = _
    rw [value_token, decode_escape (expressible_of_notMem h)]
    rfl

/-- A printed word is read up to the space behind it. -/
private theorem lexStep_render (h : a.WellFormed) (rest : Text) :
    LexStep endsNormal (a.render ++ ' '.toUInt8 :: rest) [.word a.word] (' '.toUInt8 :: rest) := by
  cases a with
  | quoted content =>
    have hsplit : escape content ++ ['"'.toUInt8] ++ ' '.toUInt8 :: rest =
        escape content ++ '"'.toUInt8 :: ' '.toUInt8 :: rest := List.append_cons .. |>.symm
    exact .quoted rfl hsplit (insideQuotes_escape (expressible_of_notMem h) nofun) rfl
  | bare spelling =>
    obtain ⟨c, body, rfl, hc, hbody⟩ := exists_cons_of_bare h.1 h.2.1 h.2.2
    apply LexStep.bare_append hc fun d hd => endsNormal_of_endsBare (hbody d hd)
    intro d hd
    rw [← Option.some.inj hd]
    rfl

/-! ## Statements -/

/-- The words of a statement are read up to the space behind them. -/
private theorem lexesTo_renderWords (hne : words ≠ []) (h : ∀ a ∈ words, a.WellFormed)
    (rest : Text) :
    LexesTo endsNormal (renderWords words ++ ' '.toUInt8 :: rest)
      (words.map (.word ∘ Arg.word)) (' '.toUInt8 :: rest) := by
  induction words with
  | nil => exact absurd rfl hne
  | cons a words ih =>
    have hstep (rest : Text) := lexStep_render (h a List.mem_cons_self) rest
    cases words with
    | nil => exact .single (by simpa [renderWords] using hstep rest)
    | cons b words =>
      have hrest := ih (List.cons_ne_nil b words) fun d hd => h d (List.mem_cons_of_mem a hd)
      have hrender : renderWords (a :: b :: words) =
          a.render ++ ' '.toUInt8 :: renderWords (b :: words) := by
        simp [renderWords, List.intercalate]
      rw [hrender, List.append_assoc]
      exact .head (hstep _) (.head (.space rfl) hrest)

/-- A printed tree is read item by item. -/
private theorem lexesTo_render (h : Printable tree) (rest : Text) :
    LexesTo endsNormal (render tree ++ rest) (tree.map Arg.word).flatten rest := by
  induction tree generalizing rest with
  | empty => exact .refl
  | simple words tail ih =>
    have hne : words ≠ [] := by
      obtain ⟨⟨spelling, others, rfl⟩, -⟩ := h.1
      exact List.cons_ne_nil _ _
    have hwords := lexesTo_renderWords hne h.1.2 (text ";\n" ++ (render tail ++ rest))
    have hstop : LexesTo endsNormal (' '.toUInt8 :: (text ";\n" ++ (render tail ++ rest)))
        (.stop :: (tail.map Arg.word).flatten) rest :=
      .head (.space rfl) (.head (.stop rfl) (.head (.space rfl) (ih h.2 rest)))
    have hall := hwords.trans hstop
    have hrender : render (.simple words tail) ++ rest =
        renderWords words ++ ' '.toUInt8 :: (text ";\n" ++ (render tail ++ rest)) := by
      rw [render, List.append_assoc, List.append_assoc]
      rfl
    rw [hrender, Block.map, Block.flatten, List.map_map]
    exact hall
  | nested words body tail ihbody ih =>
    have hne : words ≠ [] := by
      obtain ⟨⟨spelling, others, rfl⟩, -⟩ := h.1
      exact List.cons_ne_nil _ _
    have hwords := lexesTo_renderWords hne h.1.2
      (text "\x7b " ++ (render body ++ (text " \x7d\n" ++ (render tail ++ rest))))
    have hleave : LexesTo endsNormal (text " \x7d\n" ++ (render tail ++ rest))
        (.leave :: (tail.map Arg.word).flatten) rest :=
      .head (.space rfl) (.head (.leave rfl) (.head (.space rfl) (ih h.2.2 rest)))
    have hbody := (ihbody h.2.1 _).trans hleave
    have hspace : LexesTo endsNormal (' '.toUInt8 ::
        (render body ++ (text " \x7d\n" ++ (render tail ++ rest)))) _ rest :=
      .head (.space rfl) hbody
    have henter : LexesTo endsNormal (' '.toUInt8 ::
        (text "\x7b " ++ (render body ++ (text " \x7d\n" ++ (render tail ++ rest)))))
        (.enter :: ((body.map Arg.word).flatten ++ .leave :: (tail.map Arg.word).flatten)) rest :=
      .head (.space rfl) (.head (.enter rfl) hspace)
    have hall := hwords.trans henter
    have hrender : render (.nested words body tail) ++ rest = renderWords words ++ ' '.toUInt8 ::
        (text "\x7b " ++ (render body ++ (text " \x7d\n" ++ (render tail ++ rest)))) := by
      rw [render]
      simp only [List.append_assoc]
      rfl
    rw [hrender, Block.map, Block.flatten, List.map_map]
    exact hall

/-- Every statement of a printable tree has a word. -/
private theorem Printable.proper (h : Printable tree) : tree.Proper := by
  have hne {words : List Arg} (h : StatementWords words) : words ≠ [] := by
    obtain ⟨⟨spelling, others, rfl⟩, -⟩ := h
    exact List.cons_ne_nil _ _
  induction tree with
  | empty => trivial
  | simple words tail ih => exact ⟨hne h.1, ih h.2⟩
  | nested words body tail ihbody ih => exact ⟨hne h.1, ihbody h.2.1, ih h.2.2⟩

/-- Every statement of a printable tree begins with a bare word. -/
private theorem Printable.firstWordsStart (h : Printable tree) (rest : List (Sym Token))
    (hrest : FirstWordsStart Token.starts false rest) :
    FirstWordsStart Token.starts false
      ((tree.map fun a => a.word.token).flatten ++ rest) := by
  induction tree generalizing rest with
  | empty => exact hrest
  | simple words tail ih =>
    obtain ⟨⟨⟨spelling, others, rfl⟩, -⟩, htail⟩ := h
    rw [Block.map, Block.flatten, List.append_assoc]
    exact firstWordsStart_cons rfl rfl (ih htail rest hrest)
  | nested words body tail ihbody ih =>
    obtain ⟨⟨⟨spelling, others, rfl⟩, -⟩, hbody, htail⟩ := h
    rw [Block.map, Block.flatten, List.append_assoc, List.cons_append, List.append_assoc]
    have hleave (v : Token) (_ : false = false) (hword : Sym.leave = Sym.word v) :
        v.starts = true := by cases hword
    exact firstWordsStart_cons rfl rfl (ihbody hbody _ ⟨hleave, ih htail rest hrest⟩)

/-- The stored words are the values of the tokens. -/
private theorem map_stored (h : Printable tree) :
    (tree.map fun a => a.word.token).map Token.value = tree.map Arg.stored := by
  have hwords {words : List Arg} (h : StatementWords words) :
      (words.map fun a => a.word.token).map Token.value = words.map Arg.stored := by
    rw [List.map_map]
    exact List.map_congr_left fun a ha => token_word (h.2 a ha)
  induction tree with
  | empty => rfl
  | simple words tail ih => simp only [Block.map, hwords h.1, ih h.2]
  | nested words body tail ihbody ih =>
    simp only [Block.map, hwords h.1, ihbody h.2.1, ih h.2.2]

/-- Parsing a printed tree into an empty config returns true and gives the tree back. -/
theorem parseText_render (h : Printable tree) :
    ∃ store, parseText (render tree) = .ok (true, store) ∧
      Holds store 0 (tree.map Arg.stored) := by
  have hproper := h.proper
  have haccepts : accepts false 0 (tree.map Arg.word).flatten = true :=
    accepts_iff.mpr ⟨_, hproper.map Arg.word, rfl⟩
  have hlexes := lexesTo_render h []
  rw [List.append_nil] at hlexes
  obtain ⟨n, -, hscan⟩ := scan_of_lexesTo hlexes (.inl ⟨rfl, getLast_of_accepts haccepts⟩)
    (s := .ofText (render tree)) (.inl ⟨[], rfl⟩)
  have htokens : (tree.map Arg.word).flatten.map (BlockGrammar.Sym.map Word.token) =
      (tree.map fun a => a.word.token).flatten := by
    rw [← Block.flatten_map, Block.map_map]
    rfl
  rw [htokens] at hscan
  have haccepts' : accepts false 0 (tree.map fun a => a.word.token).flatten = true :=
    accepts_iff.mpr ⟨_, hproper.map _, rfl⟩
  have hfirst := h.firstWordsStart [] trivial
  rw [List.append_nil] at hfirst
  obtain ⟨store, config, hok, hholds, hconfig, hflatten⟩ :=
    parseText_of_firstWordsStart ⟨n, hscan⟩ haccepts' hfirst
  have htree : config = tree.map Arg.stored := by
    apply flatten_injective hconfig (hproper.map _)
    rw [hflatten, ← Block.flatten_map, map_stored h]
  rw [htree] at hholds
  exact ⟨store, hok, hholds⟩

/-- A tree with a block and an escaped quote is given back. -/
theorem parseText_render_nested : ∃ store,
    parseText (text "a \"\\\"\" \x7b b ;\n \x7d\n") = .ok (true, store) ∧
      Holds store 0 (.nested [text "a", text "\"\"\""] (.simple [text "b"] .empty) .empty) := by
  have h : Printable (.nested [.bare (text "a"), .quoted (text "\"")]
      (.simple [.bare (text "b")] .empty) .empty) :=
    ⟨⟨⟨_, _, rfl⟩, by decide⟩, ⟨⟨⟨_, _, rfl⟩, by decide⟩, trivial⟩, trivial⟩
  exact parseText_render h

end Aite.Config
