import Mathlib.Data.List.Basic
import Mathlib.Data.Nat.Notation

/-!
# Paths as text

A path is read without a file system: as an optional name of a host, an optional root
directory and the names between separators. In the normal form no name stands for the
current directory, and a name before a parent directory is removed with it. One normal form
relative to another is what follows their common beginning, after a step up for each element
that the other has left.
-/

namespace LexicalPath

variable {A : Type*} [DecidableEq A]

/-- A path taken apart. -/
structure Parts (A : Type*) where
  rootName : List A := []
  rooted : Bool := false
  names : List (List A) := []
  /-- Whether the current directory follows the names as a last element. -/
  trailing : Bool := false

/-- The names between separators. -/
def namesOf (sep : A) (path : List A) : List (List A) := (path.splitOn sep).filter (· ≠ [])

/-- Take a path apart behind the name of a host. -/
def splitBehind (sep : A) (rootName path : List A) : Parts A where
  rootName := rootName
  rooted := path.head? = some sep
  names := namesOf sep path
  trailing := namesOf sep path ≠ [] ∧ path.getLast? = some sep

/-- Exactly two separators at the beginning are followed by the name of a host. -/
def hasRootName (sep : A) (path : List A) : Bool :=
  path.head? = some sep ∧ (path.drop 1).head? = some sep ∧ (path.drop 2).head? ≠ some sep

/-- Take a path apart. -/
def split (sep : A) (path : List A) : Parts A :=
  if hasRootName sep path then
    splitBehind sep (path.take 2 ++ (path.drop 2).takeWhile (· ≠ sep))
      ((path.drop 2).dropWhile (· ≠ sep))
  else splitBehind sep [] path

/-- The elements of a path in order. -/
def Parts.elements (sep dot : A) (p : Parts A) : List (List A) :=
  (if p.rootName = [] then [] else [p.rootName]) ++ (if p.rooted then [[sep]] else []) ++ p.names ++
    (if p.trailing then [[dot]] else [])

/-- Resolve one name. A step up from the root stays there, one from a path without root is kept. -/
def resolveName (dot : A) (rooted : Bool) (names : List (List A)) (name : List A) : List (List A) :=
  if name = [dot] then names
  else if name = [dot, dot] then
    match names.getLast? with
    | none => if rooted then names else names ++ [name]
    | some last => if last = [dot, dot] then names ++ [name] else names.dropLast
  else names ++ [name]

/-- The normal form of a path. A last element for the current directory stays. -/
def Parts.normal (dot : A) (p : Parts A) : Parts A :=
  let names := p.names.foldl (resolveName dot p.rooted) []
  { p with
    names
    trailing := p.trailing ∨ p.names.getLast? = some [dot] ∨
      (¬ p.rooted ∧ p.rootName = [] ∧ names = [] ∧ p.names ≠ []) }

/-- The normal form of a path as text. -/
def normalForm (sep dot : A) (path : List A) : Parts A := (split sep path).normal dot

/-- What follows the common beginning of two sequences. -/
def dropCommon : List (List A) → List (List A) → List (List A) × List (List A)
  | a :: p, b :: base => if a = b then dropCommon p base else (a :: p, b :: base)
  | p, base => (p, base)

/-- One sequence of elements relative to another, empty when they have nothing in common. -/
def relativeElements (dot : A) (p base : List (List A)) : List (List A) :=
  let rest := dropCommon p base
  if rest.1.length = p.length then []
  else if rest.1 = [] ∧ rest.2 = [] then [[dot]]
  else List.replicate rest.2.length [dot, dot] ++ rest.1

/-- The text of elements that are appended one after the other. -/
def joinNames (sep : A) (names : List (List A)) : List A := List.intercalate [sep] names

/-- `relative(path, base)`, for the normal forms of both. -/
def relative (sep dot : A) (path base : List A) : List A :=
  joinNames sep (relativeElements dot ((normalForm sep dot path).elements sep dot)
    ((normalForm sep dot base).elements sep dot))

/-- Equal beginnings are dropped. -/
theorem dropCommon_append (common p base : List (List A)) :
    dropCommon (common ++ p) (common ++ base) = dropCommon p base := by
  induction common with
  | nil => rfl
  | cons a common ih => rw [List.cons_append, List.cons_append, dropCommon, if_pos rfl, ih]

/-- Nothing is dropped against the empty sequence. -/
@[simp] theorem dropCommon_nil (p : List (List A)) : dropCommon p [] = (p, []) := by
  cases p <;> rfl

/-- Relative to a nonempty beginning of it, a sequence is its rest. -/
theorem relativeElements_append (dot : A) {base : List (List A)} (hbase : base ≠ [])
    (rest : List (List A)) :
    relativeElements dot (base ++ rest) base = if rest = [] then [[dot]] else rest := by
  have hdrop : dropCommon (base ++ rest) base = (rest, []) := by
    have h := dropCommon_append base rest []
    rw [List.append_nil] at h
    rw [h, dropCommon_nil]
  have hlength := List.length_pos_of_ne_nil hbase
  have hne : rest.length ≠ (base ++ rest).length := by
    rw [List.length_append]
    omega
  unfold relativeElements
  rw [hdrop]
  simp only [hne, if_false, and_true, List.length_nil, List.replicate_zero, List.nil_append]

/-- Sequences that begin with different elements have nothing in common. -/
theorem relativeElements_of_head_ne (dot : A) {p base : List (List A)}
    (h : p.head? ≠ base.head? ∨ base = []) : relativeElements dot p base = [] := by
  have hdrop : dropCommon p base = (p, base) := by
    cases p with
    | nil => rfl
    | cons a p =>
      cases base with
      | nil => rfl
      | cons b base =>
        rw [dropCommon, if_neg]
        simpa using h
  unfold relativeElements
  rw [hdrop]
  exact if_pos rfl

/-- The names of a path that is cut at a separator. -/
theorem namesOf_append_sep (sep : A) (path rest : List A) :
    namesOf sep (path ++ sep :: rest) = namesOf sep path ++ namesOf sep rest := by
  rw [namesOf, List.splitOn_append_cons_self, List.filter_append]
  rfl

/-- A path without separators is a name. -/
theorem namesOf_of_notMem {sep : A} {name : List A} (h : sep ∉ name) :
    namesOf sep name = if name = [] then [] else [name] := by
  rw [namesOf, List.splitOn_eq_singleton h]
  by_cases hname : name = [] <;> simp [hname]

/-- The names of a path that was joined of names are these names. -/
theorem namesOf_joinNames {sep : A} {names : List (List A)} (hsep : ∀ name ∈ names, sep ∉ name)
    (hne : ∀ name ∈ names, name ≠ []) : namesOf sep (joinNames sep names) = names := by
  by_cases hnil : names = []
  · subst hnil
    rfl
  · rw [namesOf, joinNames, List.splitOn_intercalate _ hsep hnil, List.filter_eq_self]
    intro name hname
    simpa using hne name hname

/-- Splitting at a separator leaves none. -/
theorem notMem_of_mem_splitOn {sep : A} {path name : List A} (h : name ∈ path.splitOn sep) :
    sep ∉ name := by
  induction path generalizing name with
  | nil =>
    rw [List.splitOn_nil, List.mem_singleton] at h
    simp [h]
  | cons c rest ih =>
    rw [List.splitOn_cons_eq_if_modifyHead] at h
    split_ifs at h with hc
    · cases List.mem_cons.mp h with
      | inl h => simp [h]
      | inr h => exact ih h
    · obtain ⟨first, more, hsplit⟩ := List.exists_cons_of_ne_nil (List.splitOn_ne_nil sep rest)
      rw [hsplit, List.modifyHead_cons] at h
      cases List.mem_cons.mp h with
      | inl h =>
        have hfirst : sep ∉ first := ih (hsplit ▸ List.mem_cons_self)
        have hsep : ¬ sep = c := fun heq => hc (by simp [heq])
        rw [h, List.mem_cons, not_or]
        exact ⟨hsep, hfirst⟩
      | inr h => exact ih (hsplit ▸ List.mem_cons_of_mem _ h)

/-- Resolving a name adds it, removes the last one, or changes nothing. -/
theorem resolveName_cases (dot : A) (rooted : Bool) (names : List (List A)) (name : List A) :
    resolveName dot rooted names name = names ∨
      resolveName dot rooted names name = names.dropLast ∨
        resolveName dot rooted names name = names ++ [name] := by
  unfold resolveName
  by_cases hdot : name = [dot]
  · exact .inl (if_pos hdot)
  · rw [if_neg hdot]
    by_cases hup : name = [dot, dot]
    · rw [if_pos hup]
      cases names.getLast? with
      | none =>
        cases rooted with
        | true => exact .inl rfl
        | false => exact .inr (.inr rfl)
      | some last =>
        by_cases hlast : last = [dot, dot]
        · exact .inr (.inr (if_pos hlast))
        · exact .inr (.inl (if_neg hlast))
    · exact .inr (.inr (if_neg hup))

/-- Resolving names gives no new ones. -/
theorem mem_foldl_resolveName {dot : A} {rooted : Bool} {names start : List (List A)}
    {name : List A} (h : name ∈ names.foldl (resolveName dot rooted) start) :
    name ∈ start ∨ name ∈ names := by
  induction names generalizing start with
  | nil => exact .inl h
  | cons first names ih =>
    cases ih h with
    | inr h => exact .inr (List.mem_cons_of_mem _ h)
    | inl h =>
      rcases resolveName_cases dot rooted start first with heq | heq | heq
      · exact .inl (heq ▸ h)
      · rw [heq] at h
        exact .inl ((List.dropLast_sublist _).subset h)
      · rw [heq, List.mem_append, List.mem_singleton] at h
        cases h with
        | inl h => exact .inl h
        | inr h => exact .inr (h ▸ List.mem_cons_self)

/-- The normal form of a path without the name of a host. -/
theorem normalForm_eq {sep : A} (dot : A) {path : List A} (h : hasRootName sep path = false) :
    normalForm sep dot path = (splitBehind sep [] path).normal dot := by
  rw [normalForm, split, h]
  rfl

/-- Without a root directory at its beginning, the normal form does not begin with one. -/
theorem head?_elements_ne {sep dot : A} (hdot : dot ≠ sep) (path : List A)
    (h : path.head? = some sep → hasRootName sep path = true) :
    ((normalForm sep dot path).elements sep dot).head? ≠ some [sep] := by
  cases hroot : hasRootName sep path with
  | true =>
    -- the name of a host has two separators
    have hname : ∃ a b rest, (normalForm sep dot path).rootName = a :: b :: rest := by
      rw [normalForm, split, hroot, if_pos rfl]
      cases path with
      | nil => simp [hasRootName] at hroot
      | cons a path =>
        cases path with
        | nil => simp [hasRootName] at hroot
        | cons b path => exact ⟨a, b, _, rfl⟩
    obtain ⟨a, b, rest, hname⟩ := hname
    simp [Parts.elements, hname]
  | false =>
    have hhead : path.head? ≠ some sep := by
      intro heq
      rw [h heq] at hroot
      cases hroot
    rw [normalForm_eq dot hroot]
    intro hfirst
    have hmem := List.mem_of_head? hfirst
    simp only [Parts.elements, Parts.normal, splitBehind, hhead, if_true, decide_false,
      Bool.false_eq_true, if_false, List.nil_append, List.mem_append] at hmem
    cases hmem with
    | inl hmem =>
      cases mem_foldl_resolveName hmem with
      | inl hmem => exact absurd hmem List.not_mem_nil
      | inr hmem =>
        exact notMem_of_mem_splitOn (List.mem_of_mem_filter hmem) (List.mem_singleton_self sep)
    | inr hmem =>
      split_ifs at hmem
      · simp only [List.mem_singleton, List.cons.injEq, and_true] at hmem
        exact hdot hmem.symm
      · exact absurd hmem List.not_mem_nil

end LexicalPath
