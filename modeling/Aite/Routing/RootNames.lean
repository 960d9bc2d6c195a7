import Aite.Routing.AbsolutePath

/-!
# Paths that begin with two slashes

The library completes a path with the working directory unless it has a root directory. Exactly two
leading slashes begin a root name, which goes on to the next slash, so `//net` is completed although
it begins with a slash. Normalisation gives a canonical form all the same. Behind an absolute path
it may start from the normal form of this path, unless joining one of the two makes a root name.
-/

namespace Aite.Routing

/-- Two slashes and no further one: a root name without a root directory. -/
def isRootName (path : Text) : Bool :=
  path.take 2 = text "//" && decide ('/'.toUInt8 ∉ path.drop 2)

/-- What is relied on of `path::is_absolute()`: a path that begins with a slash is absolute unless
it is a root name, and no other path is. -/
structure TellsAbsolute (absolute : Text → Bool) : Prop where
  rooted : ∀ path, path.head? = some '/'.toUInt8 → isRootName path = false → absolute path = true
  unrooted : ∀ path, path.head? ≠ some '/'.toUInt8 → absolute path = false

/-- `system_complete(path)` in the working directory `cwd`, with the library's `is_absolute()`. No
separator is put before a path that begins with one. -/
def systemCompleteBy (absolute : Text → Bool) (cwd path : Text) : Text :=
  if path = [] ∨ absolute path = true then path
  else if path.head? = some '/'.toUInt8 then cwd ++ path
  else systemComplete cwd path

/-- Simplify `.` and `..` directories of the path that the library completes. -/
def convertToAbsolutePathBy (absolute : Text → Bool) (cwd path : Text) : Run Text := do
  let pathComps ← splitLoop [] [] (systemCompleteBy absolute cwd (stripQuotes path))
  .ok (joinComponents pathComps)

/-- Normalisation gives canonical paths, and changes no path that it gave. -/
structure Canonises (absolute : Text → Bool) (cwd : Text) : Prop where
  canonical : ∀ path n, convertToAbsolutePathBy absolute cwd path = .ok n → IsCanonical n
  idempotent : ∀ path n, convertToAbsolutePathBy absolute cwd path = .ok n →
    convertToAbsolutePathBy absolute cwd n = .ok n

/-- Where `p/q` can be normalised, this may start from what `p` is normalised to. -/
def ComposesAt (absolute : Text → Bool) (cwd p q : Text) : Prop :=
  ∀ n, convertToAbsolutePathBy absolute cwd (p ++ '/'.toUInt8 :: q) = .ok n →
    ∃ m, convertToAbsolutePathBy absolute cwd p = .ok m ∧
      convertToAbsolutePathBy absolute cwd (m ++ '/'.toUInt8 :: q) = .ok n

/-- One of the joined paths is a root name: `p` is a single slash and `q` has none, or `p` is
normalised to the root and `q` is a slash and a name. -/
def JoinsRootName (absolute : Text → Bool) (cwd p q : Text) : Prop :=
  (p = text "/" ∧ '/'.toUInt8 ∉ q) ∨
    (convertToAbsolutePathBy absolute cwd p = .ok [] ∧
      ∃ name, q = '/'.toUInt8 :: name ∧ '/'.toUInt8 ∉ name)

/-- A path has a root directory when it begins with a slash and is not a root name. -/
def hasRootDirectory (path : Text) : Bool :=
  path.head? = some '/'.toUInt8 && !isRootName path

variable {absolute : Text → Bool} {cwd path p q : Text} {dirs : List Text}

/-- Having a root directory is what is relied on. -/
theorem tellsAbsolute_hasRootDirectory : TellsAbsolute hasRootDirectory where
  rooted path hhead hname := by
    rw [hasRootDirectory, hname, decide_eq_true hhead]
    rfl
  unrooted path hhead := by
    rw [hasRootDirectory, decide_eq_false hhead]
    rfl

/-- An absolute path begins with a slash. -/
theorem TellsAbsolute.head? (h : TellsAbsolute absolute) (hp : absolute p = true) :
    p.head? = some '/'.toUInt8 := by
  by_contra hhead
  rw [h.unrooted p hhead] at hp
  cases hp

/-- A path that does not begin with a quote has none to remove. -/
theorem stripQuotes_of_head (h : path.head? ≠ some '"'.toUInt8) : stripQuotes path = path :=
  if_neg fun hquotes => h hquotes.1

/-- A path that begins with a slash has no quotes to remove. -/
theorem stripQuotes_of_rooted (h : path.head? = some '/'.toUInt8) : stripQuotes path = path := by
  apply stripQuotes_of_head
  rw [h]
  decide

/-- A path behind another that it is joined to is a root name only at the root. -/
theorem isRootName_join_iff : isRootName (p ++ '/'.toUInt8 :: q) = true ↔
    (p = text "/" ∧ '/'.toUInt8 ∉ q) ∨
      (p = [] ∧ ∃ name, q = '/'.toUInt8 :: name ∧ '/'.toUInt8 ∉ name) := by
  have htwo : text "//" = ['/'.toUInt8, '/'.toUInt8] := rfl
  have hone : text "/" = ['/'.toUInt8] := rfl
  simp only [isRootName, htwo, hone, Bool.and_eq_true, decide_eq_true_eq]
  match p with
  | [] =>
    cases q with
    | nil => simp
    | cons c q => simp [eq_comm]
  | [c] => simp
  | c :: d :: p => simp

/-! ## The two completions -/

/-- A path that is no root name is completed as one that is absolute when it begins with a slash. -/
theorem systemCompleteBy_eq (h : TellsAbsolute absolute) (hname : isRootName path = false) :
    systemCompleteBy absolute cwd path = systemComplete cwd path := by
  by_cases hhead : path.head? = some '/'.toUInt8
  · rw [systemCompleteBy, if_pos (.inr (h.rooted path hhead hname)), systemComplete,
      if_pos (.inr hhead)]
  · by_cases hempty : path = []
    · rw [systemCompleteBy, if_pos (.inl hempty), systemComplete, if_pos (.inl hempty)]
    · have hunrooted := h.unrooted path hhead
      rw [systemCompleteBy, if_neg (by simp [hempty, hunrooted]), if_neg hhead]

/-- A path that is no root name is normalised as it is when a leading slash makes it absolute. -/
theorem convertToAbsolutePathBy_eq (h : TellsAbsolute absolute)
    (hname : isRootName (stripQuotes path) = false) :
    convertToAbsolutePathBy absolute cwd path = convertToAbsolutePath cwd path := by
  rw [convertToAbsolutePathBy, systemCompleteBy_eq h hname]
  rfl

/-- So is an absolute path. -/
theorem convertToAbsolutePathBy_of_absolute (h : TellsAbsolute absolute) (hp : absolute p = true) :
    convertToAbsolutePathBy absolute cwd p = convertToAbsolutePath cwd p := by
  have hhead := h.head? hp
  have hquotes := stripQuotes_of_rooted hhead
  rw [convertToAbsolutePathBy, convertToAbsolutePath, hquotes, systemCompleteBy, if_pos (.inr hp),
    systemComplete, if_pos (.inr hhead)]

/-- In the root directory every path is. -/
theorem convertToAbsolutePathBy_root (h : TellsAbsolute absolute) (path : Text) :
    convertToAbsolutePathBy absolute (text "/") path = convertToAbsolutePath (text "/") path := by
  cases hname : isRootName (stripQuotes path) with
  | false => exact convertToAbsolutePathBy_eq h hname
  | true =>
    have hhead : (stripQuotes path).head? = some '/'.toUInt8 := by
      simp only [isRootName, Bool.and_eq_true, decide_eq_true_eq] at hname
      have hfirst := congrArg List.head? hname.1
      rwa [List.head?_take, if_neg (by decide)] at hfirst
    rw [convertToAbsolutePathBy, convertToAbsolutePath, systemCompleteBy, systemComplete,
      if_pos (Or.inr hhead)]
    split_ifs
    · rfl
    · rfl

/-! ## The form of a normalised path -/

/-- What the loop over the bytes leaves joins to a canonical path. -/
theorem isCanonical_of_splitLoop (h : splitLoop [] [] path = .ok dirs) :
    IsCanonical (joinComponents dirs) := by
  rw [splitLoop_eq, List.reverse_nil, List.splitOnPPrepend_nil_right] at h
  have hdirs : ∀ dir ∈ dirs, IsComponent dir := by
    rw [eq_foldl_of_foldlM h]
    exact isComponent_foldl_resolve (fun _ hc => absurd hc List.not_mem_nil)
      fun _ => slash_notMem_of_mem_splitOn
  exact ⟨getLast?_joinComponents hdirs, dirs, hdirs, rfl⟩

/-- A canonical path is no root name, and has no quotes to remove. -/
theorem isRootName_of_isCanonical (h : IsCanonical path) :
    isRootName (stripQuotes path) = false := by
  obtain ⟨-, dirs, hdirs, rfl⟩ := h
  cases dirs with
  | nil => decide
  | cons dir dirs =>
    obtain ⟨hslash, hne⟩ := hdirs dir List.mem_cons_self
    rw [joinComponents_cons, stripQuotes_of_rooted rfl]
    cases dir with
    | nil => cases hne
    | cons c dir =>
      have hc : c ≠ '/'.toUInt8 := fun hc => hslash (hc ▸ List.mem_cons_self)
      have htwo : text "//" = ['/'.toUInt8, '/'.toUInt8] := rfl
      simp [isRootName, htwo, hc]

/-- Normalisation gives a canonical form in any working directory. -/
theorem canonises (h : TellsAbsolute absolute) (cwd : Text) : Canonises absolute cwd := by
  have hcanonical (path n : Text) (hn : convertToAbsolutePathBy absolute cwd path = .ok n) :
      IsCanonical n := by
    obtain ⟨dirs, hdirs, hok⟩ := run_bind_eq_ok.mp hn
    rw [← Except.ok.inj hok]
    exact isCanonical_of_splitLoop hdirs
  refine ⟨hcanonical, fun path n hn => ?_⟩
  have hcanon := hcanonical path n hn
  rw [convertToAbsolutePathBy_eq h (isRootName_of_isCanonical hcanon)]
  obtain ⟨-, dirs, hdirs, rfl⟩ := hcanon
  exact convertToAbsolutePath_joinComponents cwd hdirs

/-- A joined path that is no root name is normalised as an absolute one. -/
private theorem convertToAbsolutePathBy_join (h : TellsAbsolute absolute)
    (hhead : (p ++ '/'.toUInt8 :: q).head? = some '/'.toUInt8)
    (hname : isRootName (p ++ '/'.toUInt8 :: q) = false) :
    convertToAbsolutePathBy absolute cwd (p ++ '/'.toUInt8 :: q) =
      convertToAbsolutePath cwd (p ++ '/'.toUInt8 :: q) := by
  apply convertToAbsolutePathBy_eq h
  rw [stripQuotes_of_rooted hhead]
  exact hname

/-- Behind an absolute path normalisation may start from what this path is normalised to, when no
root name is joined. -/
theorem composesAt_of_rooted (h : TellsAbsolute absolute) (hp : absolute p = true)
    (hjoin : ¬ JoinsRootName absolute cwd p q) : ComposesAt absolute cwd p q := by
  intro n hn
  rw [JoinsRootName, not_or] at hjoin
  have hhead := h.head? hp
  have hpq : isRootName (p ++ '/'.toUInt8 :: q) = false := by
    rw [← Bool.not_eq_true, isRootName_join_iff]
    rintro (hroot | ⟨rfl, -⟩)
    · exact hjoin.1 hroot
    · cases hhead
  rw [convertToAbsolutePathBy_join h (by rw [List.head?_append, hhead]; rfl) hpq] at hn
  obtain ⟨m, hm, hcomposed⟩ := (convertToAbsolutePath_canonically cwd).compositional p q n hhead hn
  rw [← convertToAbsolutePathBy_of_absolute h hp] at hm
  refine ⟨m, hm, ?_⟩
  have hcanon := (canonises h cwd).canonical p m hm
  have hslash : (m ++ '/'.toUInt8 :: q).head? = some '/'.toUInt8 := by
    obtain ⟨-, dirs, -, rfl⟩ := hcanon
    cases dirs <;> rfl
  have hmq : isRootName (m ++ '/'.toUInt8 :: q) = false := by
    rw [← Bool.not_eq_true, isRootName_join_iff]
    rintro (⟨rfl, -⟩ | ⟨rfl, hname⟩)
    · exact hcanon.1 rfl
    · exact hjoin.2 ⟨hm, hname⟩
  rw [convertToAbsolutePathBy_join h hslash hmq, hcomposed]

/-- In the root directory normalisation may always start from there. -/
theorem composesAt_root (h : TellsAbsolute absolute) (hp : absolute p = true) :
    ComposesAt absolute (text "/") p q := by
  intro n hn
  rw [convertToAbsolutePathBy_root h] at hn
  obtain ⟨m, hm, hcomposed⟩ :=
    (convertToAbsolutePath_canonically (text "/")).compositional p q n (h.head? hp) hn
  refine ⟨m, ?_, ?_⟩
  · rw [convertToAbsolutePathBy_root h, hm]
  · rw [convertToAbsolutePathBy_root h, hcomposed]

/-- Normalisation gives a canonical form and changes no path that it gave. Behind an absolute path
it may start from what this path is normalised to, when no root name is joined or the working
directory is the root. -/
theorem canonises_and_composes (h : TellsAbsolute absolute) (cwd : Text) :
    Canonises absolute cwd ∧
      ∀ p q, absolute p = true → cwd = text "/" ∨ ¬ JoinsRootName absolute cwd p q →
        ComposesAt absolute cwd p q := by
  refine ⟨canonises h cwd, fun p q hp hjoin => ?_⟩
  cases hjoin with
  | inl hroot => exact hroot ▸ composesAt_root h hp
  | inr hjoin => exact composesAt_of_rooted h hp hjoin

/-- With root directories told as the library does, in a directory that is not the root. -/
theorem canonises_and_composes_srv : Canonises hasRootDirectory (text "/srv") ∧
    ∀ p q, hasRootDirectory p = true →
      text "/srv" = text "/" ∨ ¬ JoinsRootName hasRootDirectory (text "/srv") p q →
        ComposesAt hasRootDirectory (text "/srv") p q :=
  canonises_and_composes tellsAbsolute_hasRootDirectory (text "/srv")

/-- Joining a name to the root makes a root name, which is completed with the working directory. -/
theorem not_composesAt_net : hasRootDirectory (text "/") = true ∧
    ¬ ComposesAt hasRootDirectory (text "/srv") (text "/") (text "net") := by
  refine ⟨by decide, fun hcomposes => ?_⟩
  have hjoined : convertToAbsolutePathBy hasRootDirectory (text "/srv") (text "//net") =
    .ok (text "/srv/net") := by decide
  obtain ⟨m, hm, hcomposed⟩ := hcomposes _ hjoined
  have hroot : convertToAbsolutePathBy hasRootDirectory (text "/srv") (text "/") = .ok [] := by
    decide
  obtain rfl := Except.ok.inj (hm.symm.trans hroot)
  have hnet : convertToAbsolutePathBy hasRootDirectory (text "/srv") (text "/net") =
    .ok (text "/net") := by decide
  have heq := Except.ok.inj (hcomposed.symm.trans hnet)
  revert heq
  decide

end Aite.Routing
