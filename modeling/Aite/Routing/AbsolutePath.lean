import Aite.Basic
import Aite.Lib.LexicalPath
import Mathlib.Data.List.Induction

/-!
# Normalising a path

The server turns configured locations and request targets into absolute paths by a scan over
the bytes: components are pushed on a stack, and `..` pops the last one. The stack is empty
when there are more `..` than ordinary components so far, and popping it then is undefined.
The scan is compared with a total normalisation, in which such a `..` stays at the root.
-/

namespace Aite.Routing

/-- Remove any enclosing quotes. -/
def stripQuotes (path : Text) : Text :=
  if path.head? = some '"'.toUInt8 ∧ path.getLast? = some '"'.toUInt8 then
    (path.drop 1).take (path.length - 2)
  else path

/-- `system_complete(path)` in the working directory `cwd`, where every path that begins with a slash
is complete. The library excepts exactly two slashes and a name (`systemCompleteBy`). -/
def systemComplete (cwd path : Text) : Text :=
  if path = [] ∨ path.head? = some '/'.toUInt8 then path
  else if cwd.getLast? = some '/'.toUInt8 then cwd ++ path
  else cwd ++ '/'.toUInt8 :: path

/-- What the loop body does with a component. -/
def addComponent (pathComps : List Text) (dir : Text) : Run (List Text) :=
  if dir = text ".." then
    if pathComps = [] then .error (.fault .popBackOfEmpty) else .ok pathComps.dropLast
  else if dir = text "." ∨ dir = [] then .ok pathComps
  else .ok (pathComps ++ [dir])

/-- The loop over the bytes: `dir` is the component being read. An empty component behind the
last slash is not visited by the source, and adds nothing here. -/
def splitLoop (dir : Text) (pathComps : List Text) : Text → Run (List Text)
  | [] => addComponent pathComps dir
  | c :: rest =>
    if c = '/'.toUInt8 then do
      let pathComps ← addComponent pathComps dir
      splitLoop [] pathComps rest
    else splitLoop (dir ++ [c]) pathComps rest

/-- The path with these components. -/
def joinComponents (pathComps : List Text) : Text := pathComps.flatMap ('/'.toUInt8 :: ·)

/-- Simplify `.` and `..` directories of the completed path. -/
def convertToAbsolutePath (cwd path : Text) : Run Text := do
  let pathComps ← splitLoop [] [] (systemComplete cwd (stripQuotes path))
  .ok (joinComponents pathComps)

/-- The components of the completed path. -/
def components (cwd path : Text) : List Text :=
  (systemComplete cwd (stripQuotes path)).splitOn '/'.toUInt8

/-- Resolve one component, staying at the root when there is nothing to remove. -/
def resolve (pathComps : List Text) (dir : Text) : List Text :=
  if dir = text ".." then pathComps.dropLast
  else if dir = text "." ∨ dir = [] then pathComps
  else pathComps ++ [dir]

/-- The normalised path. -/
def normalised (cwd path : Text) : Text :=
  joinComponents ((components cwd path).foldl resolve [])

/-- Components that add to the path. -/
def isOrdinary (dir : Text) : Bool := dir ≠ text ".." && dir ≠ text "." && dir ≠ []

/-- From a path of this depth on, no `..` lacks a component to remove. -/
def BalancedFrom (depth : ℕ) (dirs : List Text) : Prop :=
  ∀ start, start <+: dirs → start.count (text "..") ≤ depth + start.countP isOrdinary

/-- No `..` lacks a component to remove. -/
def Balanced (dirs : List Text) : Prop :=
  ∀ start, start <+: dirs → start.count (text "..") ≤ start.countP isOrdinary

/-- The byte loop is a loop over the components. -/
theorem splitLoop_eq (dir : Text) (pathComps : List Text) (path : Text) :
    splitLoop dir pathComps path =
      (path.splitOnPPrepend (· == '/'.toUInt8) dir.reverse).foldlM addComponent pathComps := by
  induction path generalizing dir pathComps with
  | nil =>
    rw [List.splitOnPPrepend_nil, List.reverse_reverse, List.foldlM_cons]
    simp only [splitLoop, List.foldlM_nil, bind_pure]
  | cons c rest ih =>
    by_cases hc : c = '/'.toUInt8
    · rw [List.splitOnPPrepend_cons_pos (by simp [hc]), List.reverse_reverse, List.foldlM_cons,
        ← List.splitOnPPrepend_nil_right]
      simp only [splitLoop, hc, if_true]
      congr 1
      funext pathComps
      exact ih [] pathComps
    · rw [List.splitOnPPrepend_cons_neg (by simp [hc])]
      simp only [splitLoop, hc, if_false]
      rw [ih, List.reverse_append, List.reverse_singleton, List.singleton_append]

/-- After its first component, a balanced path is balanced from the depth that it leads to. -/
private theorem balancedFrom_cons {depth : ℕ} {dir : Text} {dirs : List Text} :
    BalancedFrom depth (dir :: dirs) ↔
      (dir = text ".." → 0 < depth) ∧
        BalancedFrom (if dir = text ".." then depth - 1
          else if dir = text "." ∨ dir = [] then depth else depth + 1) dirs := by
  have hcons : BalancedFrom depth (dir :: dirs) ↔ ∀ start, start <+: dirs →
      (dir :: start).count (text "..") ≤ depth + (dir :: start).countP isOrdinary := by
    refine ⟨fun h start hstart => h _ (List.cons_prefix_cons.mpr ⟨rfl, hstart⟩), ?_⟩
    intro h start hstart
    cases start with
    | nil => simp
    | cons other start =>
      obtain ⟨rfl, hrest⟩ := List.cons_prefix_cons.mp hstart
      exact h start hrest
  rw [hcons]
  unfold BalancedFrom
  by_cases hup : dir = text ".."
  · subst hup
    simp only [List.count_cons_self, if_true, true_imp_iff]
    have hordinary : isOrdinary (text "..") = false := by decide
    simp only [List.countP_cons, hordinary, Bool.false_eq_true, if_false, Nat.add_zero]
    constructor
    · intro h
      have hpos := h [] List.nil_prefix
      simp only [List.count_nil, List.countP_nil] at hpos
      refine ⟨by omega, fun start hstart => ?_⟩
      have := h start hstart
      omega
    · rintro ⟨hpos, h⟩ start hstart
      have := h start hstart
      omega
  · simp only [hup, false_imp_iff, true_and, if_false]
    rw [forall₂_congr]
    intro start _
    rw [List.count_cons_of_ne hup]
    by_cases hstay : dir = text "." ∨ dir = []
    · have hordinary : isOrdinary dir = false := by
        simp only [isOrdinary]
        rcases hstay with rfl | rfl <;> decide
      simp [hordinary, hstay]
    · have hordinary : isOrdinary dir = true := by
        rw [not_or] at hstay
        simp [isOrdinary, hup, hstay]
      simp only [List.countP_cons, hordinary, hstay, if_true, if_false]
      omega

/-- The checked loop over the components is the total one exactly on balanced paths. -/
theorem foldlM_addComponent_iff (dirs pathComps : List Text) :
    dirs.foldlM addComponent pathComps = .ok (dirs.foldl resolve pathComps) ↔
      BalancedFrom pathComps.length dirs := by
  induction dirs generalizing pathComps with
  | nil => simp [BalancedFrom, pure, Except.pure]
  | cons dir dirs ih =>
    rw [List.foldlM_cons, List.foldl_cons, balancedFrom_cons]
    by_cases hup : dir = text ".."
    · simp only [addComponent, resolve, hup, if_true, true_imp_iff]
      by_cases hempty : pathComps = []
      · simp [hempty, bind, Except.bind]
      · rw [if_neg hempty]
        change dirs.foldlM addComponent pathComps.dropLast = _ ↔ _
        rw [ih, List.length_dropLast]
        simp [List.length_pos_iff, hempty]
    · simp only [addComponent, resolve, hup, if_false, false_imp_iff, true_and]
      by_cases hstay : dir = text "." ∨ dir = []
      · simp only [hstay, if_true]
        exact ih pathComps
      · simp only [hstay, if_false]
        change dirs.foldlM addComponent (pathComps ++ [dir]) = _ ↔ _
        rw [ih, List.length_append, List.length_singleton]

/-- A loop over the components that ends normally has the result of the total one. -/
theorem eq_foldl_of_foldlM {dirs pathComps result : List Text}
    (h : dirs.foldlM addComponent pathComps = .ok result) :
    result = dirs.foldl resolve pathComps := by
  induction dirs generalizing pathComps with
  | nil =>
    cases h
    rfl
  | cons dir dirs ih =>
    rw [List.foldlM_cons] at h
    rw [List.foldl_cons]
    unfold addComponent at h
    unfold resolve
    split_ifs at h ⊢
    · cases h
    all_goals exact ih h

/-- A loop over the components that does not end normally popped an empty stack. -/
theorem foldlM_addComponent_error {dirs pathComps : List Text} {e : Abort}
    (h : dirs.foldlM addComponent pathComps = .error e) : e = .fault .popBackOfEmpty := by
  induction dirs generalizing pathComps with
  | nil => cases h
  | cons dir dirs ih =>
    rw [List.foldlM_cons] at h
    unfold addComponent at h
    split_ifs at h
    · cases h
      rfl
    all_goals exact ih h

/-- Normalisation is the loop over the components, joined. -/
theorem convertToAbsolutePath_eq (cwd path : Text) :
    convertToAbsolutePath cwd path =
      ((components cwd path).foldlM addComponent []).map joinComponents := by
  unfold convertToAbsolutePath
  rw [splitLoop_eq, List.reverse_nil, List.splitOnPPrepend_nil_right]
  change _ = ((List.splitOnP _ _).foldlM addComponent []).map joinComponents
  cases (List.splitOnP (· == '/'.toUInt8) (systemComplete cwd (stripQuotes path))).foldlM
    addComponent [] <;> rfl

/-- Normalisation is defined, with the total normalisation as its result, exactly on paths in
which no `..` lacks a component to remove. -/
theorem convertToAbsolutePath_eq_iff (cwd path : Text) :
    convertToAbsolutePath cwd path = .ok (normalised cwd path) ↔
      Balanced (components cwd path) := by
  have hfold := foldlM_addComponent_iff (components cwd path) []
  have hzero : BalancedFrom ([] : List Text).length (components cwd path) ↔
      Balanced (components cwd path) := by
    simp only [BalancedFrom, Balanced, List.length_nil, Nat.zero_add]
  rw [← hzero, ← hfold, convertToAbsolutePath_eq]
  cases hrun : (components cwd path).foldlM addComponent [] with
  | error e => simp [Except.map]
  | ok pathComps =>
    have hresult := eq_foldl_of_foldlM hrun
    simp [Except.map, normalised, hresult]

/-- Where normalisation is not defined, it pops an empty stack. -/
theorem convertToAbsolutePath_of_not_balanced {cwd path : Text}
    (h : ¬ Balanced (components cwd path)) :
    convertToAbsolutePath cwd path = .error (.fault .popBackOfEmpty) := by
  rw [← convertToAbsolutePath_eq_iff, convertToAbsolutePath_eq] at h
  rw [convertToAbsolutePath_eq]
  cases hrun : (components cwd path).foldlM addComponent [] with
  | error e =>
    rw [foldlM_addComponent_error hrun]
    rfl
  | ok pathComps =>
    rw [hrun, eq_foldl_of_foldlM hrun] at h
    exact absurd rfl h

/-! ## The form of a normalised path -/

/-- A component that a normalised path can have. -/
def IsComponent (dir : Text) : Prop := '/'.toUInt8 ∉ dir ∧ isOrdinary dir = true

/-- Splitting at the slashes leaves no slash. -/
theorem slash_notMem_of_mem_splitOn {path dir : Text} (h : dir ∈ path.splitOn '/'.toUInt8) :
    '/'.toUInt8 ∉ dir := LexicalPath.notMem_of_mem_splitOn h

/-- Resolving one component leaves components only. -/
theorem isComponent_resolve {pathComps : List Text} {dir : Text}
    (h : ∀ c ∈ pathComps, IsComponent c) (hdir : '/'.toUInt8 ∉ dir) :
    ∀ c ∈ resolve pathComps dir, IsComponent c := by
  unfold resolve
  split_ifs with hup hstay
  · exact fun c hc => h c ((List.dropLast_sublist _).subset hc)
  · exact h
  · intro c hc
    rw [List.mem_append, List.mem_singleton] at hc
    cases hc with
    | inl hc => exact h c hc
    | inr hc =>
      rw [not_or] at hstay
      refine hc ▸ ⟨hdir, ?_⟩
      simp [isOrdinary, hup, hstay]

/-- Resolving components in order leaves components only. -/
theorem isComponent_foldl_resolve {dirs pathComps : List Text}
    (h : ∀ c ∈ pathComps, IsComponent c) (hdirs : ∀ dir ∈ dirs, '/'.toUInt8 ∉ dir) :
    ∀ c ∈ dirs.foldl resolve pathComps, IsComponent c := by
  induction dirs generalizing pathComps with
  | nil => exact h
  | cons dir dirs ih =>
    rw [List.foldl_cons]
    apply ih
    · exact isComponent_resolve h (hdirs dir List.mem_cons_self)
    · exact fun d hd => hdirs d (List.mem_cons_of_mem _ hd)

/-- A component is neither empty nor one of the dots. -/
theorem isComponent_ne {c : Text} (h : IsComponent c) :
    c ≠ [] ∧ c ≠ text "." ∧ c ≠ text ".." := by
  have hordinary := h.2
  simp only [isOrdinary, Bool.and_eq_true, decide_eq_true_eq] at hordinary
  exact ⟨hordinary.2, hordinary.1.2, hordinary.1.1⟩

/-- Components are resolved to themselves. -/
theorem foldl_resolve_components {dirs : List Text} (h : ∀ c ∈ dirs, IsComponent c)
    (start : List Text) : dirs.foldl resolve start = start ++ dirs := by
  induction dirs generalizing start with
  | nil => rw [List.foldl_nil, List.append_nil]
  | cons dir dirs ih =>
    obtain ⟨hne, hdot, hup⟩ := isComponent_ne (h dir List.mem_cons_self)
    rw [List.foldl_cons, ih fun c hc => h c (List.mem_cons_of_mem _ hc), resolve, if_neg hup,
      if_neg (not_or.mpr ⟨hdot, hne⟩), List.append_assoc, List.singleton_append]

/-- A path that begins with a slash and not with quotes is complete as it is. -/
theorem components_of_rooted {cwd uri : Text} (h : uri.head? = some '/'.toUInt8) :
    components cwd uri = uri.splitOn '/'.toUInt8 := by
  have hquote : uri.head? ≠ some '"'.toUInt8 := by
    rw [h]
    decide
  rw [components, stripQuotes, if_neg fun hquotes => hquote hquotes.1, systemComplete,
    if_pos (.inr h)]

/-- The components that a path resolves to. -/
def normalComponents (cwd path : Text) : List Text := (components cwd path).foldl resolve []

/-- A path resolves to components. -/
theorem isComponent_normalComponents (cwd path : Text) :
    ∀ c ∈ normalComponents cwd path, IsComponent c :=
  isComponent_foldl_resolve (fun _ h => absurd h List.not_mem_nil)
    (fun _ => slash_notMem_of_mem_splitOn)

/-- Where normalisation is defined, its result is the total one. -/
theorem convertToAbsolutePath_eq_ok_iff {cwd path n : Text} :
    convertToAbsolutePath cwd path = .ok n ↔
      Balanced (components cwd path) ∧ n = joinComponents (normalComponents cwd path) := by
  by_cases h : Balanced (components cwd path)
  · rw [(convertToAbsolutePath_eq_iff cwd path).mpr h, Except.ok.injEq, eq_comm]
    simp only [h, true_and]
    rfl
  · rw [convertToAbsolutePath_of_not_balanced h]
    simp [h]

/-- The path of components that are joined with others. -/
@[simp] theorem joinComponents_append (dirs others : List Text) :
    joinComponents (dirs ++ others) = joinComponents dirs ++ joinComponents others :=
  List.flatMap_append

/-- The path of a component and others. -/
@[simp] theorem joinComponents_cons (dir : Text) (others : List Text) :
    joinComponents (dir :: others) = '/'.toUInt8 :: (dir ++ joinComponents others) := rfl

/-- The path without components. -/
@[simp] theorem joinComponents_nil : joinComponents [] = [] := rfl

/-- Splitting a path that continues behind joined components. -/
theorem splitOn_joinComponents_append {dirs : List Text} (h : ∀ dir ∈ dirs, '/'.toUInt8 ∉ dir)
    (rest : Text) :
    (joinComponents dirs ++ '/'.toUInt8 :: rest).splitOn '/'.toUInt8 =
      [] :: (dirs ++ rest.splitOn '/'.toUInt8) := by
  induction dirs using List.reverseRecOn generalizing rest with
  | nil => exact List.splitOn_append_cons_self [] rest
  | append_singleton dirs dir ih =>
    have hdir := h dir (List.mem_append_right _ List.mem_cons_self)
    rw [joinComponents_append, joinComponents_cons, joinComponents_nil, List.append_nil,
      List.append_assoc, List.cons_append, ih fun d hd => h d (List.mem_append_left _ hd),
      List.splitOn_append_cons_self_of_not_mem hdir, List.append_assoc, List.singleton_append]

/-- Splitting joined components gives them back. -/
theorem splitOn_joinComponents {dirs : List Text} (h : ∀ dir ∈ dirs, '/'.toUInt8 ∉ dir) :
    (joinComponents dirs).splitOn '/'.toUInt8 = [] :: dirs := by
  cases dirs using List.reverseRecOn with
  | nil => rfl
  | append_singleton dirs dir =>
    rw [joinComponents_append, joinComponents_cons, joinComponents_nil, List.append_nil,
      splitOn_joinComponents_append fun d hd => h d (List.mem_append_left _ hd),
      List.splitOn_eq_singleton (h dir (List.mem_append_right _ List.mem_cons_self))]

/-- A joined path determines its components. -/
theorem joinComponents_injective {dirs others : List Text} (h : ∀ dir ∈ dirs, '/'.toUInt8 ∉ dir)
    (hothers : ∀ dir ∈ others, '/'.toUInt8 ∉ dir)
    (heq : joinComponents dirs = joinComponents others) : dirs = others := by
  have hsplit := splitOn_joinComponents h
  rw [heq, splitOn_joinComponents hothers] at hsplit
  exact (List.cons.inj hsplit).2.symm

/-- Joined components end in the last one. -/
theorem getLast?_joinComponents {dirs : List Text} (h : ∀ c ∈ dirs, IsComponent c) :
    (joinComponents dirs).getLast? ≠ some '/'.toUInt8 := by
  cases dirs using List.reverseRecOn with
  | nil => simp
  | append_singleton dirs dir =>
    have hdir := h dir (List.mem_append_right _ List.mem_cons_self)
    have hne := (isComponent_ne hdir).1
    rw [joinComponents_append, joinComponents_cons, joinComponents_nil, List.append_nil]
    intro hlast
    rw [List.getLast?_append_of_ne_nil _ (List.cons_ne_nil _ _), List.getLast?_cons,
      List.getLast?_eq_some_getLast hne, Option.getD_some, Option.some.injEq] at hlast
    exact hdir.1 (hlast ▸ List.getLast_mem hne)

/-! ## Normalising again -/

/-- A canonical path: every component stands behind a slash, and nothing behind the last one. -/
def IsCanonical (path : Text) : Prop :=
  path.getLast? ≠ some '/'.toUInt8 ∧
    ∃ dirs, (∀ dir ∈ dirs, IsComponent dir) ∧ path = joinComponents dirs

/-- Normalisation gives canonical paths, changes no canonical path that it gave, and behind an
absolute path it may start from the path that this one normalises to. -/
structure NormalisesCanonically (cwd : Text) : Prop where
  canonical : ∀ path n, convertToAbsolutePath cwd path = .ok n → IsCanonical n
  idempotent : ∀ path n, convertToAbsolutePath cwd path = .ok n →
    convertToAbsolutePath cwd n = .ok n
  compositional : ∀ p q n, p.head? = some '/'.toUInt8 →
    convertToAbsolutePath cwd (p ++ '/'.toUInt8 :: q) = .ok n →
      ∃ m, convertToAbsolutePath cwd p = .ok m ∧
        convertToAbsolutePath cwd (m ++ '/'.toUInt8 :: q) = .ok n

/-- The loop adds components to the path. -/
theorem foldlM_addComponent_components {dirs : List Text} (h : ∀ c ∈ dirs, IsComponent c)
    (start : List Text) : dirs.foldlM addComponent start = .ok (start ++ dirs) := by
  induction dirs generalizing start with
  | nil =>
    rw [List.append_nil]
    rfl
  | cons dir dirs ih =>
    obtain ⟨hne, hdot, hup⟩ := isComponent_ne (h dir List.mem_cons_self)
    have hadd : addComponent start dir = .ok (start ++ [dir]) := by
      rw [addComponent, if_neg hup, if_neg (not_or.mpr ⟨hdot, hne⟩)]
    rw [List.foldlM_cons, hadd, run_ok_bind, ih fun c hc => h c (List.mem_cons_of_mem _ hc),
      List.append_assoc, List.singleton_append]

/-- Behind joined components, the loop goes on from these components. -/
theorem convertToAbsolutePath_joinComponents_append (cwd : Text) {dirs : List Text}
    (h : ∀ c ∈ dirs, IsComponent c) (rest : Text) :
    convertToAbsolutePath cwd (joinComponents dirs ++ '/'.toUInt8 :: rest) =
      ((rest.splitOn '/'.toUInt8).foldlM addComponent dirs).map joinComponents := by
  have hslash : ∀ c ∈ dirs, '/'.toUInt8 ∉ c := fun c hc => (h c hc).1
  have hhead : (joinComponents dirs ++ '/'.toUInt8 :: rest).head? = some '/'.toUInt8 := by
    cases dirs <;> rfl
  rw [convertToAbsolutePath_eq, components_of_rooted hhead, splitOn_joinComponents_append hslash,
    List.foldlM_cons]
  change (List.foldlM addComponent [] (dirs ++ rest.splitOn '/'.toUInt8)).map _ = _
  rw [List.foldlM_append, foldlM_addComponent_components h, List.nil_append, run_ok_bind]

/-- The components of joined components, behind the empty one before the first slash. -/
theorem components_joinComponents (cwd : Text) {dirs : List Text}
    (h : ∀ c ∈ dirs, IsComponent c) : components cwd (joinComponents dirs) = [] :: dirs := by
  cases dirs with
  | nil => rfl
  | cons dir dirs =>
    rw [components_of_rooted rfl, splitOn_joinComponents fun c hc => (h c hc).1]

/-- Joined components are normalised to themselves. -/
theorem convertToAbsolutePath_joinComponents (cwd : Text) {dirs : List Text}
    (h : ∀ c ∈ dirs, IsComponent c) :
    convertToAbsolutePath cwd (joinComponents dirs) = .ok (joinComponents dirs) := by
  rw [convertToAbsolutePath_eq, components_joinComponents cwd h, List.foldlM_cons]
  change (List.foldlM addComponent [] dirs).map _ = _
  rw [foldlM_addComponent_components h]
  rfl

/-- Behind an absolute path, normalisation starts from what this path is normalised to. -/
theorem convertToAbsolutePath_append (cwd : Text) {p : Text}
    (hp : p.head? = some '/'.toUInt8) (q : Text) :
    convertToAbsolutePath cwd (p ++ '/'.toUInt8 :: q) = (do
      let m ← convertToAbsolutePath cwd p
      convertToAbsolutePath cwd (m ++ '/'.toUInt8 :: q)) := by
  have hhead : (p ++ '/'.toUInt8 :: q).head? = some '/'.toUInt8 := by
    rw [List.head?_append, hp, Option.some_or]
  rw [convertToAbsolutePath_eq, convertToAbsolutePath_eq, components_of_rooted hhead,
    components_of_rooted hp, List.splitOn_append_cons_self, List.foldlM_append]
  cases hrun : (p.splitOn '/'.toUInt8).foldlM addComponent [] with
  | error e => rfl
  | ok dirs =>
    have hdirs : ∀ c ∈ dirs, IsComponent c := by
      rw [eq_foldl_of_foldlM hrun]
      exact isComponent_foldl_resolve (fun _ hc => absurd hc List.not_mem_nil)
        fun _ => slash_notMem_of_mem_splitOn
    change (List.foldlM addComponent dirs (q.splitOn '/'.toUInt8)).map joinComponents =
      convertToAbsolutePath cwd (joinComponents dirs ++ '/'.toUInt8 :: q)
    rw [convertToAbsolutePath_joinComponents_append cwd hdirs]

/-- Normalisation yields a canonical form, in any working directory. -/
theorem convertToAbsolutePath_canonically (cwd : Text) : NormalisesCanonically cwd where
  canonical := by
    intro path n hn
    rw [(convertToAbsolutePath_eq_ok_iff.mp hn).2]
    have hdirs := isComponent_normalComponents cwd path
    exact ⟨getLast?_joinComponents hdirs, _, hdirs, rfl⟩
  idempotent := by
    intro path n hn
    rw [(convertToAbsolutePath_eq_ok_iff.mp hn).2]
    exact convertToAbsolutePath_joinComponents cwd (isComponent_normalComponents cwd path)
  compositional := by
    intro p q n hp hn
    rw [convertToAbsolutePath_append cwd hp] at hn
    exact run_bind_eq_ok.mp hn

/-- Doubled slashes and dots are left out, and a step up removes a component. -/
example : convertToAbsolutePath (text "/srv") (text "a/.//b/../c/") = .ok (text "/srv/a/c") := by
  decide

end Aite.Routing
