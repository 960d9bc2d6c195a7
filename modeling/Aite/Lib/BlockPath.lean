import Aite.Lib.BlockGrammar

/-!
# Paths into nested blocks

A path is a sequence of words. It leads from a block into a block that a statement with the
first word opens, from there on with the second word, and so on, so that there may be many
blocks at its end. They are searched depth first. The search that only ever enters the first
block of a word finds the first field, as long as there is one where it ends.
-/

namespace BlockGrammar.Block

variable {W : Type*} [DecidableEq W]

/-- The blocks that the statements with this first word open, in order. -/
def children (name : W) : Block W → List (Block W)
  | .empty => []
  | .simple _ rest => rest.children name
  | .nested words body rest =>
    if words.head? = some name then body :: rest.children name else rest.children name

/-- What follows the first word in the statements with this first word and without a block. -/
def fields (name : W) : Block W → List (List W)
  | .empty => []
  | .simple words rest =>
    if words.head? = some name then words.tail :: rest.fields name else rest.fields name
  | .nested _ _ rest => rest.fields name

/-- A path leads from a block to a block inside it. -/
inductive Leads : List W → Block W → Block W → Prop
  | here {b : Block W} : Leads [] b b
  | inside {name : W} {names : List W} {b child target : Block W} : child ∈ b.children name →
      Leads names child target → Leads (name :: names) b target

/-- The blocks to which a path leads, depth first. -/
def blocksAt : List W → Block W → List (Block W)
  | [], b => [b]
  | name :: names, b => (b.children name).flatMap (blocksAt names)

/-- The block to which a path leads through the first block of each word. -/
def firstAt : List W → Block W → Option (Block W)
  | [], b => some b
  | name :: names, b => (b.children name).head?.bind (firstAt names)

/-- The fields of a name in the blocks to which a path leads, depth first. -/
def fieldsAt (names : List W) (name : W) (b : Block W) : List (List W) :=
  (blocksAt names b).flatMap (fields name)

variable {name : W} {names : List W} {b target : Block W}

/-- The search finds the blocks to which the path leads. -/
theorem mem_blocksAt_iff : target ∈ blocksAt names b ↔ Leads names b target := by
  induction names generalizing b with
  | nil =>
    rw [blocksAt, List.mem_singleton]
    constructor
    · rintro rfl
      exact .here
    · intro h
      cases h
      rfl
  | cons first names ih =>
    rw [blocksAt, List.mem_flatMap]
    constructor
    · rintro ⟨child, hchild, h⟩
      exact .inside hchild (ih.mp h)
    · intro h
      cases h with
      | inside hchild h => exact ⟨_, hchild, ih.mpr h⟩

/-- There are no fields exactly when no block to which the path leads has one. -/
theorem fieldsAt_eq_nil_iff : fieldsAt names name b = [] ↔
    ∀ target, Leads names b target → target.fields name = [] := by
  rw [fieldsAt, List.flatMap_eq_nil_iff]
  exact forall_congr' fun target => imp_congr_left mem_blocksAt_iff

/-- The fields behind one more word are those in each block of this word. -/
private theorem fieldsAt_cons (first : W) :
    fieldsAt (first :: names) name b = (b.children first).flatMap (fieldsAt names name) := by
  rw [fieldsAt, blocksAt, List.flatMap_assoc]
  rfl

/-- The first blocks lead to the first field, when they lead to any. -/
theorem head?_fieldsAt (hfirst : firstAt names b = some target) (hfield : target.fields name ≠ []) :
    (fieldsAt names name b).head? = (target.fields name).head? := by
  induction names generalizing b with
  | nil =>
    obtain rfl := Option.some.inj hfirst
    rw [fieldsAt, blocksAt, List.flatMap_singleton]
  | cons first names ih =>
    obtain ⟨child, hchild, htarget⟩ := Option.bind_eq_some_iff.mp hfirst
    obtain ⟨others, hothers⟩ := List.head?_eq_some_iff.mp hchild
    have hhead := ih htarget
    have hne : fieldsAt names name child ≠ [] := by
      intro hnil
      rw [hnil] at hhead
      exact hfield (List.head?_eq_none_iff.mp hhead.symm)
    rw [fieldsAt_cons, hothers, List.flatMap_cons, List.head?_append_of_ne_nil _ hne, hhead]

end BlockGrammar.Block
