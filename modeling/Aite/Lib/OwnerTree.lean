import Mathlib.Data.List.Chain
import Mathlib.Logic.Relation

/-!
# Paths in a tree of owners

Every object has at most one owner. A path from the root along owners to an object does not
meet what another child of that object owns, so that giving up such a child, with everything
below it, leaves the path as it is.
-/

namespace Aite

open Relation

variable {A : Type*} {owns others : A → A → Prop} {root a b parent leaf : A}

/-- No object has two owners, and the root is not owned by what it owns. -/
structure OwnerTree (owns : A → A → Prop) (root : A) : Prop where
  unique : ∀ a b child, owns a child → owns b child → a = b
  acyclic : ¬ TransGen owns root root

/-- The owner of an object that lies below itself lies below itself. -/
private theorem OwnerTree.cycle_owner (h : OwnerTree owns root) (hcycle : TransGen owns b b)
    (howner : owns a b) : TransGen owns a a := by
  obtain ⟨last, hpath, hlast⟩ := TransGen.tail'_iff.mp hcycle
  have hsame : last = a := h.unique last a b hlast howner
  exact TransGen.head' howner (hsame ▸ hpath)

/-- Nothing below the root lies below itself. -/
theorem OwnerTree.not_below_self (h : OwnerTree owns root) (hbelow : ReflTransGen owns root a) :
    ¬ TransGen owns a a := by
  induction hbelow with
  | refl => exact h.acyclic
  | tail _ howner ih => exact fun hcycle => ih (h.cycle_owner hcycle howner)

/-- With fewer owners there is still a tree. -/
theorem OwnerTree.mono (h : OwnerTree owns root) (hsub : ∀ a b, others a b → owns a b) :
    OwnerTree others root :=
  ⟨fun a b child ha hb => h.unique a b child (hsub a child ha) (hsub b child hb),
    fun hcycle => h.acyclic (TransGen.mono hsub _ _ hcycle)⟩

/-- A tree grows by a leaf that is new. -/
theorem OwnerTree.grow (h : OwnerTree owns root) (hunowned : ∀ a, ¬ owns a leaf)
    (hempty : ∀ b, ¬ owns leaf b) (hroot : root ≠ leaf)
    (hgrow : ∀ a b, others a b → owns a b ∨ a = parent ∧ b = leaf) : OwnerTree others root := by
  constructor
  · intro a b child ha hb
    cases hgrow a child ha with
    | inl ha =>
      cases hgrow b child hb with
      | inl hb => exact h.unique a b child ha hb
      | inr hb => exact absurd (hb.2 ▸ ha) (hunowned a)
    | inr ha =>
      cases hgrow b child hb with
      | inl hb => exact absurd (ha.2 ▸ hb) (hunowned b)
      | inr hb => exact ha.1.trans hb.1.symm
  · -- The new leaf owns nothing, so a path through the new edge ends there.
    have hpath {a b : A} (h : TransGen others a b) : TransGen owns a b ∨ b = leaf := by
      induction h with
      | single hedge =>
        cases hgrow _ _ hedge with
        | inl hedge => exact .inl (.single hedge)
        | inr hedge => exact .inr hedge.2
      | tail _ hedge ih =>
        cases hgrow _ _ hedge with
        | inl hedge =>
          cases ih with
          | inl hbefore => exact .inl (hbefore.tail hedge)
          | inr hleaf => exact absurd (hleaf ▸ hedge) (hempty _)
        | inr hedge => exact .inr hedge.2
    intro hcycle
    cases hpath hcycle with
    | inl hcycle => exact h.acyclic hcycle
    | inr hleaf => exact hroot hleaf

/-- The objects on a path from the root lie between the root and the end of the path, which comes
first. -/
theorem between_of_path {top : A} {path : List A}
    (hpath : (top :: path).IsChain fun above below => owns below above)
    (hbottom : (top :: path).getLast? = some root) (ha : a ∈ top :: path) :
    ReflTransGen owns root a ∧ ReflTransGen owns a top := by
  induction path generalizing top a with
  | nil =>
    cases hbottom
    rw [List.mem_singleton] at ha
    rw [ha]
    exact ⟨.refl, .refl⟩
  | cons below path ih =>
    obtain ⟨howner, hrest⟩ := List.isChain_cons_cons.mp hpath
    rw [List.getLast?_cons_cons] at hbottom
    cases List.mem_cons.mp ha with
    | inl htop =>
      rw [htop]
      exact ⟨(ih hrest hbottom List.mem_cons_self).1.tail howner, .refl⟩
    | inr ha =>
      obtain ⟨habove, hbelow⟩ := ih hrest hbottom ha
      exact ⟨habove, hbelow.tail howner⟩

/-- Nothing on the path from the root to an object lies below a child of the object. -/
theorem OwnerTree.not_mem_path (h : OwnerTree owns root) {top child : A} {path : List A}
    (hpath : (top :: path).IsChain fun above below => owns below above)
    (hbottom : (top :: path).getLast? = some root) (hchild : owns top child)
    (hbelow : ReflTransGen owns child a) : a ∉ top :: path := by
  intro ha
  obtain ⟨habove, htop⟩ := between_of_path hpath hbottom ha
  exact h.not_below_self habove ((TransGen.tail' htop hchild).trans_left hbelow)

end Aite
