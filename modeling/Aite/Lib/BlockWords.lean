import Aite.Lib.BlockBuilder
import Aite.Lib.BlockPath

/-!
# The words of a block

What holds of all words that are read holds of all words of the block that is built from them,
at any depth.
-/

namespace BlockGrammar

variable {V W : Type*}

/-- All words of a block and of the blocks inside it have a property. -/
def Block.AllWords (p : W → Prop) : Block W → Prop
  | .empty => True
  | .simple words rest => (∀ w ∈ words, p w) ∧ rest.AllWords p
  | .nested words body rest => (∀ w ∈ words, p w) ∧ body.AllWords p ∧ rest.AllWords p

/-- All words of a block under construction have a property. -/
structure Builder.AllWords (p : W → Prop) (b : Builder W) : Prop where
  outer : ∀ frame ∈ b.outer, frame.1.AllWords p ∧ ∀ w ∈ frame.2, p w
  done : b.done.AllWords p
  last : ∀ last ∈ b.last, (∀ w ∈ last.1, p w) ∧ ∀ body ∈ last.2, body.AllWords p

variable {p : W → Prop} {starts : V → Bool} {value : V → W} {b next : Builder W}

/-- The words of appended statements are those of both parts. -/
theorem Block.AllWords.append {block more : Block W} (h : block.AllWords p)
    (hmore : more.AllWords p) : (block.append more).AllWords p := by
  induction block with
  | empty => exact hmore
  | simple words rest ih => exact ⟨h.1, ih h.2⟩
  | nested words body rest _ ih => exact ⟨h.1, h.2.1, ih h.2.2⟩

/-- The fields of a block consist of its words. -/
theorem Block.AllWords.fields [DecidableEq W] {block : Block W} (h : block.AllWords p) (name : W) :
    ∀ values ∈ block.fields name, ∀ w ∈ values, p w := by
  induction block with
  | empty => exact nofun
  | simple words rest ih =>
    rw [Block.fields]
    split_ifs
    · intro values hvalues
      cases List.mem_cons.mp hvalues with
      | inl hvalues => exact fun w hw => h.1 w (List.mem_of_mem_tail (hvalues ▸ hw))
      | inr hvalues => exact ih h.2 values hvalues
    · exact ih h.2
  | nested words body rest _ ih => exact ih h.2.2

/-- The innermost block consists of the words read. -/
theorem Builder.AllWords.current (h : b.AllWords p) : b.current.AllWords p := by
  unfold Builder.current
  cases hlast : b.last with
  | none => exact h.done
  | some last =>
    obtain ⟨words, body⟩ := last
    obtain ⟨hwords, hbody⟩ := h.last _ hlast
    apply h.done.append
    cases body with
    | none => exact ⟨hwords, trivial⟩
    | some body => exact ⟨hwords, hbody body rfl, trivial⟩

/-- One symbol adds no other words. -/
theorem Builder.AllWords.step {inside : Bool} {tok : Sym V} (h : b.AllWords p)
    (htok : ∀ v, tok = .word v → p (value v))
    (hstep : Builder.step starts value inside b tok = some next) : next.AllWords p := by
  cases tok with
  | word v =>
    have hv := htok v rfl
    rw [Builder.step] at hstep
    split_ifs at hstep
    · cases hstep
      refine ⟨h.outer, h.current, fun last hlast => ?_⟩
      cases hlast
      exact ⟨fun w hw => List.mem_singleton.mp hw ▸ hv, fun _ h => absurd h (Option.not_mem_none _)⟩
    · obtain ⟨last, hlast, rfl⟩ := Option.map_eq_some_iff.mp hstep
      obtain ⟨hwords, hbody⟩ := h.last last hlast
      refine ⟨h.outer, h.done, fun last' hlast' => ?_⟩
      cases hlast'
      refine ⟨fun w hw => ?_, hbody⟩
      cases List.mem_append.mp hw with
      | inl hw => exact hwords w hw
      | inr hw => exact List.mem_singleton.mp hw ▸ hv
  | stop =>
    cases hstep
    exact h
  | enter =>
    obtain ⟨last, hlast, rfl⟩ := Option.map_eq_some_iff.mp hstep
    refine ⟨fun frame hframe => ?_, trivial, fun _ h => absurd h (Option.not_mem_none _)⟩
    cases List.mem_cons.mp hframe with
    | inl hframe => exact hframe ▸ ⟨h.done, (h.last last hlast).1⟩
    | inr hframe => exact h.outer frame hframe
  | leave =>
    change b.leave = some next at hstep
    unfold Builder.leave at hstep
    cases houter : b.outer with
    | nil =>
      rw [houter] at hstep
      cases hstep
    | cons frame outer =>
      rw [houter] at hstep
      cases hstep
      obtain ⟨hdone, hwords⟩ := h.outer frame (houter ▸ List.mem_cons_self)
      refine ⟨fun other hother => h.outer other (houter ▸ List.mem_cons_of_mem _ hother), hdone,
        fun last hlast => ?_⟩
      cases hlast
      refine ⟨hwords, fun body hbody => ?_⟩
      cases hbody
      exact h.current

/-- The block that is built consists of the words that are read. -/
theorem Builder.AllWords.build {inside : Bool} {toks : List (Sym V)} (h : b.AllWords p)
    (htoks : ∀ v, .word v ∈ toks → p (value v))
    (hbuild : build starts value inside b toks = some next) : next.AllWords p := by
  induction toks generalizing inside b with
  | nil =>
    cases hbuild
    exact h
  | cons tok toks ih =>
    obtain ⟨middle, hstep, hrest⟩ := Option.bind_eq_some_iff.mp hbuild
    refine ih (h.step (fun v hv => htoks v ?_) hstep) (fun v hv => htoks v ?_) hrest
    · exact hv ▸ List.mem_cons_self
    · exact List.mem_cons_of_mem _ hv

/-- Before anything is read there are no words. -/
theorem Builder.allWords_start : (Builder.start : Builder W).AllWords p :=
  ⟨fun _ h => absurd h List.not_mem_nil, trivial, fun _ h => absurd h (Option.not_mem_none _)⟩

end BlockGrammar
