import Mathlib.Computability.Language
import Mathlib.Order.Bounds.Basic

/-!
# Machines that read symbols until they stop

A machine reads one symbol at a time and either stops, accepting or refusing, or moves to a
next state. It is specified by giving every state the language of words that finish an
acceptance from there: such a family is exact as soon as it agrees with one step of the
machine. If moreover every state can still be finished, the machine refuses at the first
symbol after which no word of the language is possible.

Words are built from classes of single symbols, whose products and stars are read off one
symbol at a time.
-/

namespace StopMachine

open Computability

variable {α : Type*}

/-- The words of one symbol from a class. -/
def symbol (p : α → Prop) : Language α := {w | ∃ a, p a ∧ w = [a]}

/-- The single word `w`. -/
def word (w : List α) : Language α := {w}

/-- A fixed word is its only member. -/
@[simp] theorem mem_word {v w : List α} : w ∈ word v ↔ w = v := Iff.rfl

/-- A product starts with a symbol of the class exactly when its first letter is one. -/
@[simp] theorem cons_mem_symbol_mul {p : α → Prop} {L : Language α} {a : α} {w : List α} :
    a :: w ∈ symbol p * L ↔ p a ∧ w ∈ L := by
  constructor
  · intro h
    obtain ⟨x, ⟨b, hb, rfl⟩, y, hy, hxy⟩ := Language.mem_mul.mp h
    obtain ⟨rfl, rfl⟩ := List.cons.inj hxy
    exact ⟨hb, hy⟩
  · rintro ⟨ha, hw⟩
    exact Language.mem_mul.mpr ⟨[a], ⟨a, ha, rfl⟩, w, hw, rfl⟩

/-- A product that starts with a symbol is never empty. -/
@[simp] theorem nil_notMem_symbol_mul {p : α → Prop} {L : Language α} : [] ∉ symbol p * L := by
  intro h
  obtain ⟨x, ⟨b, -, rfl⟩, y, -, hxy⟩ := Language.mem_mul.mp h
  cases hxy

/-- The empty word is the unit of the product. -/
@[simp] theorem word_nil : word ([] : List α) = 1 := rfl

/-- A fixed word is read letter by letter. -/
theorem word_cons (b : α) (v : List α) : word (b :: v) = symbol (· = b) * word v := by
  ext x
  constructor
  · intro h
    obtain rfl : x = b :: v := h
    exact cons_mem_symbol_mul.mpr ⟨rfl, rfl⟩
  · intro h
    cases x with
    | nil => exact absurd h nil_notMem_symbol_mul
    | cons a x =>
      obtain ⟨rfl, hx⟩ := cons_mem_symbol_mul.mp h
      obtain rfl : x = v := hx
      rfl

/-- A product that starts with a fixed word starts with its first letter. -/
@[simp] theorem cons_mem_word_mul {L : Language α} {a b : α} {v w : List α} :
    a :: w ∈ word (b :: v) * L ↔ a = b ∧ w ∈ word v * L := by
  rw [word_cons, mul_assoc, cons_mem_symbol_mul]

/-- A product that starts with a letter is never empty. -/
@[simp] theorem nil_notMem_word_mul {L : Language α} {b : α} {v : List α} :
    [] ∉ word (b :: v) * L := by
  rw [word_cons, mul_assoc]
  exact nil_notMem_symbol_mul

/-- A starred factor contributes nothing or at least one more copy. -/
theorem mem_kstar_mul {K L : Language α} {w : List α} :
    w ∈ K∗ * L ↔ w ∈ L ∨ w ∈ K * (K∗ * L) := by
  conv_lhs => rw [← Language.one_add_self_mul_kstar_eq_kstar, add_mul, one_mul, mul_assoc]
  exact Language.mem_add _ _ _

/-- A starred class either takes the first letter or is over. -/
@[simp] theorem cons_mem_kstar_symbol_mul {p : α → Prop} {L : Language α} {a : α} {w : List α} :
    a :: w ∈ (symbol p)∗ * L ↔ (p a ∧ w ∈ (symbol p)∗ * L) ∨ a :: w ∈ L := by
  rw [mem_kstar_mul, cons_mem_symbol_mul, or_comm]

/-- A starred class is over at the first letter of a fixed word, when that is not in the class. -/
theorem cons_mem_kstar_symbol_word {p : α → Prop} {L : Language α} {a b : α} {v w : List α}
    (hb : ¬ p b) :
    a :: w ∈ (symbol p)∗ * (word (b :: v) * L) ↔
      (a = b ∧ w ∈ word v * L) ∨ (a ≠ b ∧ p a ∧ w ∈ (symbol p)∗ * (word (b :: v) * L)) := by
  rw [cons_mem_kstar_symbol_mul, cons_mem_word_mul]
  by_cases hab : a = b
  · subst hab
    simp [hb]
  · simp [hab]

/-- A starred factor may be empty, so only its continuation decides on the empty word. -/
@[simp] theorem nil_mem_kstar_mul {K L : Language α} : [] ∈ K∗ * L ↔ [] ∈ L := by
  constructor
  · intro h
    obtain ⟨x, -, y, hy, hxy⟩ := Language.mem_mul.mp h
    obtain ⟨-, rfl⟩ := List.append_eq_nil_iff.mp hxy
    exact hy
  · intro h
    exact mem_kstar_mul.mpr (Or.inl h)

/-- A word of the continuation needs no copy of the starred factor. -/
theorem mem_kstar_mul_of_mem {K L : Language α} {w : List α} (h : w ∈ L) : w ∈ K∗ * L :=
  mem_kstar_mul.mpr (Or.inl h)

/-- Words of a starred class consist of its symbols. -/
theorem mem_kstar_symbol {p : α → Prop} {w : List α} : w ∈ (symbol p)∗ ↔ ∀ a ∈ w, p a := by
  rw [← mul_one (symbol p)∗]
  induction w with
  | nil => simp only [nil_mem_kstar_mul, Language.nil_mem_one, List.not_mem_nil, false_imp_iff,
      implies_true]
  | cons a w ih =>
    have hone : a :: w ∉ (1 : Language α) := by simp [Language.mem_one]
    rw [cons_mem_kstar_symbol_mul, ih, List.forall_mem_cons]
    simp only [hone, or_false]

/-- Words that come one by one from an indexed family are the family at a list of indices. -/
theorem exists_flatMap_of_mem_kstar {β : Type*} {L : Language α} {f : β → List α}
    (hL : ∀ w ∈ L, ∃ b, f b = w) {w : List α} (h : w ∈ L∗) : ∃ bs : List β, bs.flatMap f = w := by
  obtain ⟨words, rfl, hwords⟩ := Language.mem_kstar.mp h
  clear h
  induction words with
  | nil => exact ⟨[], rfl⟩
  | cons v words ih =>
    obtain ⟨b, rfl⟩ := hL v (hwords v (by simp))
    obtain ⟨bs, hbs⟩ := ih fun y hy => hwords y (by simp [hy])
    exact ⟨b :: bs, by rw [List.flatMap_cons, List.flatten_cons, hbs]⟩

/-- What reading one symbol does: stop with an answer, or go on in a next state. -/
inductive Step (σ : Type*) where
  | accept
  | refuse
  | next (s : σ)
  deriving DecidableEq

/-- The outcome of reading a word: the answer with the unread rest, or the state reached. -/
inductive Outcome (σ : Type*) (α : Type*) where
  | accepted (rest : List α)
  | refused (rest : List α)
  | pending (s : σ)
  deriving DecidableEq

variable {σ : Type*}

/-- Read symbols until the machine stops or the word is used up. -/
def run (step : σ → α → Step σ) : σ → List α → Outcome σ α
  | s, [] => .pending s
  | s, a :: w =>
    match step s a with
    | .accept => .accepted w
    | .refuse => .refused w
    | .next s' => run step s' w

/-- A machine that is still undecided after a first part reads the second part from there. -/
theorem run_append {step : σ → α → Step σ} {s s' : σ} {u v : List α}
    (h : run step s u = .pending s') : run step s (u ++ v) = run step s' v := by
  induction u generalizing s with
  | nil =>
    obtain rfl : s = s' := by simpa [run] using h
    rfl
  | cons a u ih =>
    simp only [List.cons_append, run] at h ⊢
    cases hstep : step s a with
    | accept => simp [hstep] at h
    | refuse => simp [hstep] at h
    | next t => exact ih (by simpa [hstep] using h)

/-- An answer given within a first part does not depend on what follows. -/
theorem run_append_accepted {step : σ → α → Step σ} {s : σ} {u v r : List α}
    (h : run step s u = .accepted r) : run step s (u ++ v) = .accepted (r ++ v) := by
  induction u generalizing s with
  | nil => simp [run] at h
  | cons a u ih =>
    simp only [List.cons_append, run] at h ⊢
    cases hstep : step s a with
    | accept => simp_all
    | refuse => simp [hstep] at h
    | next t => exact ih (by simpa [hstep] using h)

/-- A refusal within a first part does not depend on what follows. -/
theorem run_append_refused {step : σ → α → Step σ} {s : σ} {u v r : List α}
    (h : run step s u = .refused r) : run step s (u ++ v) = .refused (r ++ v) := by
  induction u generalizing s with
  | nil => simp [run] at h
  | cons a u ih =>
    simp only [List.cons_append, run] at h ⊢
    cases hstep : step s a with
    | accept => simp [hstep] at h
    | refuse => simp_all
    | next t => exact ih (by simpa [hstep] using h)

/-- A machine that is undecided at the end was undecided after every first part. -/
theorem pending_of_append {step : σ → α → Step σ} {s s' : σ} {u v : List α}
    (h : run step s (u ++ v) = .pending s') : ∃ t, run step s u = .pending t := by
  cases hu : run step s u with
  | accepted r =>
    rw [run_append_accepted hu] at h
    cases h
  | refused r =>
    rw [run_append_refused hu] at h
    cases h
  | pending t => exact ⟨t, rfl⟩

/-- A refusal uses up at least one symbol. -/
theorem length_lt_of_refused {step : σ → α → Step σ} {s : σ} {w r : List α}
    (h : run step s w = .refused r) : r.length < w.length := by
  induction w generalizing s with
  | nil => simp [run] at h
  | cons a w ih =>
    simp only [run] at h
    cases hstep : step s a with
    | accept => simp [hstep] at h
    | refuse =>
      obtain rfl : w = r := by simpa [hstep] using h
      simp
    | next t =>
      have hlt := ih (s := t) (by simpa [hstep] using h)
      rw [List.length_cons]
      omega

/-- A family of languages, one for each state, that agrees with every step of the machine and
in which every state can still be finished. -/
structure Recognises (step : σ → α → Step σ) (lang : σ → Language α) : Prop where
  nil_notMem : ∀ s, [] ∉ lang s
  cons_mem : ∀ s a w, a :: w ∈ lang s ↔
    step s a = .accept ∧ w = [] ∨ ∃ s', step s a = .next s' ∧ w ∈ lang s'
  finishable : ∀ s, ∃ w, w ∈ lang s

variable {step : σ → α → Step σ} {lang : σ → Language α}

/-- Every state can be finished when a completion of it is known that the machine accepts. -/
theorem Recognises.of_completion (hnil : ∀ s, [] ∉ lang s)
    (hcons : ∀ s a w, a :: w ∈ lang s ↔
      step s a = .accept ∧ w = [] ∨ ∃ s', step s a = .next s' ∧ w ∈ lang s')
    (completion : σ → List α) (hrun : ∀ s, run step s (completion s) = .accepted []) :
    Recognises step lang := by
  have hmem (w : List α) : ∀ s, run step s w = .accepted [] → w ∈ lang s := by
    induction w with
    | nil =>
      intro s h
      simp [run] at h
    | cons a w ih =>
      intro s h
      rw [hcons]
      simp only [run] at h
      cases hstep : step s a with
      | accept =>
        left
        exact ⟨rfl, by simpa [hstep] using h⟩
      | refuse => simp [hstep] at h
      | next s' =>
        right
        exact ⟨s', rfl, ih s' (by simpa [hstep] using h)⟩
  exact ⟨hnil, hcons, fun s => ⟨completion s, hmem _ s (hrun s)⟩⟩

section Recognises

variable (h : Recognises step lang)
include h

/-- The machine accepts exactly after a word of its language. -/
theorem Recognises.accepted_iff (s : σ) (b rest : List α) :
    run step s b = .accepted rest ↔ ∃ w ∈ lang s, b = w ++ rest := by
  induction b generalizing s with
  | nil =>
    constructor
    · intro hrun
      simp [run] at hrun
    · rintro ⟨w, hw, hb⟩
      obtain ⟨rfl, -⟩ := List.append_eq_nil_iff.mp hb.symm
      exact absurd hw (h.nil_notMem s)
  | cons a b ih =>
    have hcons : (∃ w ∈ lang s, a :: b = w ++ rest) ↔ ∃ w, a :: w ∈ lang s ∧ b = w ++ rest := by
      constructor
      · rintro ⟨w, hw, hb⟩
        cases w with
        | nil => exact absurd hw (h.nil_notMem s)
        | cons c w =>
          obtain ⟨rfl, rfl⟩ := List.cons.inj hb
          exact ⟨w, hw, rfl⟩
      · rintro ⟨w, hw, rfl⟩
        exact ⟨a :: w, hw, rfl⟩
    rw [hcons]
    simp only [run, h.cons_mem]
    cases hstep : step s a with
    | accept => simp [eq_comm]
    | refuse => simp
    | next t => simp [ih]

/-- An undecided machine is in a state from which exactly the missing rest is read. -/
theorem Recognises.mem_of_pending {s s' : σ} {b w : List α} (hrun : run step s b = .pending s') :
    b ++ w ∈ lang s ↔ w ∈ lang s' := by
  induction b generalizing s with
  | nil =>
    obtain rfl : s = s' := by simpa [run] using hrun
    rfl
  | cons a b ih =>
    simp only [run] at hrun
    rw [List.cons_append, h.cons_mem]
    cases hstep : step s a with
    | accept => simp [hstep] at hrun
    | refuse => simp [hstep] at hrun
    | next t =>
      simp only [hstep] at hrun
      simpa [hstep] using ih hrun

/-- The machine is undecided exactly on what a word of its language can still extend. -/
theorem Recognises.pending_iff (s : σ) (b : List α) :
    (∃ s', run step s b = .pending s') ↔ ∃ z, z ≠ [] ∧ b ++ z ∈ lang s := by
  constructor
  · rintro ⟨s', hrun⟩
    obtain ⟨z, hz⟩ := h.finishable s'
    refine ⟨z, ?_, (h.mem_of_pending hrun).mpr hz⟩
    rintro rfl
    exact h.nil_notMem s' hz
  · rintro ⟨z, hz, hmem⟩
    cases hrun : run step s b with
    | pending s' => exact ⟨s', rfl⟩
    | accepted r =>
      have hlong := run_append_accepted (v := z) hrun
      have hend := (h.accepted_iff s (b ++ z) []).mpr ⟨b ++ z, hmem, (List.append_nil _).symm⟩
      rw [hlong] at hend
      simp only [Outcome.accepted.injEq, List.append_eq_nil_iff] at hend
      exact absurd hend.2 hz
    | refused r =>
      have hlong := run_append_refused (v := z) hrun
      have hend := (h.accepted_iff s (b ++ z) []).mpr ⟨b ++ z, hmem, (List.append_nil _).symm⟩
      rw [hlong] at hend
      cases hend

/-- No proper prefix of a word of the language is itself in the language. -/
theorem Recognises.prefix_free {s : σ} {v w : List α} (hv : v ∈ lang s) (hw : w ∈ lang s)
    (hpre : v <+: w) : v = w := by
  obtain ⟨z, rfl⟩ := hpre
  have hshort := (h.accepted_iff s (v ++ z) z).mpr ⟨v, hv, rfl⟩
  have hlong := (h.accepted_iff s (v ++ z) []).mpr ⟨v ++ z, hw, (List.append_nil _).symm⟩
  rw [hshort] at hlong
  obtain rfl : z = [] := by simpa using hlong
  exact (List.append_nil v).symm

/-- The words that begin an input, by its first symbol. -/
private theorem Recognises.exists_prefix_cons (s : σ) (a : α) (b : List α) :
    (∃ w ∈ lang s, w <+: a :: b) ↔ ∃ w, a :: w ∈ lang s ∧ w <+: b := by
  constructor
  · rintro ⟨w, hw, hpre⟩
    cases w with
    | nil => exact absurd hw (h.nil_notMem s)
    | cons c w =>
      obtain ⟨rfl, hrest⟩ := List.cons_prefix_cons.mp hpre
      exact ⟨w, hw, hrest⟩
  · rintro ⟨w, hw, hpre⟩
    exact ⟨a :: w, hw, List.cons_prefix_cons.mpr ⟨rfl, hpre⟩⟩

/-- The beginnings that can be completed, by their first symbol. -/
private theorem Recognises.finishable_cons (s : σ) (a : α) (u : List α) :
    (∀ v, v <+: a :: u → v ≠ a :: u → ∃ z, v ++ z ∈ lang s) ↔
      ∀ v, v <+: u → v ≠ u → ∃ z, a :: (v ++ z) ∈ lang s := by
  constructor
  · intro hlive v hv hne
    exact hlive (a :: v) (List.cons_prefix_cons.mpr ⟨rfl, hv⟩) fun heq => hne (List.cons.inj heq).2
  · intro hlive v hv hne
    rcases List.prefix_cons_iff.mp hv with rfl | ⟨v, rfl, hrest⟩
    · exact h.finishable s
    · exact hlive v hrest fun heq => hne (congrArg _ heq)

/-- The machine refuses right after the shortest prefix that no word of the language extends,
provided no word of the language was completed before. -/
theorem Recognises.refused_iff (s : σ) (b rest : List α) :
    run step s b = .refused rest ↔
      ∃ u, b = u ++ rest ∧ (¬ ∃ w ∈ lang s, w <+: b) ∧ (¬ ∃ z, u ++ z ∈ lang s) ∧
        ∀ v, v <+: u → v ≠ u → ∃ z, v ++ z ∈ lang s := by
  induction b generalizing s with
  | nil =>
    constructor
    · intro hrun
      simp [run] at hrun
    · rintro ⟨u, hu, -, hdead, -⟩
      obtain ⟨rfl, -⟩ := List.append_eq_nil_iff.mp hu.symm
      exact absurd (by simpa using h.finishable s) hdead
  | cons a b ih =>
    have hfirst : (∃ u, a :: b = u ++ rest ∧ (¬ ∃ w ∈ lang s, w <+: a :: b) ∧
        (¬ ∃ z, u ++ z ∈ lang s) ∧ ∀ v, v <+: u → v ≠ u → ∃ z, v ++ z ∈ lang s) ↔
        ∃ u, b = u ++ rest ∧ (¬ ∃ w, a :: w ∈ lang s ∧ w <+: b) ∧
          (¬ ∃ z, a :: (u ++ z) ∈ lang s) ∧
            ∀ v, v <+: u → v ≠ u → ∃ z, a :: (v ++ z) ∈ lang s := by
      rw [h.exists_prefix_cons]
      constructor
      · rintro ⟨u, hu, hnone, hdead, hlive⟩
        cases u with
        | nil => exact absurd (by simpa using h.finishable s) hdead
        | cons c u =>
          obtain ⟨rfl, hb⟩ := List.cons.inj hu
          exact ⟨u, hb, hnone, hdead, (h.finishable_cons s a u).mp hlive⟩
      · rintro ⟨u, rfl, hnone, hdead, hlive⟩
        exact ⟨a :: u, rfl, hnone, hdead, (h.finishable_cons s a u).mpr hlive⟩
    rw [hfirst]
    simp only [run, h.cons_mem]
    cases hstep : step s a with
    | accept =>
      -- the input begins with the word of its first symbol
      simp
    | refuse =>
      have hnil (u : List α) : (∀ v, v <+: u → v = u) ↔ u = [] :=
        ⟨fun hall => (hall [] List.nil_prefix).symm,
          fun hu v hv => (List.prefix_nil.mp (hu ▸ hv)).trans hu.symm⟩
      simp [hnil]
    | next t => simp [ih]

end Recognises

end StopMachine
