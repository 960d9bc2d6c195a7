import Mathlib.Algebra.GroupWithZero.Nat
import Mathlib.Data.List.Basic

/-!
# Components that share a store

Components act on one store, each with a state of its own, and new ones join them. An action of a
component reads and changes the store and the state of this component only, and the actions of
different components come in any order.

Seen from one component, a run is a run of it alone in which the store may change between any two
of its actions. A component that does the same on every store does not see at all what the others
do.
-/

namespace SharedStore

variable {Store Local Act : Type*}

/-- The store and the states of the components. -/
structure Global (Store Local : Type*) where
  store : Store
  locals : List Local := []

/-- A component joins, or one of them acts. -/
inductive Move (Local Act : Type*) where
  | join (l : Local)
  | act (i : ℕ) (a : Act)

/-- How components start, and what an action of one makes of the store and its state, unless it
does not return. -/
structure System (Store Local Act : Type*) where
  init : Local → Prop
  step : ℕ → Store → Local → Act → Option (Store × Local)

variable (sys : System Store Local Act)

/-- One move. -/
inductive Step : Global Store Local → Move Local Act → Global Store Local → Prop where
  | join {g l} (hinit : sys.init l) : Step g (.join l) { g with locals := g.locals ++ [l] }
  | act {g i a l r} (hl : g.locals[i]? = some l) (hstep : sys.step i g.store l a = some r) :
      Step g (.act i a) ⟨r.1, g.locals.set i r.2⟩

/-- Moves, one after the other. -/
inductive Run (g : Global Store Local) : List (Move Local Act) → Global Store Local → Prop where
  | refl : Run g [] g
  | snoc {moves m h k} (hrun : Run g moves h) (hstep : Step sys h m k) : Run g (moves ++ [m]) k

/-- The actions of a component alone, each with the store that it finds. -/
inductive LocalRun (i : ℕ) (l : Local) : List (Store × Act) → Local → Prop where
  | refl : LocalRun i l [] l
  | snoc {trace σ a m r} (hrun : LocalRun i l trace m) (hstep : sys.step i σ m a = some r) :
      LocalRun i l (trace ++ [(σ, a)]) r.2

/-- The components that join, in order. -/
def joined (moves : List (Move Local Act)) : List Local :=
  moves.filterMap fun
    | .join l => some l
    | .act _ _ => none

/-- The actions of one component, in order. -/
def actionsOf (i : ℕ) (moves : List (Move Local Act)) : List Act :=
  moves.filterMap fun
    | .join _ => none
    | .act j a => if j = i then some a else none

/-- Actions of components, one after the other, unless one of them does not return. -/
def System.acts (g : Global Store Local) : List (ℕ × Act) → Option (Global Store Local)
  | [] => some g
  | (i, a) :: rest =>
    match g.locals[i]? with
    | none => none
    | some l =>
      match sys.step i g.store l a with
      | none => none
      | some r => acts ⟨r.1, g.locals.set i r.2⟩ rest

variable {sys} {g h k : Global Store Local} {m : Move Local Act} {moves : List (Move Local Act)}

/-- Actions go on with a run. -/
theorem Run.acts (hrun : Run sys g moves h) {actions : List (ℕ × Act)}
    (hacts : sys.acts h actions = some k) :
    Run sys g (moves ++ actions.map fun a => .act a.1 a.2) k := by
  induction actions generalizing h moves with
  | nil =>
    obtain rfl := Option.some.inj hacts
    rw [List.map_nil, List.append_nil]
    exact hrun
  | cons action rest ih =>
    obtain ⟨i, a⟩ := action
    rw [System.acts] at hacts
    cases hl : h.locals[i]? with
    | none => simp [hl] at hacts
    | some l =>
      cases hstep : sys.step i h.store l a with
      | none => simp [hl, hstep] at hacts
      | some r =>
        simp only [hl, hstep] at hacts
        rw [List.map_cons, List.append_cons]
        exact ih (hrun.snoc (.act hl hstep)) hacts

/-! ## What runs keep -/

/-- What holds of new components and is kept by every action of a component, whatever it finds in
the store, holds of all components. -/
theorem Run.forall_local {I : Local → Prop} (hrun : Run sys g moves h) (hg : ∀ l ∈ g.locals, I l)
    (hinit : ∀ l, sys.init l → I l)
    (hkeeps : ∀ i σ l a r, I l → sys.step i σ l a = some r → I r.2) : ∀ l ∈ h.locals, I l := by
  induction hrun with
  | refl => exact hg
  | snoc _ hstep ih =>
    cases hstep with
    | join hl => exact List.forall_mem_append.mpr ⟨ih, List.forall_mem_singleton.mpr (hinit _ hl)⟩
    | act hl hstep =>
      intro l hmem
      cases List.mem_or_eq_of_mem_set hmem with
      | inl hmem => exact ih l hmem
      | inr heq => exact heq ▸ hkeeps _ _ _ _ _ (ih _ (List.mem_of_getElem? hl)) hstep

/-- What holds of the store and is kept by every action holds of the store. -/
theorem Run.store {I : Store → Prop} (hrun : Run sys g moves h) (hg : I g.store)
    (hkeeps : ∀ i σ l a r, I σ → sys.step i σ l a = some r → I r.1) : I h.store := by
  induction hrun with
  | refl => exact hg
  | snoc _ hstep ih =>
    cases hstep with
    | join _ => exact ih
    | act _ hstep => exact hkeeps _ _ _ _ _ ih hstep

/-- What holds before anybody has joined and is kept by every move holds in every state. -/
theorem Run.induct {I : Global Store Local → Prop} (hrun : Run sys g moves h) (hg : I g)
    (hkeeps : ∀ h m k, I h → Step sys h m k → I k) : I h := by
  induction hrun with
  | refl => exact hg
  | snoc _ hstep ih => exact hkeeps _ _ _ ih hstep

/-- The moves of a list with one more. -/
theorem joined_append (moves more : List (Move Local Act)) :
    joined (moves ++ more) = joined moves ++ joined more := List.filterMap_append

/-- The actions in a list with one more move. -/
theorem actionsOf_append (i : ℕ) (moves more : List (Move Local Act)) :
    actionsOf i (moves ++ more) = actionsOf i moves ++ actionsOf i more := List.filterMap_append

/-- There is a state for every component that has joined. -/
theorem Run.length_eq (hrun : Run sys g moves h) (hg : g.locals = []) :
    h.locals.length = (joined moves).length := by
  induction hrun with
  | refl => rw [hg]; rfl
  | snoc _ hstep ih =>
    rw [joined_append, List.length_append, ← ih]
    cases hstep with
    | join _ => rw [List.length_append]; rfl
    | act _ _ => rw [List.length_set]; rfl

/-- Nobody acts before it has joined. -/
theorem Run.actionsOf_eq_nil (hrun : Run sys g moves h) {i : ℕ} (hi : h.locals.length ≤ i) :
    actionsOf i moves = [] := by
  induction hrun with
  | refl => rfl
  | @snoc moves m h k _ hstep ih =>
    rw [actionsOf_append, List.append_eq_nil_iff]
    cases hstep with
    | join _ =>
      rw [List.length_append] at hi
      exact ⟨ih (by omega), rfl⟩
    | @act j a l r hl hstep =>
      rw [List.length_set] at hi
      refine ⟨ih hi, ?_⟩
      have hj : j < h.locals.length := (List.getElem?_eq_some_iff.mp hl).1
      have hne : j ≠ i := by omega
      simp [actionsOf, hne]

/-- A store that is found on the way. -/
def Found (sys : System Store Local Act) (g : Global Store Local) (σ : Store) : Prop :=
  ∃ moves h, Run sys g moves h ∧ h.store = σ

/-- A component acts as it would alone, with the store as it finds it. -/
theorem Run.localRun (hrun : Run sys g moves h) (hg : g.locals = []) {i : ℕ} {l : Local}
    (hl : h.locals[i]? = some l) :
    ∃ start trace, (joined moves)[i]? = some start ∧ sys.init start ∧
      LocalRun sys i start trace l ∧ trace.map Prod.snd = actionsOf i moves ∧
        ∀ x ∈ trace, Found sys g x.1 := by
  induction hrun generalizing l with
  | refl =>
    rw [hg] at hl
    cases hl
  | @snoc moves m h k hrun hstep ih =>
    rw [joined_append, actionsOf_append]
    cases hstep with
    | @join new hinit =>
      change (h.locals ++ [new])[i]? = some l at hl
      have hnobody : actionsOf i [@Move.join Local Act new] = [] := rfl
      rw [hnobody, List.append_nil]
      by_cases hi : i < h.locals.length
      · rw [List.getElem?_append_left hi] at hl
        obtain ⟨start, trace, hstart, hrest⟩ := ih hl
        have hlt := (List.getElem?_eq_some_iff.mp hstart).1
        exact ⟨start, trace, by rw [List.getElem?_append_left hlt, hstart], hrest⟩
      · rw [List.getElem?_append_right (Nat.le_of_not_lt hi), List.getElem?_singleton] at hl
        split_ifs at hl with hlast
        obtain rfl := Option.some.inj hl
        have hlength := hrun.length_eq hg
        refine ⟨new, [], ?_, hinit, .refl, ?_, fun _ hx => absurd hx List.not_mem_nil⟩
        · rw [List.getElem?_append_right (by omega), ← hlength, hlast]
          rfl
        · rw [hrun.actionsOf_eq_nil (Nat.le_of_not_lt hi)]
          rfl
    | @act j a m r hm hstep =>
      change (h.locals.set j r.2)[i]? = some l at hl
      have hjoined : joined [@Move.act Local Act j a] = [] := rfl
      rw [hjoined, List.append_nil]
      by_cases hj : j = i
      · subst hj
        have hlt : j < h.locals.length := (List.getElem?_eq_some_iff.mp hm).1
        rw [List.getElem?_set_self hlt] at hl
        obtain rfl := Option.some.inj hl
        obtain ⟨start, trace, hstart, hinit, hlocal, htrace, hfound⟩ := ih hm
        refine ⟨start, trace ++ [(h.store, a)], hstart, hinit, hlocal.snoc hstep, ?_, ?_⟩
        · rw [List.map_append, htrace]
          simp [actionsOf]
        · exact List.forall_mem_append.mpr
            ⟨hfound, List.forall_mem_singleton.mpr ⟨moves, h, hrun, rfl⟩⟩
      · have hnobody : actionsOf i [@Move.act Local Act j a] = [] := by simp [actionsOf, hj]
        rw [hnobody, List.append_nil]
        rw [List.getElem?_set_ne hj] at hl
        exact ih hl

/-! ## Noninterference -/

section Noninterference

/-- On all stores with the property `S`, an action of the component that leads to a state with the
property `P` leads to this state on every store, in the one system and in the other, and comes from
a state with the property. -/
structure Blind (sys sys' : System Store Local Act) (i : ℕ) (S : Store → Prop)
    (P : Local → Prop) : Prop where
  back : ∀ σ m a r, sys.step i σ m a = some r → P r.2 → P m
  same : ∀ σ σ' m a r r', S σ → S σ' → sys.step i σ m a = some r → P r.2 →
    sys'.step i σ' m a = some r' → r'.2 = r.2

variable {sys' : System Store Local Act} {S : Store → Prop} {P : Local → Prop} {i : ℕ}

/-- A component that is blind for the store ends in the same state, however the store changes. -/
theorem LocalRun.unique (hblind : Blind sys sys' i S P) {start l l' : Local}
    {trace trace' : List (Store × Act)} (h : LocalRun sys i start trace l)
    (h' : LocalRun sys' i start trace' l') (hactions : trace.map Prod.snd = trace'.map Prod.snd)
    (htrace : ∀ x ∈ trace, S x.1) (htrace' : ∀ x ∈ trace', S x.1) (hl : P l) : l' = l := by
  induction h generalizing trace' l' with
  | refl =>
    cases h' with
    | refl => rfl
    | snoc _ _ => simp at hactions
  | @snoc trace σ a m r hrun hstep ih =>
    cases h' with
    | refl => simp at hactions
    | @snoc trace' σ' a' m' r' hrun' hstep' =>
      rw [List.map_append, List.map_append] at hactions
      obtain ⟨hbefore, hlast⟩ := List.append_inj' hactions rfl
      obtain rfl : a = a' := List.singleton_inj.mp hlast
      rw [List.forall_mem_append, List.forall_mem_singleton] at htrace htrace'
      obtain rfl := ih hrun' hbefore htrace.1 htrace'.1 (hblind.back σ m a r hstep hl)
      exact hblind.same σ σ' _ a r r' htrace.2 htrace'.2 hstep hl hstep'

end Noninterference

end SharedStore
