import Aite.Config.Parse
import Aite.Config.Scan
import Aite.Lib.BlockBuilder

/-!
# The stack of open blocks

While the parser runs, the stack leads from the config of the caller along the last statement
of each open block to the innermost one, and the store holds a block under construction: what
the statements before the open ones own lies at addresses that are not on the stack, so that no
change of the innermost block reaches it.
-/

namespace Aite.Config

open BlockGrammar

/-- The statements stand for a block, and the configs they own are not at the given addresses. -/
def Represents (store : Store) (avoid : List Addr) :
    List NginxConfigStatement → Block Text → Prop
  | statements, .empty => statements = []
  | statements, .simple words rest => ∃ after, statements = ⟨words, none⟩ :: after ∧
      Represents store avoid after rest
  | statements, .nested words body rest => ∃ a config after,
      statements = ⟨words, some a⟩ :: after ∧ a ∉ avoid ∧ store[a]? = some config ∧
      Represents store avoid config.statements_ body ∧ Represents store avoid after rest

/-- The config at an address stands for a block. -/
def Holds (store : Store) (a : Addr) (block : Block Text) : Prop :=
  ∃ config, store[a]? = some config ∧ Represents store [] config.statements_ block

/-- The statements of the innermost block. -/
def HoldsLast (store : Store) (avoid : List Addr) (statements : List NginxConfigStatement)
    (b : Builder Text) : Prop :=
  match b.last with
  | none => statements = [] ∧ b.done = .empty
  | some (words, body) => ∃ before child, statements = before ++ [⟨words, child⟩] ∧
      Represents store avoid before b.done ∧
      Represents store avoid [⟨words, child⟩] (.single words body)

/-- The open statement of each block around the innermost one owns the block inside it. -/
def HoldsOuter (store : Store) (avoid : List Addr) :
    Addr → List Addr → List (Block Text × List Text) → Prop
  | _, [], [] => True
  | child, a :: stack, (done, words) :: outer =>
    (∃ before, store[a]? = some ⟨before ++ [⟨words, some child⟩]⟩ ∧
      Represents store avoid before done) ∧ HoldsOuter store avoid a stack outer
  | _, _, _ => False

/-- The stack and the store hold a block under construction. -/
def Models (store : Store) (config_stack : List Addr) (b : Builder Text) : Prop :=
  config_stack.Nodup ∧ ∃ a stack statements, config_stack = a :: stack ∧
    store[a]? = some ⟨statements⟩ ∧ HoldsLast store config_stack statements b ∧
    HoldsOuter store config_stack a stack b.outer

variable {store : Store} {avoid fewer stack config_stack : List Addr} {a child : Addr}
  {config : NginxConfig} {statements : List NginxConfigStatement} {block : Block Text}
  {outer : List (Block Text × List Text)} {b next : Builder Text} {w : Text}

/-! ## What a change of the store keeps -/

/-- A change at an address to avoid is not seen. -/
theorem Represents.set (h : Represents store avoid statements block) (ha : a ∈ avoid)
    (config : NginxConfig) : Represents (store.set a config) avoid statements block := by
  induction block generalizing statements with
  | empty => exact h
  | simple words rest ih =>
    obtain ⟨after, hsplit, hrest⟩ := h
    exact ⟨after, hsplit, ih hrest⟩
  | nested words body rest ihbody ih =>
    obtain ⟨child, owned, after, hsplit, hnot, howned, hbody, hrest⟩ := h
    refine ⟨child, owned, after, hsplit, hnot, ?_, ihbody hbody, ih hrest⟩
    have hne : a ≠ child := fun h => hnot (h ▸ ha)
    rw [List.getElem?_set_ne hne]
    exact howned

/-- A new config is not seen. -/
theorem Represents.alloc (h : Represents store avoid statements block) (config : NginxConfig) :
    Represents (store ++ [config]) (store.length :: avoid) statements block := by
  induction block generalizing statements with
  | empty => exact h
  | simple words rest ih =>
    obtain ⟨after, hsplit, hrest⟩ := h
    exact ⟨after, hsplit, ih hrest⟩
  | nested words body rest ihbody ih =>
    obtain ⟨child, owned, after, hsplit, hnot, howned, hbody, hrest⟩ := h
    obtain ⟨hlength, -⟩ := List.getElem?_eq_some_iff.mp howned
    refine ⟨child, owned, after, hsplit, ?_, ?_, ihbody hbody, ih hrest⟩
    · rw [List.mem_cons, not_or]
      exact ⟨Nat.ne_of_lt hlength, hnot⟩
    · rw [List.getElem?_append_left hlength]
      exact howned

/-- Fewer addresses to avoid are avoided. -/
theorem Represents.mono (h : Represents store avoid statements block) (hfewer : fewer ⊆ avoid) :
    Represents store fewer statements block := by
  induction block generalizing statements with
  | empty => exact h
  | simple words rest ih =>
    obtain ⟨after, hsplit, hrest⟩ := h
    exact ⟨after, hsplit, ih hrest⟩
  | nested words body rest ihbody ih =>
    obtain ⟨child, owned, after, hsplit, hnot, howned, hbody, hrest⟩ := h
    exact ⟨child, owned, after, hsplit, fun h => hnot (hfewer h), howned, ihbody hbody, ih hrest⟩

/-- Statements one after the other stand for the appended blocks. -/
theorem Represents.append {others : List NginxConfigStatement} {more : Block Text}
    (h : Represents store avoid statements block) (hmore : Represents store avoid others more) :
    Represents store avoid (statements ++ others) (block.append more) := by
  induction block generalizing statements with
  | empty =>
    rw [show statements = [] from h]
    exact hmore
  | simple words rest ih =>
    obtain ⟨after, rfl, hrest⟩ := h
    exact ⟨after ++ others, rfl, ih hrest⟩
  | nested words body rest _ ih =>
    obtain ⟨child, owned, after, rfl, hnot, howned, hbody, hrest⟩ := h
    exact ⟨child, owned, after ++ others, rfl, hnot, howned, hbody, ih hrest⟩

/-- The last statement, its words aside, stands for its block whatever the words are. -/
theorem Represents.words {words : List Text} {child : Option Addr} {body : Option (Block Text)}
    (h : Represents store avoid [⟨words, child⟩] (.single words body)) (others : List Text) :
    Represents store avoid [⟨others, child⟩] (.single others body) := by
  cases body with
  | none =>
    obtain ⟨after, hsplit, hrest⟩ := h
    obtain ⟨hstatement, rfl⟩ := List.cons.inj hsplit
    cases hstatement
    exact ⟨[], rfl, hrest⟩
  | some body =>
    obtain ⟨a, owned, after, hsplit, hnot, howned, hbody, hrest⟩ := h
    obtain ⟨hstatement, rfl⟩ := List.cons.inj hsplit
    cases hstatement
    exact ⟨a, owned, [], rfl, hnot, howned, hbody, hrest⟩

/-- The statements of the innermost block stand for it. -/
theorem HoldsLast.represents (h : HoldsLast store avoid statements b) :
    Represents store avoid statements b.current := by
  unfold HoldsLast at h
  unfold Builder.current
  cases hlast : b.last with
  | none =>
    rw [hlast] at h
    rw [h.1, h.2]
    rfl
  | some last =>
    rw [hlast] at h
    obtain ⟨before, child, rfl, hdone, hsingle⟩ := h
    exact hdone.append hsingle

/-- A change of the innermost block is not seen outside. -/
theorem HoldsOuter.set (h : HoldsOuter store avoid child stack outer) (ha : a ∈ avoid)
    (hnot : a ∉ stack) (config : NginxConfig) :
    HoldsOuter (store.set a config) avoid child stack outer := by
  induction stack generalizing child outer with
  | nil => cases outer with
    | nil => trivial
    | cons => exact h
  | cons top stack ih =>
    cases outer with
    | nil => exact h
    | cons frame outer =>
      obtain ⟨⟨before, htop, hbefore⟩, hrest⟩ := h
      rw [List.mem_cons, not_or] at hnot
      refine ⟨⟨before, ?_, hbefore.set ha config⟩, ih hrest hnot.2⟩
      rw [List.getElem?_set_ne hnot.1]
      exact htop

/-- A new config is not seen outside. -/
theorem HoldsOuter.alloc (h : HoldsOuter store avoid child stack outer) (config : NginxConfig) :
    HoldsOuter (store ++ [config]) (store.length :: avoid) child stack outer := by
  induction stack generalizing child outer with
  | nil => cases outer with
    | nil => trivial
    | cons => exact h
  | cons top stack ih =>
    cases outer with
    | nil => exact h
    | cons frame outer =>
      obtain ⟨⟨before, htop, hbefore⟩, hrest⟩ := h
      obtain ⟨hlength, -⟩ := List.getElem?_eq_some_iff.mp htop
      refine ⟨⟨before, ?_, hbefore.alloc config⟩, ih hrest⟩
      rw [List.getElem?_append_left hlength]
      exact htop

/-- Fewer addresses to avoid are avoided outside. -/
theorem HoldsOuter.mono (h : HoldsOuter store avoid child stack outer) (hfewer : fewer ⊆ avoid) :
    HoldsOuter store fewer child stack outer := by
  induction stack generalizing child outer with
  | nil => cases outer with
    | nil => trivial
    | cons => exact h
  | cons top stack ih =>
    cases outer with
    | nil => exact h
    | cons frame outer =>
      obtain ⟨⟨before, htop, hbefore⟩, hrest⟩ := h
      exact ⟨⟨before, htop, hbefore.mono hfewer⟩, ih hrest⟩

/-- Every address of the stack outside the innermost one has a config. -/
theorem HoldsOuter.lt (h : HoldsOuter store avoid child stack outer) :
    ∀ a ∈ stack, a < store.length := by
  induction stack generalizing child outer with
  | nil => exact nofun
  | cons top stack ih =>
    cases outer with
    | nil => exact h.elim
    | cons frame outer =>
      obtain ⟨⟨before, htop, -⟩, hrest⟩ := h
      obtain ⟨hlength, -⟩ := List.getElem?_eq_some_iff.mp htop
      intro a ha
      cases ha with
      | head => exact hlength
      | tail _ ha => exact ih hrest a ha

/-! ## What the operations of the parser do -/

/-- The last statement at the top of the stack is changed. -/
theorem modifyBack_append {before : List NginxConfigStatement} {back : NginxConfigStatement}
    (h : store[a]? = some ⟨before ++ [back]⟩) (f : NginxConfigStatement → NginxConfigStatement) :
    modifyBack store (a :: stack) f = .ok (store.set a ⟨before ++ [f back]⟩) := by
  unfold modifyBack Store.deref
  simp only [top, run_ok_bind, h, List.getLast?_append, List.getLast?_singleton, Option.some_or,
    List.dropLast_concat]
  rfl

/-- A statement is opened at the top of the stack. -/
theorem emplaceBack_eq (h : store[a]? = some config) (stack : List Addr) :
    emplaceBack store (a :: stack) =
      .ok (store.set a ⟨config.statements_ ++ [⟨[], none⟩]⟩) := by
  simp only [emplaceBack, top, Store.deref, run_ok_bind, h]
  rfl

/-- Without a statement at the top of the stack there is none to change. -/
theorem modifyBack_nil (h : store[a]? = some ⟨[]⟩) (stack : List Addr)
    (f : NginxConfigStatement → NginxConfigStatement) :
    modifyBack store (a :: stack) f = .error (.fault .backOfEmpty) := by
  unfold modifyBack Store.deref
  simp only [top, run_ok_bind, h]
  rfl

/-- Without a statement in the innermost block there is none to change. -/
theorem modifyBack_of_none (h : Models store config_stack b) (hlast : b.last = none)
    (f : NginxConfigStatement → NginxConfigStatement) :
    modifyBack store config_stack f = .error (.fault .backOfEmpty) := by
  obtain ⟨-, a, stack, statements, rfl, hconfig, hstatements, -⟩ := h
  rw [HoldsLast, hlast] at hstatements
  rw [hstatements.1] at hconfig
  exact modifyBack_nil hconfig stack f

/-- A bare word that comes first opens a statement of its own. -/
theorem Models.open (h : Models store config_stack b) (w : Text) :
    ∃ opened changed, emplaceBack store config_stack = .ok opened ∧
      pushToken opened config_stack w = .ok changed ∧ Models changed config_stack (b.openWith w) := by
  obtain ⟨hnodup, a, stack, statements, rfl, hconfig, hstatements, houter⟩ := h
  have hnot : a ∉ stack := (List.nodup_cons.mp hnodup).1
  obtain ⟨hlength, -⟩ := List.getElem?_eq_some_iff.mp hconfig
  have hopened : (store.set a ⟨statements ++ [⟨[], none⟩]⟩)[a]? =
      some ⟨statements ++ [⟨[], none⟩]⟩ := List.getElem?_set_self hlength
  have hpush : pushToken (store.set a ⟨statements ++ [⟨[], none⟩]⟩) (a :: stack) w =
      .ok (store.set a ⟨statements ++ [⟨[w], none⟩]⟩) := by
    rw [pushToken, modifyBack_append hopened, List.set_set]
    rfl
  refine ⟨_, _, emplaceBack_eq hconfig stack, hpush, hnodup, a, stack, _, rfl,
    List.getElem?_set_self hlength, ?_, houter.set List.mem_cons_self hnot _⟩
  exact ⟨statements, none, rfl, hstatements.represents.set List.mem_cons_self _, [], rfl, rfl⟩

/-- Any other word extends the last statement. -/
theorem Models.push (h : Models store config_stack b) (hnext : b.addWord w = some next) :
    ∃ changed, pushToken store config_stack w = .ok changed ∧ Models changed config_stack next := by
  obtain ⟨hnodup, a, stack, statements, rfl, hconfig, hstatements, houter⟩ := h
  have hnot : a ∉ stack := (List.nodup_cons.mp hnodup).1
  obtain ⟨hlength, -⟩ := List.getElem?_eq_some_iff.mp hconfig
  obtain ⟨⟨words, body⟩, hlast, rfl⟩ := Option.map_eq_some_iff.mp hnext
  rw [HoldsLast, hlast] at hstatements
  obtain ⟨before, child, rfl, hbefore, hsingle⟩ := hstatements
  refine ⟨_, modifyBack_append hconfig _, hnodup, a, stack,
    before ++ [⟨words ++ [w], child⟩], rfl, List.getElem?_set_self hlength, ?_, ?_⟩
  · exact ⟨before, child, rfl, hbefore.set List.mem_cons_self _,
      (hsingle.words _).set List.mem_cons_self _⟩
  · exact houter.set List.mem_cons_self hnot _

/-- A new block is owned by the last statement and lies on top of the stack. -/
theorem Models.reset (h : Models store config_stack b) (hnext : b.enter = some next) :
    ∃ changed, resetChildBlock (store ++ [({} : NginxConfig)]) config_stack store.length =
        .ok changed ∧ Models changed (store.length :: config_stack) next := by
  obtain ⟨hnodup, a, stack, statements, rfl, hconfig, hstatements, houter⟩ := h
  have hnot : a ∉ stack := (List.nodup_cons.mp hnodup).1
  obtain ⟨hlength, -⟩ := List.getElem?_eq_some_iff.mp hconfig
  obtain ⟨⟨words, body⟩, hlast, rfl⟩ := Option.map_eq_some_iff.mp hnext
  rw [HoldsLast, hlast] at hstatements
  obtain ⟨before, child, rfl, hbefore, -⟩ := hstatements
  have hgrown : (store ++ [({} : NginxConfig)])[a]? = some ⟨before ++ [⟨words, child⟩]⟩ := by
    rw [List.getElem?_append_left hlength]
    exact hconfig
  have hgrownLength : a < (store ++ [({} : NginxConfig)]).length := by
    rw [List.length_append]
    exact Nat.lt_succ_of_lt hlength
  have hmem : a ∈ store.length :: a :: stack := List.mem_cons_of_mem _ List.mem_cons_self
  refine ⟨_, modifyBack_append hgrown _, ?_, store.length, a :: stack, [], rfl, ?_, ⟨rfl, rfl⟩,
    ⟨before, List.getElem?_set_self hgrownLength, (hbefore.alloc _).set hmem _⟩,
    (houter.alloc _).set hmem hnot _⟩
  · rw [List.nodup_cons]
    refine ⟨fun hstack => ?_, hnodup⟩
    cases hstack with
    | head => exact Nat.lt_irrefl _ hlength
    | tail _ hstack => exact Nat.lt_irrefl _ (houter.lt _ hstack)
  · rw [List.getElem?_set_ne (Nat.ne_of_lt hlength), List.getElem?_concat_length]

/-- A block that has ended is the block of the last statement around it. -/
theorem Models.pop (h : Models store (a :: stack) b) (hnext : b.leave = some next) :
    Models store stack next := by
  obtain ⟨hnodup, a, stack, statements, hstack, hconfig, hstatements, houter⟩ := h
  cases hstack
  obtain ⟨hnot, hnodup⟩ := List.nodup_cons.mp hnodup
  unfold Builder.leave at hnext
  cases hframes : b.outer with
  | nil => rw [hframes] at hnext; cases hnext
  | cons frame outer =>
    obtain ⟨done, words⟩ := frame
    rw [hframes] at hnext houter
    cases hnext
    cases stack with
    | nil => exact houter.elim
    | cons top stack =>
      obtain ⟨⟨before, htop, hbefore⟩, hrest⟩ := houter
      have hfewer : top :: stack ⊆ a :: top :: stack := List.subset_cons_self _ _
      refine ⟨hnodup, top, stack, _, rfl, htop, ?_, hrest.mono hfewer⟩
      exact ⟨before, some a, rfl, hbefore.mono hfewer, a, ⟨statements⟩, [], rfl, hnot, hconfig,
        hstatements.represents.mono hfewer, rfl⟩

/-- When no block is open, the config of the caller stands for what was built. -/
theorem Models.holds (h : Models store config_stack b) (hclosed : b.outer = [])
    (hbottom : config_stack.getLast? = some a) : Holds store a b.current := by
  obtain ⟨-, top, stack, statements, rfl, hconfig, hstatements, houter⟩ := h
  rw [hclosed] at houter
  cases stack with
  | nil =>
    cases hbottom
    exact ⟨⟨statements⟩, hconfig, hstatements.represents.mono (List.nil_subset _)⟩
  | cons => exact houter.elim

end Aite.Config
