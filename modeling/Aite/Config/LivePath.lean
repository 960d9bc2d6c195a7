import Aite.Config.BlockStack
import Aite.Config.Termination
import Aite.Lib.OwnerTree

/-!
# The stack of open blocks is a live path

A config owns a block when a statement of it does. The stack of the parser leads from the config
of the caller to the innermost open block, each entry being the block of the last statement of
the entry below. A reset destroys what the last statement at the top owned until then, with all
that it owns in turn, and nothing of this is on the stack.
-/

namespace Aite.Config

open Relation

/-- A statement of a config owns a block. -/
def NginxConfig.Owns (config : NginxConfig) (child : Addr) : Prop :=
  ∃ statement ∈ config.statements_, statement.child_block_ = some child

/-- The config at an address owns a block. -/
def Owns (store : Store) (a child : Addr) : Prop :=
  ∃ config, store[a]? = some config ∧ config.Owns child

/-- The last statement of the config at an address owns a block. -/
def OwnsLast (store : Store) (a child : Addr) : Prop :=
  ∃ before words, store[a]? = some ⟨before ++ [⟨words, some child⟩]⟩

/-- What a reset of the block of the last statement at an address destroys. -/
def Destroyed (store : Store) (a b : Addr) : Prop :=
  ∃ child, OwnsLast store a child ∧ ReflTransGen (Owns store) child b

/-- Each entry of a stack is the block of the last statement of the entry below it. -/
def IsPath (store : Store) (config_stack : List Addr) : Prop :=
  config_stack.IsChain fun above below => OwnsLast store below above

/-- The blocks in a store are owned as `std::unique_ptr` has it: what is owned exists, has one
owner and does not own its owner. -/
structure Owned (store : Store) (root : Addr) : Prop where
  root_lt : root < store.length
  child_lt : ∀ a child, Owns store a child → child < store.length
  tree : OwnerTree (Owns store) root

/-- What holds between two iterations, also when the counter of brackets is negative. -/
structure Tracked (root : Addr) (s : ParseState) : Prop where
  counter : (s.config_stack.length : ℤ) = s.bracketCtr + 1
  nodup : s.config_stack.Nodup
  lt : ∀ a ∈ s.config_stack, a < s.store.length
  bottom : s.config_stack ≠ [] → s.config_stack.getLast? = some root
  path : IsPath s.store s.config_stack
  owned : Owned s.store root

/-- The stack has one entry more than there are open brackets, from the config of the caller
along the last statements to the top. All entries are owned from there, and none of them is
destroyed when the last statement at the top is given another block. -/
structure LivePath (root : Addr) (s : ParseState) : Prop where
  length : (s.config_stack.length : ℤ) = s.bracketCtr + 1
  bottom : s.config_stack.getLast? = some root
  path : IsPath s.store s.config_stack
  owned : ∀ a ∈ s.config_stack, a < s.store.length ∧ ReflTransGen (Owns s.store) root a
  kept : ∀ top ∈ s.config_stack.head?, ∀ a ∈ s.config_stack, ¬ Destroyed s.store top a

variable {store others : Store} {a b child root topmost : Addr} {stack : List Addr}
  {config : NginxConfig} {before : List NginxConfigStatement} {back : NginxConfigStatement}
  {s t : ParseState} {n : ℕ} {e : Abort}

/-! ## Who owns what -/

/-- The last statement is a statement. -/
theorem OwnsLast.owns (h : OwnsLast store a child) : Owns store a child := by
  obtain ⟨before, words, hconfig⟩ := h
  exact ⟨_, hconfig, _, List.mem_append_right _ List.mem_cons_self, rfl⟩

/-- After a change at one address the other configs own what they owned. -/
theorem Owns.of_set (h : Owns (store.set a config) b child) :
    Owns store b child ∨ b = a ∧ config.Owns child := by
  obtain ⟨owner, howner, hchild⟩ := h
  by_cases hb : a = b
  · rw [List.getElem?_set, if_pos hb] at howner
    split at howner
    · cases howner
      exact .inr ⟨hb.symm, hchild⟩
    · cases howner
  · rw [List.getElem?_set_ne hb] at howner
    exact .inl ⟨owner, howner, hchild⟩

/-- A new config owns nothing. -/
theorem Owns.of_alloc (h : Owns (store ++ [({} : NginxConfig)]) b child) : Owns store b child := by
  obtain ⟨owner, howner, hchild⟩ := h
  rw [List.getElem?_append] at howner
  split at howner
  · exact ⟨owner, howner, hchild⟩
  · rw [List.getElem?_singleton] at howner
    split at howner
    · cases howner
      obtain ⟨statement, hmem, -⟩ := hchild
      cases hmem
    · cases howner

/-- Only configs in the store own something. -/
theorem Owns.lt (h : Owns store a child) : a < store.length := by
  obtain ⟨config, hconfig, -⟩ := h
  exact (List.getElem?_eq_some_iff.mp hconfig).1

/-- A path depends only on the configs below its top. -/
theorem IsPath.congr (h : IsPath store (topmost :: stack))
    (hsame : ∀ b ∈ stack, others[b]? = store[b]?) : IsPath others (topmost :: stack) := by
  induction stack generalizing topmost with
  | nil => exact List.isChain_singleton _
  | cons below stack ih =>
    obtain ⟨hlast, hrest⟩ := List.isChain_cons_cons.mp h
    apply List.isChain_cons_cons.mpr
    constructor
    · unfold OwnsLast
      rw [hsame below List.mem_cons_self]
      exact hlast
    · exact ih hrest fun b hb => hsame b (List.mem_cons_of_mem _ hb)

/-- No config owns another config than before. -/
theorem Owned.mono (h : Owned store root) (hlength : others.length = store.length)
    (hsub : ∀ a child, Owns others a child → Owns store a child) : Owned others root := by
  refine ⟨?_, fun a child ho => ?_, h.tree.mono hsub⟩
  · rw [hlength]
    exact h.root_lt
  · rw [hlength]
    exact h.child_lt a child (hsub a child ho)

/-- A new block is owned. -/
theorem Owned.grow (h : Owned store root) (hlength : others.length = store.length + 1)
    (hgrow : ∀ b child, Owns others b child → Owns store b child ∨ b = a ∧ child = store.length) :
    Owned others root := by
  refine ⟨?_, fun b child ho => ?_, h.tree.grow (fun b ho => ?_) (fun b ho => ?_) ?_ hgrow⟩
  · rw [hlength]
    exact Nat.lt_succ_of_lt h.root_lt
  · rw [hlength]
    cases hgrow b child ho with
    | inl ho => exact Nat.lt_succ_of_lt (h.child_lt b child ho)
    | inr ho => exact ho.2 ▸ Nat.lt_succ_self _
  · exact Nat.lt_irrefl _ (h.child_lt b _ ho)
  · exact Nat.lt_irrefl _ ho.lt
  · exact Nat.ne_of_lt h.root_lt

/-! ## What an operation on the last statement does -/

/-- At an address of the store the last statement is changed unless there is none. -/
theorem modifyBack_cases (h : a < store.length) (stack : List Addr)
    (f : NginxConfigStatement → NginxConfigStatement) :
    modifyBack store (a :: stack) f = .error (.fault .backOfEmpty) ∨
      ∃ before back, store[a]? = some ⟨before ++ [back]⟩ ∧
        modifyBack store (a :: stack) f = .ok (store.set a ⟨before ++ [f back]⟩) := by
  have hconfig : store[a]? = some ⟨store[a].statements_⟩ := List.getElem?_eq_getElem h
  cases List.eq_nil_or_concat store[a].statements_ with
  | inl hnil =>
    rw [hnil] at hconfig
    exact .inl (modifyBack_nil hconfig stack f)
  | inr hsplit =>
    obtain ⟨before, back, hsplit⟩ := hsplit
    rw [hsplit, List.concat_eq_append] at hconfig
    exact .inr ⟨before, back, hconfig, modifyBack_append hconfig f⟩

/-! ## One iteration -/

/-- The top of the stack is not on it once more. -/
private theorem Tracked.top_not_mem (h : Tracked root s) (hstack : s.config_stack = a :: stack) :
    a ∉ stack := by
  have hnodup := h.nodup
  rw [hstack] at hnodup
  exact (List.nodup_cons.mp hnodup).1

/-- A change at the top of the stack by which nothing new is owned keeps what holds. -/
theorem Tracked.set (h : Tracked root s) (hstack : s.config_stack = a :: stack)
    (hsub : ∀ child, config.Owns child → Owns s.store a child) (last : TokenType) :
    Tracked root { s with store := s.store.set a config, last_token_type := last } := by
  have hnot := h.top_not_mem hstack
  refine ⟨h.counter, h.nodup, fun b hb => ?_, h.bottom, ?_, h.owned.mono List.length_set ?_⟩
  · rw [List.length_set]
    exact h.lt b hb
  · have hpath := h.path
    rw [hstack] at hpath
    change IsPath (s.store.set a config) s.config_stack
    rw [hstack]
    apply hpath.congr
    intro b hb
    apply List.getElem?_set_ne
    intro hab
    exact hnot (hab ▸ hb)
  · intro b child howns
    cases howns.of_set with
    | inl howns => exact howns
    | inr howns => exact howns.1 ▸ hsub child howns.2

/-- A statement that is opened at the top owns nothing. -/
private theorem owns_of_opened (hconfig : store[a]? = some config)
    (h : NginxConfig.Owns ⟨config.statements_ ++ [⟨[], none⟩]⟩ child) : Owns store a child := by
  obtain ⟨statement, hmem, hchild⟩ := h
  cases List.mem_append.mp hmem with
  | inl hmem => exact ⟨config, hconfig, statement, hmem, hchild⟩
  | inr hmem =>
    rw [List.mem_singleton] at hmem
    rw [hmem] at hchild
    cases hchild

/-- A word that is added to a statement changes nothing about what is owned. -/
private theorem owns_of_pushed {words : List Text}
    (hconfig : store[a]? = some ⟨before ++ [back]⟩)
    (h : NginxConfig.Owns ⟨before ++ [⟨words, back.child_block_⟩]⟩ child) : Owns store a child := by
  obtain ⟨statement, hmem, hchild⟩ := h
  cases List.mem_append.mp hmem with
  | inl hmem => exact ⟨_, hconfig, statement, List.mem_append_left _ hmem, hchild⟩
  | inr hmem =>
    rw [List.mem_singleton] at hmem
    rw [hmem] at hchild
    exact ⟨_, hconfig, back, List.mem_append_right _ List.mem_cons_self, hchild⟩

/-- The top of a stack that is not empty is a config in the store. -/
private theorem Tracked.top_lt (h : Tracked root s) (hstack : s.config_stack = a :: stack) :
    a < s.store.length := by
  apply h.lt
  rw [hstack]
  exact List.mem_cons_self

/-- A word extends the last statement at the top or finds none. -/
theorem Tracked.push (h : Tracked root s) (hstack : s.config_stack = a :: stack) (v : Text)
    (last : TokenType) :
    pushToken s.store s.config_stack v = .error (.fault .backOfEmpty) ∨
      ∃ changed, pushToken s.store s.config_stack v = .ok changed ∧
        Tracked root { s with store := changed, last_token_type := last } := by
  have hcases := modifyBack_cases (h.top_lt hstack) stack fun back =>
    { back with tokens_ := back.tokens_ ++ [v] }
  rw [← hstack] at hcases
  cases hcases with
  | inl hfault => exact .inl hfault
  | inr hpush =>
    obtain ⟨before, back, hconfig, hpush⟩ := hpush
    exact .inr ⟨_, hpush, h.set hstack (fun child => owns_of_pushed hconfig) last⟩

/-- A statement can be opened at the top. -/
theorem Tracked.open (h : Tracked root s) (hstack : s.config_stack = a :: stack) :
    ∃ opened, emplaceBack s.store s.config_stack = .ok opened ∧
      Tracked root { s with store := opened } := by
  have hconfig := List.getElem?_eq_getElem (h.top_lt hstack)
  have hopen := emplaceBack_eq hconfig stack
  rw [← hstack] at hopen
  exact ⟨_, hopen, h.set hstack (fun child => owns_of_opened hconfig) s.last_token_type⟩

/-- After the reset of the last statement the new block is owned by it. -/
private theorem owns_of_reset (hconfig : (store ++ [({} : NginxConfig)])[a]? =
      some ⟨before ++ [back]⟩)
    (h : Owns ((store ++ [({} : NginxConfig)]).set a
      ⟨before ++ [{ back with child_block_ := some store.length }]⟩) b child) :
    Owns store b child ∨ b = a ∧ child = store.length := by
  cases h.of_set with
  | inl h => exact .inl h.of_alloc
  | inr h =>
    obtain ⟨hb, statement, hmem, hchild⟩ := h
    cases List.mem_append.mp hmem with
    | inl hmem =>
      have howns : Owns (store ++ [({} : NginxConfig)]) a child :=
        ⟨_, hconfig, statement, List.mem_append_left _ hmem, hchild⟩
      exact .inl (hb ▸ howns.of_alloc)
    | inr hmem =>
      rw [List.mem_singleton] at hmem
      rw [hmem] at hchild
      exact .inr ⟨hb, (Option.some.inj hchild).symm⟩

/-- A new block becomes that of the last statement at the top and the new top, or there is no
statement. -/
theorem Tracked.reset (h : Tracked root s) (hstack : s.config_stack = a :: stack)
    (last : TokenType) :
    resetChildBlock (s.store ++ [({} : NginxConfig)]) s.config_stack s.store.length =
        .error (.fault .backOfEmpty) ∨
      ∃ changed, resetChildBlock (s.store ++ [({} : NginxConfig)]) s.config_stack s.store.length =
          .ok changed ∧
        Tracked root { s with
          store := changed, config_stack := s.store.length :: s.config_stack,
          last_token_type := last, bracketCtr := s.bracketCtr + 1 } := by
  have hlt := h.top_lt hstack
  have hgrown : a < (s.store ++ [({} : NginxConfig)]).length := by
    rw [List.length_append]
    exact Nat.lt_succ_of_lt hlt
  have hnot := h.top_not_mem hstack
  have hcases := modifyBack_cases hgrown stack fun back =>
    { back with child_block_ := some s.store.length }
  rw [← hstack] at hcases
  cases hcases with
  | inl hfault => exact .inl hfault
  | inr hreset =>
    obtain ⟨before, back, hconfig, hreset⟩ := hreset
    refine .inr ⟨_, hreset, ?_⟩
    have hlength : ((s.store ++ [({} : NginxConfig)]).set a
        ⟨before ++ [{ back with child_block_ := some s.store.length }]⟩).length =
          s.store.length + 1 := by
      rw [List.length_set, List.length_append]
      rfl
    constructor
    · change ((s.store.length :: s.config_stack).length : ℤ) = s.bracketCtr + 1 + 1
      rw [← h.counter]
      rfl
    · exact List.nodup_cons.mpr ⟨fun hmem => Nat.lt_irrefl _ (h.lt _ hmem), h.nodup⟩
    · intro b hb
      rw [hlength]
      cases List.mem_cons.mp hb with
      | inl hb => exact hb ▸ Nat.lt_succ_self _
      | inr hb => exact Nat.lt_succ_of_lt (h.lt b hb)
    · intro _
      have hbottom := h.bottom (by rw [hstack]; exact List.cons_ne_nil _ _)
      change (s.store.length :: s.config_stack).getLast? = some root
      rw [List.getLast?_cons, hbottom]
      rfl
    · have hpath := h.path
      change IsPath _ (s.store.length :: s.config_stack)
      rw [hstack] at hpath ⊢
      apply List.isChain_cons_cons.mpr
      constructor
      · exact ⟨before, back.tokens_, List.getElem?_set_self hgrown⟩
      · apply hpath.congr
        intro b hb
        have hb' : b < s.store.length := h.lt b (by rw [hstack]; exact List.mem_cons_of_mem _ hb)
        have hne : a ≠ b := fun hab => hnot (hab ▸ hb)
        rw [List.getElem?_set_ne hne, List.getElem?_append_left hb']
    · exact h.owned.grow hlength fun b child howns => owns_of_reset hconfig howns

/-- A block that has ended leaves the stack. -/
theorem Tracked.pop (h : Tracked root s) (hstack : s.config_stack = a :: stack)
    (last : TokenType) :
    Tracked root { s with
      config_stack := stack, last_token_type := last, bracketCtr := s.bracketCtr - 1 } := by
  have hcounter := h.counter
  have hnodup := h.nodup
  have hbottom := h.bottom
  have hpath := h.path
  rw [hstack] at hcounter hnodup hbottom hpath
  refine ⟨?_, (List.nodup_cons.mp hnodup).2, fun b hb => ?_, fun hne => ?_, hpath.tail, h.owned⟩
  · rw [List.length_cons] at hcounter
    push_cast at hcounter
    change (stack.length : ℤ) = s.bracketCtr - 1 + 1
    omega
  · apply h.lt
    rw [hstack]
    exact List.mem_cons_of_mem _ hb
  · cases stack with
    | nil => exact absurd rfl hne
    | cons below stack =>
      rw [List.getLast?_cons_cons] at hbottom
      exact hbottom (List.cons_ne_nil _ _)

/-- Where the stack is not empty, a token keeps what holds, ends the loop or finds no statement. -/
theorem Tracked.outcome {v : Text} {token_type : TokenType} {result : Run Iteration}
    (h : Tracked root s) (hstack : s.config_stack = a :: stack)
    (houtcome : Outcome s v token_type result) :
    result = .error (.fault .backOfEmpty) ∨ (∃ verdict, result = .ok (.done verdict s.store)) ∨
      ∃ t, result = .ok (.next t) ∧ Tracked root t := by
  cases houtcome with
  | done verdict => exact .inr (.inl ⟨verdict, rfl⟩)
  | kept => exact .inr (.inr ⟨_, rfl, h.counter, h.nodup, h.lt, h.bottom, h.path, h.owned⟩)
  | opened =>
    obtain ⟨opened, hopen, hopened⟩ := h.open hstack
    rw [hopen]
    cases hopened.push hstack v .normal with
    | inl hfault =>
      left
      rw [run_ok_bind, hfault]
      rfl
    | inr hpush =>
      obtain ⟨changed, hpush, hchanged⟩ := hpush
      rw [run_ok_bind, hpush]
      exact .inr (.inr ⟨_, rfl, hchanged⟩)
  | extended =>
    cases h.push hstack v token_type with
    | inl hfault =>
      left
      rw [hfault]
      rfl
    | inr hpush =>
      obtain ⟨changed, hpush, hchanged⟩ := hpush
      rw [hpush]
      exact .inr (.inr ⟨_, rfl, hchanged⟩)
  | entered =>
    cases h.reset hstack .startBlock with
    | inl hfault =>
      left
      rw [hfault]
      rfl
    | inr hreset =>
      obtain ⟨changed, hreset, hchanged⟩ := hreset
      rw [hreset]
      exact .inr (.inr ⟨_, rfl, hchanged⟩)
  | left hleft => exact .inr (.inr ⟨_, rfl, h.pop hleft .endBlock⟩)
  | popped hempty =>
    rw [hstack] at hempty
    cases hempty

/-- While no bracket too many was closed the stack is not empty. -/
theorem Tracked.exists_top (h : Tracked root s) (hcounter : 0 ≤ s.bracketCtr) :
    ∃ a stack, s.config_stack = a :: stack := by
  have hlength := h.counter
  cases hstack : s.config_stack with
  | nil =>
    rw [hstack, List.length_nil] at hlength
    push_cast at hlength
    omega
  | cons a stack => exact ⟨a, stack, rfl⟩

/-- Once a bracket too many was closed the loop ends. -/
theorem parseStep_of_neg (hcounter : s.bracketCtr < 0) : parseStep s = .ok (.done false s.store) := by
  rw [parseStep, if_pos hcounter]
  rfl

/-- An iteration keeps what holds, leaves the loop or finds no statement. -/
theorem Tracked.step (h : Tracked root s) :
    parseStep s = .error (.fault .backOfEmpty) ∨
      (∃ verdict, parseStep s = .ok (.done verdict s.store)) ∨
        ∃ t, parseStep s = .ok (.next t) ∧ Tracked root t := by
  by_cases hcounter : s.bracketCtr < 0
  · exact .inr (.inl ⟨false, parseStep_of_neg hcounter⟩)
  · obtain ⟨token_type, v, file, htoken⟩ := exists_parseToken s.config_file
    obtain ⟨a, stack, hstack⟩ := h.exists_top (Int.not_lt.mp hcounter)
    rw [parseStep_eq hcounter htoken]
    have hfile : Tracked root { s with config_file := file } :=
      ⟨h.counter, h.nodup, h.lt, h.bottom, h.path, h.owned⟩
    exact hfile.outcome hstack (outcome_onToken _ token_type v)

/-! ## A run of the parser -/

/-- What holds is kept by any number of iterations. -/
theorem Tracked.iterates (h : Tracked root s) (hrun : Iterates n s t) : Tracked root t := by
  induction hrun with
  | zero s => exact h
  | succ hstep hrest ih =>
    apply ih
    cases h.step with
    | inl hfault => cases hfault.symm.trans hstep
    | inr hresult =>
      cases hresult with
      | inl hdone =>
        obtain ⟨verdict, hdone⟩ := hdone
        cases hdone.symm.trans hstep
      | inr hnext =>
        obtain ⟨next, hnext, htracked⟩ := hnext
        cases hnext.symm.trans hstep
        exact htracked

/-- At the start only the config of the caller is on the stack. -/
theorem Owned.tracked (h : Owned store root) (config_file : IStream) :
    Tracked root { config_file, store, config_stack := [root] } := by
  have hnodup : [root].Nodup := List.nodup_cons.mpr ⟨List.not_mem_nil, List.nodup_nil⟩
  refine ⟨rfl, hnodup, fun a ha => ?_, fun _ => rfl, List.isChain_singleton _, h⟩
  rw [List.mem_singleton] at ha
  exact ha ▸ h.root_lt

/-- Between two iterations the stack is a live path, unless a bracket too many was closed. -/
theorem Tracked.livePath (h : Tracked root s) (hcounter : 0 ≤ s.bracketCtr) : LivePath root s := by
  obtain ⟨a, stack, hstack⟩ := h.exists_top hcounter
  have hbottom := h.bottom (by rw [hstack]; exact List.cons_ne_nil _ _)
  have howners : s.config_stack.IsChain fun above below => Owns s.store below above :=
    h.path.imp fun above below hlast => hlast.owns
  refine ⟨h.counter, hbottom, h.path, fun b hb => ⟨h.lt b hb, ?_⟩, fun top htop b hb hdestroyed => ?_⟩
  · rw [hstack] at howners hbottom hb
    exact (between_of_path howners hbottom hb).1
  · obtain ⟨child, hlast, hbelow⟩ := hdestroyed
    rw [hstack] at howners hbottom hb htop
    cases htop
    exact h.owned.tree.not_mem_path howners hbottom hlast.owns hbelow hb

/-- One bracket is opened in an iteration at most. -/
private theorem parseStep_counter (h : parseStep s = .ok (.next t)) :
    t.bracketCtr ≤ s.bracketCtr + 1 := by
  by_cases hcounter : s.bracketCtr < 0
  · rw [parseStep_of_neg hcounter] at h
    cases h
  · obtain ⟨token_type, v, file, htoken⟩ := exists_parseToken s.config_file
    rw [parseStep_eq hcounter htoken] at h
    have houtcome := outcome_onToken { s with config_file := file } token_type v
    rw [h] at houtcome
    exact houtcome.next.2.2

/-- As many brackets are open as there were iterations, at most. -/
theorem Iterates.counter (h : Iterates n s t) : t.bracketCtr ≤ s.bracketCtr + n := by
  induction h with
  | zero s => omega
  | succ hstep hrest ih =>
    have hless := parseStep_counter hstep
    push_cast
    omega

/-- In every run of the parser on a config whose blocks form a tree, the stack is a live path
before each iteration, unless a bracket too many was closed, which ends the loop; the only
operation that can fail is the use of the last statement of a block without one; and the counter
stays between minus one and the number of bytes. -/
theorem config_stack_live {config_file : IStream} {config : Addr} (howned : Owned store config)
    (hrun : Iterates n { config_file, store, config_stack := [config] } s) :
    (0 ≤ s.bracketCtr → LivePath config s) ∧
      (s.bracketCtr < 0 → parseStep s = .ok (.done false s.store)) ∧
      (∀ e, parseStep s = .error e → e = .fault .backOfEmpty) ∧
      -1 ≤ s.bracketCtr ∧ s.bracketCtr ≤ config_file.rest.length := by
  have htracked := (howned.tracked config_file).iterates hrun
  refine ⟨htracked.livePath, parseStep_of_neg, fun e herror => ?_, ?_, ?_⟩
  · cases htracked.step with
    | inl hfault => exact Except.error.inj (herror.symm.trans hfault)
    | inr hresult =>
      cases hresult with
      | inl hdone =>
        obtain ⟨verdict, hdone⟩ := hdone
        cases hdone.symm.trans herror
      | inr hnext =>
        obtain ⟨next, hnext, -⟩ := hnext
        cases hnext.symm.trans herror
  · have hlength := htracked.counter
    omega
  · have hcounter : s.bracketCtr ≤ 0 + n := hrun.counter
    have hle : n + s.config_file.rest.length ≤ config_file.rest.length := hrun.le
    omega

/-- An empty config owns nothing. -/
theorem owned_empty : Owned [{}] 0 := by
  have hnone : ∀ a child, ¬ Owns [{}] a child := by
    intro a child h
    have hempty : Owns ([] ++ [({} : NginxConfig)]) a child := h
    exact Nat.not_lt_zero _ hempty.of_alloc.lt
  refine ⟨Nat.one_pos, fun a child h => absurd h (hnone a child),
    fun a b child h => absurd h (hnone a child), fun hcycle => ?_⟩
  obtain ⟨child, hfirst, -⟩ := TransGen.head'_iff.mp hcycle
  exact hnone 0 child hfirst

/-- The stack behind an open bracket. -/
theorem config_stack_live_enter :
    LivePath 0 {
      config_file := ⟨(text "ab \x7b").reverse, text "c;\x7d", false, false, false⟩
      store := [⟨[⟨[text "ab"], some 1⟩]⟩, {}]
      config_stack := [1, 0]
      last_token_type := .startBlock
      bracketCtr := 1 } := by
  have hrun : Iterates 2
      { config_file := .ofText (text "ab \x7bc;\x7d"), store := [{}], config_stack := [0] } _ :=
    .succ rfl (.succ rfl (.zero _))
  exact (config_stack_live owned_empty hrun).1 (by decide)

end Aite.Config
