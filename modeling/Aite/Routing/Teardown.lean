import Aite.Lib.Histogram
import Aite.Routing.LongestLocation
import Aite.Server.StatusPage

/-!
# Deleting the handlers

When the server ends, it deletes the handlers that its map of locations leads to, in the order of
the map, by pointers to their base class. The base class has virtual functions but no virtual
destructor, so the first of these deletions is undefined. That is all that is wrong with the loop:
each handler in the map exists and is there once. What the map does not lead to are the handlers
whose location was registered again: it has forgotten them.
-/

namespace Aite.Routing

open BlockGrammar Handlers KeyedList

/-- The base class of the handlers declares no destructor. -/
def RequestHandler.virtualDestructor : Bool := false

/-- `delete ptr`, of an object that exists and whose class is derived from that of the pointer. -/
def delete (virtualDestructor : Bool) (heap : List (Option Handler)) (ptr : HandlerPtr) :
    Run (List (Option Handler)) :=
  match heap[ptr]? with
  | some (some _) =>
    if virtualDestructor then .ok (heap.set ptr none) else .error (.fault .destructorNotVirtual)
  | _ => .error (.fault .dangling)

/-- The addresses in the order in which the map of locations is iterated. -/
def Registry.addresses (r : Registry) : List HandlerPtr :=
  (sortedByKey (fun s t => precedes s t = true) r.locationToHandler).map Prod.snd

/-- The loop of the destructor over the locations, by the destructor of the base class. -/
def Registry.destroyBy (virtualDestructor : Bool) (r : Registry) : Run (List (Option Handler)) :=
  r.addresses.foldlM (delete virtualDestructor) (r.handlers.map some)

/-- The loop of the destructor over the locations. -/
def Registry.destroy (r : Registry) : Run (List (Option Handler)) :=
  r.destroyBy RequestHandler.virtualDestructor

variable {fs : FileSystem} {cwd : Text} {config : Block Text} {r r' : Registry}

/-! ## Deleting -/

/-- With a virtual destructor, different objects that exist can be deleted one after the other. -/
private theorem foldlM_delete {ptrs : List HandlerPtr} (heap : List (Option Handler))
    (hnodup : ptrs.Nodup) (hlive : ∀ ptr ∈ ptrs, ∃ handler, heap[ptr]? = some (some handler)) :
    ∃ heap', ptrs.foldlM (delete true) heap = .ok heap' ∧
      ∀ i, heap'[i]? = if i ∈ ptrs then some none else heap[i]? := by
  induction ptrs generalizing heap with
  | nil => exact ⟨heap, rfl, fun i => rfl⟩
  | cons ptr ptrs ih =>
    obtain ⟨hnotMem, hnodup⟩ := List.nodup_cons.mp hnodup
    obtain ⟨⟨handler, hhandler⟩, hlive⟩ := List.forall_mem_cons.mp hlive
    have hlt : ptr < heap.length := (List.getElem?_eq_some_iff.mp hhandler).1
    have hkept (i : ℕ) (hi : i ≠ ptr) : (heap.set ptr none)[i]? = heap[i]? :=
      List.getElem?_set_ne (Ne.symm hi)
    obtain ⟨heap', hfold, hheap'⟩ := ih (heap.set ptr none) hnodup (by
      intro other hother
      obtain ⟨h, hh⟩ := hlive other hother
      exact ⟨h, (hkept other fun heq => hnotMem (heq ▸ hother)).trans hh⟩)
    refine ⟨heap', ?_, ?_⟩
    · rw [List.foldlM_cons, delete, hhandler]
      dsimp only
      rw [if_pos rfl, run_ok_bind]
      exact hfold
    · intro i
      rw [hheap' i]
      by_cases hi : i = ptr
      · subst hi
        rw [if_neg hnotMem, if_pos List.mem_cons_self, List.getElem?_set_self hlt]
      · rw [hkept i hi]
        simp only [List.mem_cons, hi, false_or]

/-- Without one, only nothing can be deleted. -/
private theorem foldlM_delete_isOk_iff {ptrs : List HandlerPtr} {heap : List (Option Handler)} :
    (∃ heap', ptrs.foldlM (delete false) heap = .ok heap') ↔ ptrs = [] := by
  cases ptrs with
  | nil => exact ⟨fun _ => rfl, fun _ => ⟨heap, rfl⟩⟩
  | cons ptr ptrs =>
    refine ⟨?_, fun h => by cases h⟩
    rintro ⟨heap', hfold⟩
    rw [List.foldlM_cons, delete] at hfold
    split at hfold <;> cases hfold

/-! ## The map of locations -/

/-- Registering statements keeps the locations different. -/
private theorem nodup_locations_foldlM {statements : List LocationStatement}
    (hstart : (r.locationToHandler.map Prod.fst).Nodup)
    (htypes : ∀ d ∈ statements, d.type ∈ handlerTypes)
    (hscan : statements.foldlM (register fs) r = .ok r') :
    (r'.locationToHandler.map Prod.fst).Nodup := by
  induction statements generalizing r with
  | nil =>
    obtain rfl := Except.ok.inj hscan
    exact hstart
  | cons d statements ih =>
    rw [List.foldlM_cons] at hscan
    obtain ⟨next, hregister, hscan⟩ := run_bind_eq_ok.mp hscan
    obtain ⟨hd, hrest⟩ := List.forall_mem_cons.mp htypes
    obtain ⟨loc, handler, -, -, rfl⟩ := register_cases hregister hd
    exact ih (nodup_keys_alter loc _ hstart) hrest hscan

/-- A location is registered once. -/
private theorem nodup_locations (hconfig : getHandlers fs config { cwd } = .ok r) :
    (r.locationToHandler.map Prod.fst).Nodup := by
  rw [getHandlers_eq] at hconfig
  refine nodup_locations_foldlM ?_ (fun _ => type_mem_of_mem_locationStatements) hconfig
  exact List.nodup_nil

/-- An address in the map is that of the last statement for its location. -/
private theorem mem_addresses_iff (hconfig : getHandlers fs config { cwd } = .ok r) {i : ℕ} :
    i ∈ r.addresses ↔ ∃ loc, IsAt cwd (locationStatements config) i loc ∧
      ∀ j, IsAt cwd (locationStatements config) j loc → j ≤ i := by
  have hkeys := nodup_locations hconfig
  obtain ⟨hholds, rfl⟩ := holds_of_getHandlers hconfig
  rw [Registry.addresses, ((sortedByKey_perm _ _).map Prod.snd).mem_iff, List.mem_map]
  constructor
  · rintro ⟨⟨loc, ptr⟩, hentry, rfl⟩
    exact ⟨loc, hholds.located loc ptr ((lookup_eq_some_iff hkeys).mpr hentry)⟩
  · rintro ⟨loc, hat, hlast⟩
    obtain ⟨ptr, hptr⟩ := Option.ne_none_iff_exists'.mp (hholds.registered loc i hat)
    obtain ⟨hat', hlast'⟩ := hholds.located loc ptr hptr
    have hsame : ptr = i := le_antisymm (hlast ptr hat') (hlast' i hat)
    exact ⟨(loc, ptr), (lookup_eq_some_iff hkeys).mp hptr, hsame⟩

/-- No address is in the map twice. -/
private theorem addresses_nodup (hconfig : getHandlers fs config { cwd } = .ok r) :
    r.addresses.Nodup := by
  have hkeys := nodup_locations hconfig
  obtain ⟨hholds, rfl⟩ := holds_of_getHandlers hconfig
  rw [Registry.addresses, ((sortedByKey_perm _ _).map Prod.snd).nodup_iff]
  refine hkeys.of_map.map_on ?_
  intro entry hentry other hother hsame
  obtain ⟨⟨d, hd, hloc⟩, -⟩ := hholds.located _ _ ((lookup_eq_some_iff hkeys).mpr hentry)
  obtain ⟨⟨d', hd', hloc'⟩, -⟩ := hholds.located _ _ ((lookup_eq_some_iff hkeys).mpr hother)
  rw [← hsame, hd] at hd'
  obtain rfl := Option.some.inj hd'
  exact Prod.ext (Except.ok.inj (hloc.symm.trans hloc')) hsame

/-- No address is in the map exactly when no location was registered. -/
private theorem addresses_eq_nil_iff (hconfig : getHandlers fs config { cwd } = .ok r) :
    r.addresses = [] ↔ locationStatements config = [] := by
  constructor
  · intro haddresses
    obtain ⟨hholds, rfl⟩ := holds_of_getHandlers hconfig
    by_contra hne
    obtain ⟨d, hd⟩ : ∃ d, (locationStatements config)[0]? = some d :=
      ⟨_, List.getElem?_eq_getElem (List.length_pos_iff.mpr hne)⟩
    obtain ⟨handler, hhandler, loc, hloc, -⟩ := hholds.exists_handler hd
    obtain ⟨ptr, hptr⟩ := Option.ne_none_iff_exists'.mp (hholds.registered loc 0 ⟨d, hd, hloc⟩)
    obtain ⟨hat, hlast⟩ := hholds.located loc ptr hptr
    have hmem := (mem_addresses_iff hconfig (i := ptr)).mpr ⟨loc, hat, hlast⟩
    rw [haddresses] at hmem
    cases hmem
  · intro hnone
    rw [List.eq_nil_iff_forall_not_mem]
    intro i hi
    obtain ⟨loc, ⟨d, hd, -⟩, -⟩ := (mem_addresses_iff hconfig).mp hi
    rw [hnone] at hd
    cases hd

/-- With a virtual destructor, the loop would delete handlers that exist, each of them once. The
handlers that it would leave are those whose location, in its normal form, a later statement of the
config has registered again. -/
private theorem destroyBy_config (hconfig : getHandlers fs config { cwd } = .ok r) :
    ∃ heap, r.destroyBy true = .ok heap ∧ ∀ i handler, heap[i]? = some (some handler) ↔
      r.handlers[i]? = some handler ∧ ∃ j loc, i < j ∧
        IsAt cwd (locationStatements config) i loc ∧ IsAt cwd (locationStatements config) j loc := by
  have hiff {i : ℕ} := mem_addresses_iff hconfig (i := i)
  have hnodup := addresses_nodup hconfig
  obtain ⟨hholds, rfl⟩ := holds_of_getHandlers hconfig
  have hexists {i : ℕ} {loc : Text} (hat : IsAt r.cwd (locationStatements config) i loc) :
      ∃ handler, r.handlers[i]? = some handler := by
    obtain ⟨d, hd, -⟩ := hat
    obtain ⟨handler, hhandler, -⟩ := hholds.exists_handler hd
    exact ⟨handler, hhandler⟩
  obtain ⟨heap, hdestroy, hheap⟩ := foldlM_delete (r.handlers.map some) hnodup (by
    intro ptr hptr
    obtain ⟨loc, hat, -⟩ := hiff.mp hptr
    obtain ⟨handler, hhandler⟩ := hexists hat
    exact ⟨handler, by rw [List.getElem?_map, hhandler, Option.map_some]⟩)
  refine ⟨heap, hdestroy, ?_⟩
  intro i handler
  rw [hheap i]
  by_cases hi : i ∈ r.addresses
  · rw [if_pos hi]
    obtain ⟨loc, ⟨d, hd, hloc⟩, hlast⟩ := hiff.mp hi
    constructor
    · rintro ⟨⟩
    · rintro ⟨-, j, other, hlt, ⟨d', hd', hother⟩, hj⟩
      obtain rfl := Option.some.inj (hd.symm.trans hd')
      obtain rfl := Except.ok.inj (hloc.symm.trans hother)
      exact absurd (hlast j hj) (Nat.not_le.mpr hlt)
  · rw [if_neg hi, List.getElem?_map, Option.map_eq_some_iff]
    simp only [Option.some.injEq, exists_eq_right]
    refine ⟨fun hhandler => ⟨hhandler, ?_⟩, fun h => h.1⟩
    -- the object was created from a statement, which is not the last one for its location
    have hlt : i < r.handlers.length := (List.getElem?_eq_some_iff.mp hhandler).1
    rw [hholds.built.length_eq] at hlt
    obtain ⟨built, hbuilt, loc, hloc, -⟩ :=
      hholds.exists_handler (List.getElem?_eq_getElem hlt)
    have hat : IsAt r.cwd (locationStatements config) i loc :=
      ⟨_, List.getElem?_eq_getElem hlt, hloc⟩
    by_contra hnone
    refine hi (hiff.mpr ⟨loc, hat, ?_⟩)
    intro j hj
    by_contra hgt
    exact hnone ⟨j, loc, Nat.not_le.mp hgt, hat, hj⟩

/-- The destructor of a server that was made from a config is defined exactly when the config
registers no location, for want of a virtual destructor. With one, it would delete handlers that
exist, each of them once, and leave those whose location, in its normal form, a later statement of
the config has registered again. -/
theorem destroy_config (hconfig : getHandlers fs config { cwd } = .ok r) :
    ((∃ heap, r.destroy = .ok heap) ↔ locationStatements config = []) ∧
      ∃ heap, r.destroyBy true = .ok heap ∧ ∀ i handler, heap[i]? = some (some handler) ↔
        r.handlers[i]? = some handler ∧ ∃ j loc, i < j ∧
          IsAt cwd (locationStatements config) i loc ∧
            IsAt cwd (locationStatements config) j loc :=
  ⟨foldlM_delete_isOk_iff.trans (addresses_eq_nil_iff hconfig), destroyBy_config hconfig⟩

/-- A location in two spellings: the destructor is undefined, and would leave the first handler. -/
theorem destroy_config_twoSpellings : ∃ r heap,
    getHandlers ⟨fun _ => false, fun _ => none⟩ twoSpellings {} = .ok r ∧
      (¬ ∃ left, r.destroy = .ok left) ∧ r.destroyBy true = .ok heap ∧
        heap[0]? = some (some .echo) := by
  have hleft (r : Registry)
      (hconfig : getHandlers ⟨fun _ => false, fun _ => none⟩ twoSpellings {} = .ok r)
      (hecho : r.handlers[0]? = some .echo) :
      ∃ heap, (¬ ∃ left, r.destroy = .ok left) ∧ r.destroyBy true = .ok heap ∧
        heap[0]? = some (some .echo) := by
    obtain ⟨hdefined, heap, hdestroy, hiff⟩ := destroy_config hconfig
    refine ⟨heap, fun hok => ?_, hdestroy, (hiff 0 .echo).mpr
      ⟨hecho, 1, text "/echo", Nat.one_pos, ⟨_, rfl, rfl⟩, ⟨_, rfl, rfl⟩⟩⟩
    cases hdefined.mp hok
  obtain ⟨heap, hheap⟩ := hleft _ rfl rfl
  exact ⟨_, heap, rfl, hheap⟩

end Aite.Routing
