import Aite.Handlers.ReverseProxy
import Aite.Routing.LongestLocation
import Mathlib.Data.List.DropRight

/-!
# The target that the proxy forwards

The router matches the normalised target, and the proxy cuts as many bytes off the target as it
came as the normalised location has. What is left means the same below the location as it did
in the target when the bytes that are cut off lead to the location, up to components that the
rest climbs out of.
-/

namespace Aite.Handlers

open BlockGrammar Http Routing

/-- One more component: the levels climbed out of, and the components added below. -/
def climbStep (climbed : ℕ × List Text) (dir : Text) : ℕ × List Text :=
  if dir = text ".." then
    if climbed.2 = [] then (climbed.1 + 1, []) else (climbed.1, climbed.2.dropLast)
  else if dir = text "." ∨ dir = [] then climbed
  else (climbed.1, climbed.2 ++ [dir])

/-- Where a relative path leads: how many levels up, and to which components below. -/
def climb (path : Text) : ℕ × List Text := (path.splitOn '/'.toUInt8).foldl climbStep (0, [])

/-- The components that a path leads to from the working directory, quotes being bytes. -/
def leadsTo (cwd path : Text) : List Text :=
  ((systemComplete cwd path).splitOn '/'.toUInt8).foldl resolve []

/-- The target is cut where its location ends: the rest is empty or begins with a slash, it does
not climb out of the root, and without as many components as the rest climbs up, the bytes that
are cut off lead where the location does. Within quotes, which the router removes and the cut
does not, the bytes up to the cut and the rest without the closing quote have to lead where the
location and the rest with this quote do. -/
structure CutsAtLocation (cwd location target : Text) : Prop where
  long : location.length ≤ target.length
  slash : target.drop location.length = [] ∨
    (target.drop location.length).head? = some '/'.toUInt8
  climbs : (climb (target.drop location.length)).1 ≤ (normalComponents cwd location).length
  agrees : stripQuotes target = target →
    (leadsTo cwd (target.take location.length)).rdrop (climb (target.drop location.length)).1 =
      (normalComponents cwd location).rdrop (climb (target.drop location.length)).1
  quoted : stripQuotes target ≠ target →
    (leadsTo cwd ((stripQuotes target).take (location.length - 1))).rdrop
        (climb ((stripQuotes target).drop (location.length - 1))).1 ++
          (climb ((stripQuotes target).drop (location.length - 1))).2 =
      (normalComponents cwd location).rdrop (climb (target.drop location.length)).1 ++
        (climb (target.drop location.length)).2

/-- The forwarded target begins with a slash, and behind the location it normalises to the same
path as the target. -/
def ForwardsRoutedPath (cwd : Text) (h : ReverseProxyRequestHandler) (target : Text) : Prop :=
  ∃ forwarded n, h.forwardedTarget target = .ok forwarded ∧
    forwarded.head? = some '/'.toUInt8 ∧ convertToAbsolutePath cwd target = .ok n ∧
      convertToAbsolutePath cwd (h.location ++ forwarded) = .ok n

/-! ## Climbing -/

/-- Resolving components in order climbs up and adds below. -/
theorem foldlM_addComponent_eq (dirs start : List Text) :
    dirs.foldlM addComponent start =
      if (dirs.foldl climbStep (0, [])).1 ≤ start.length then
        .ok (start.rdrop (dirs.foldl climbStep (0, [])).1 ++ (dirs.foldl climbStep (0, [])).2)
      else .error (.fault .popBackOfEmpty) := by
  induction dirs using List.reverseRecOn with
  | nil =>
    rw [List.foldl_nil, if_pos (Nat.zero_le _), List.rdrop_zero, List.append_nil]
    rfl
  | append_singleton dirs dir ih =>
    rw [List.foldlM_append, ih, List.foldl_append, List.foldl_cons, List.foldl_nil]
    obtain ⟨k, below⟩ := dirs.foldl climbStep (0, [])
    simp only [climbStep]
    by_cases hk : k ≤ start.length
    · rw [if_pos hk, run_ok_bind, List.foldlM_cons]
      simp only [List.foldlM_nil, bind_pure, addComponent]
      by_cases hup : dir = text ".."
      · rw [if_pos hup, if_pos hup]
        by_cases hbelow : below = []
        · rw [if_pos hbelow, hbelow, List.append_nil]
          have hempty : start.rdrop k = [] ↔ ¬ k + 1 ≤ start.length := by
            rw [← List.length_eq_zero_iff, List.rdrop, List.length_take]
            omega
          by_cases hmore : k + 1 ≤ start.length
          · have hdrop : (start.rdrop k).dropLast = start.rdrop (k + 1) := by
              rw [List.rdrop, List.rdrop, List.dropLast_eq_take, List.length_take, List.take_take]
              congr 1
              omega
            rw [if_neg (fun hnil => hempty.mp hnil hmore), if_pos hmore, hdrop, List.append_nil]
          · rw [if_pos (hempty.mpr hmore), if_neg hmore]
        · rw [if_neg hbelow, if_neg (fun hnil => hbelow (List.append_eq_nil_iff.mp hnil).2),
            if_pos hk, List.dropLast_append_of_ne_nil hbelow]
      · rw [if_neg hup, if_neg hup]
        split_ifs
        · rfl
        · rw [List.append_assoc]
    · have hmore : ¬ k + 1 ≤ start.length := by omega
      rw [if_neg hk, run_error_bind]
      split_ifs <;> rfl

/-- What is added below has no slashes. -/
theorem slash_notMem_climb {path dir : Text} (h : dir ∈ (climb path).2) : '/'.toUInt8 ∉ dir := by
  have hdirs (dirs : List Text) : (dirs.foldl climbStep (0, [])).2 ⊆ dirs := by
    induction dirs using List.reverseRecOn with
    | nil => exact List.Subset.refl _
    | append_singleton dirs last ih =>
      rw [List.foldl_append, List.foldl_cons, List.foldl_nil, climbStep]
      intro c hc
      rw [List.mem_append, List.mem_singleton]
      split_ifs at hc
      · exact absurd hc List.not_mem_nil
      · exact Or.inl (ih ((List.dropLast_sublist _).subset hc))
      · exact Or.inl (ih hc)
      · rw [List.mem_append, List.mem_singleton] at hc
        exact hc.imp_left fun hc => ih hc
  exact slash_notMem_of_mem_splitOn (hdirs _ h)

/-- Where a rest leads to has no slashes in its components. -/
private theorem slash_notMem_climbed {dirs : List Text} (hdirs : ∀ c ∈ dirs, IsComponent c)
    (rest : Text) : ∀ c ∈ dirs.rdrop (climb rest).1 ++ (climb rest).2, '/'.toUInt8 ∉ c := by
  intro c hc
  rw [List.mem_append] at hc
  cases hc with
  | inl hc => exact (hdirs c (List.mem_of_mem_take hc)).1
  | inr hc => exact slash_notMem_climb hc

/-- The paths that a rest leads to from two directories are the same when the directories are,
up to what the rest climbs out of. -/
theorem joinComponents_climb_iff {dirs others : List Text} (hdirs : ∀ c ∈ dirs, IsComponent c)
    (hothers : ∀ c ∈ others, IsComponent c) (rest : Text) :
    joinComponents (dirs.rdrop (climb rest).1 ++ (climb rest).2) =
        joinComponents (others.rdrop (climb rest).1 ++ (climb rest).2) ↔
      dirs.rdrop (climb rest).1 = others.rdrop (climb rest).1 := by
  constructor
  · intro heq
    exact List.append_cancel_right (joinComponents_injective (slash_notMem_climbed hdirs rest)
      (slash_notMem_climbed hothers rest) heq)
  · exact fun heq => by rw [heq]

/-! ## Both paths -/

/-- A normalised location leads to its own components. -/
theorem normalComponents_joinComponents (cwd : Text) {key : List Text}
    (hkey : ∀ c ∈ key, IsComponent c) : normalComponents cwd (joinComponents key) = key := by
  rw [normalComponents, components_joinComponents cwd hkey, List.foldl_cons, foldl_resolve_components hkey]
  rfl

/-- What a rest that is empty or begins with a slash is forwarded as. -/
private theorem exists_forwarded {rest : Text}
    (h : rest = [] ∨ rest.head? = some '/'.toUInt8) :
    ∃ path, (if rest = [] then text "/" else rest) = '/'.toUInt8 :: path ∧
      (path.splitOn '/'.toUInt8).foldl climbStep (0, []) = climb rest := by
  cases rest with
  | nil => exact ⟨[], rfl, rfl⟩
  | cons c path =>
    have hc : c = '/'.toUInt8 := by simpa using h
    subst hc
    refine ⟨path, if_neg (List.cons_ne_nil _ _), ?_⟩
    rw [climb, show '/'.toUInt8 :: path = [] ++ '/'.toUInt8 :: path from rfl,
      List.splitOn_append_cons_self]
    rfl

/-- Behind the location, the forwarded target climbs up from there and adds below. -/
theorem convertToAbsolutePath_forwarded (cwd : Text) {key : List Text}
    (hkey : ∀ c ∈ key, IsComponent c) {rest : Text}
    (hrest : rest = [] ∨ rest.head? = some '/'.toUInt8) :
    convertToAbsolutePath cwd (joinComponents key ++ if rest = [] then text "/" else rest) =
      if (climb rest).1 ≤ key.length then
        .ok (joinComponents (key.rdrop (climb rest).1 ++ (climb rest).2))
      else .error (.fault .popBackOfEmpty) := by
  obtain ⟨path, heq, hclimb⟩ := exists_forwarded hrest
  rw [heq, convertToAbsolutePath_joinComponents_append cwd hkey, foldlM_addComponent_eq, hclimb]
  split_ifs <;> rfl

/-- Without its quotes, the rest of a target climbs up from where the bytes before it lead, and adds
below. -/
theorem convertToAbsolutePath_unquoted {cwd target front rest n : Text}
    (hquote : stripQuotes target = front ++ rest)
    (hrest : rest = [] ∨ rest.head? = some '/'.toUInt8)
    (hn : convertToAbsolutePath cwd target = .ok n) :
    n = joinComponents ((leadsTo cwd front).rdrop (climb rest).1 ++ (climb rest).2) := by
  have hsplit : ((systemComplete cwd (front ++ rest)).splitOn '/'.toUInt8).foldlM addComponent [] =
      (do let start ← ((systemComplete cwd front).splitOn '/'.toUInt8).foldlM addComponent []
          (rest.splitOn '/'.toUInt8).foldlM addComponent start) := by
    cases rest with
    | nil =>
      rw [List.append_nil]
      cases ((systemComplete cwd front).splitOn '/'.toUInt8).foldlM addComponent [] <;> rfl
    | cons c path =>
      have hc : c = '/'.toUInt8 := by simpa using hrest
      subst hc
      have hcomplete : systemComplete cwd (front ++ '/'.toUInt8 :: path) =
          systemComplete cwd front ++ '/'.toUInt8 :: path := by
        cases front with
        | nil => rfl
        | cons c front =>
          simp only [systemComplete, List.cons_append, List.head?_cons, List.cons_ne_nil, false_or]
          split_ifs <;> simp only [List.append_assoc, List.cons_append]
      rw [hcomplete, List.splitOn_append_cons_self, List.foldlM_append,
        show '/'.toUInt8 :: path = [] ++ '/'.toUInt8 :: path from rfl,
        List.splitOn_append_cons_self]
      rfl
  rw [convertToAbsolutePath_eq, components, hquote, hsplit] at hn
  cases hstart : ((systemComplete cwd front).splitOn '/'.toUInt8).foldlM addComponent [] with
  | error e =>
    rw [hstart] at hn
    cases hn
  | ok start =>
    obtain rfl : start = leadsTo cwd front := eq_foldl_of_foldlM hstart
    rw [hstart, run_ok_bind, foldlM_addComponent_eq] at hn
    change (if (climb rest).1 ≤ _ then _ else _ : Run _).map _ = _ at hn
    split_ifs at hn
    · exact (Except.ok.inj hn).symm
    · cases hn

/-- What is left of a cut target within its quotes is empty or begins with a slash as well. -/
private theorem drop_stripQuotes_cases {target : Text} {length : ℕ}
    (hquote : stripQuotes target ≠ target)
    (hrest : target.drop length = [] ∨ (target.drop length).head? = some '/'.toUInt8) :
    (stripQuotes target).drop (length - 1) = [] ∨
      ((stripQuotes target).drop (length - 1)).head? = some '/'.toUInt8 := by
  unfold stripQuotes at hquote ⊢
  split_ifs at hquote ⊢ with hquotes
  · cases length with
    | zero =>
      rw [List.drop_zero, hquotes.1] at hrest
      cases hrest with
      | inl hnil => rw [hnil] at hquotes; cases hquotes.1
      | inr hslash => exact absurd (Option.some.inj hslash) (by decide)
    | succ length =>
      rw [Nat.add_sub_cancel, List.drop_take, List.drop_drop, Nat.add_comm]
      generalize target.length - 2 - length = count
      cases count with
      | zero => exact .inl List.take_zero
      | succ count =>
        cases hrest with
        | inl hnil => rw [hnil]; exact .inl List.take_nil
        | inr hslash => exact .inr (by rw [List.head?_take, if_neg (Nat.succ_ne_zero count), hslash])
  · exact absurd rfl hquote

/-! ## Routed targets -/

/-- A proxy is at the location for which it is constructed. -/
theorem location_of_new {loc : Text} {config : Block Text} {h : ReverseProxyRequestHandler}
    (hnew : newReverseProxyRequestHandler loc config = .ok h) : h.location = loc := by
  obtain ⟨host, -, hnew⟩ := run_bind_eq_ok.mp hnew
  obtain ⟨port, -, hnew⟩ := run_bind_eq_ok.mp hnew
  exact Except.ok.inj hnew ▸ rfl

/-- A target that is routed to a proxy normalises, and the location of the proxy is normal. -/
theorem routed_to_proxy {fs : FileSystem} {cwd : Text} {config : Block Text} {r : Registry}
    (hconfig : getHandlers fs config { cwd } = .ok r) {target : Text} {ptr : HandlerPtr}
    (hrouted : r.getRequestHandler target = .ok (some ptr)) {h : ReverseProxyRequestHandler}
    (hhandler : r.handlers[ptr]? = some (.reverseProxy h)) :
    (∃ n, convertToAbsolutePath cwd target = .ok n) ∧
      ∃ key, (∀ c ∈ key, IsComponent c) ∧ h.location = joinComponents key := by
  obtain ⟨hholds, rfl⟩ := holds_of_getHandlers hconfig
  constructor
  · exact normalises_of_routed hrouted
  · have hlength : ptr < (locationStatements config).length := by
      rw [← hholds.built.length_eq]
      exact (List.getElem?_eq_some_iff.mp hhandler).1
    obtain ⟨handler, hsome, loc, hloc, hbuilt⟩ :=
      hholds.exists_handler (List.getElem?_eq_getElem hlength)
    obtain rfl : handler = .reverseProxy h := Option.some.inj (hsome.symm.trans hhandler)
    have hnew := location_of_new (construct_cases hbuilt)
    obtain ⟨-, hnormal⟩ := convertToAbsolutePath_eq_ok_iff.mp hloc
    exact ⟨_, isComponent_normalComponents r.cwd _, hnew.trans hnormal⟩

/-- A proxy forwards the path that the router matched exactly when the target is cut where the
location ends. -/
theorem forwardsRoutedPath_iff {fs : FileSystem} {cwd : Text} {config : Block Text} {r : Registry}
    (hconfig : getHandlers fs config { cwd } = .ok r) {target : Text} {ptr : HandlerPtr}
    (hrouted : r.getRequestHandler target = .ok (some ptr)) {h : ReverseProxyRequestHandler}
    (hhandler : r.handlers[ptr]? = some (.reverseProxy h)) :
    ForwardsRoutedPath cwd h target ↔ CutsAtLocation cwd h.location target := by
  obtain ⟨⟨n, hn⟩, key, hkey, hlocation⟩ := routed_to_proxy hconfig hrouted hhandler
  have hnormal : normalComponents cwd h.location = key := by
    rw [hlocation, normalComponents_joinComponents cwd hkey]
  have hsplit : target.take h.location.length ++ target.drop h.location.length = target :=
    List.take_append_drop _ _
  have hforwarded (hrest : target.drop h.location.length = [] ∨
      (target.drop h.location.length).head? = some '/'.toUInt8) :=
    convertToAbsolutePath_forwarded cwd hkey hrest
  rw [← hlocation] at hforwarded
  have hunquoted (hrest : target.drop h.location.length = [] ∨
      (target.drop h.location.length).head? = some '/'.toUInt8)
      (hquote : stripQuotes target = target) :=
    convertToAbsolutePath_unquoted (hquote.trans hsplit.symm) hrest hn
  have hwithin (hrest : target.drop h.location.length = [] ∨
      (target.drop h.location.length).head? = some '/'.toUInt8)
      (hquote : stripQuotes target ≠ target) :=
    convertToAbsolutePath_unquoted (List.take_append_drop _ _).symm
      (drop_stripQuotes_cases hquote hrest) hn
  have hleads (front : Text) : ∀ c ∈ leadsTo cwd front, IsComponent c :=
    isComponent_foldl_resolve (fun _ h => absurd h List.not_mem_nil)
      fun _ => slash_notMem_of_mem_splitOn
  constructor
  · rintro ⟨forwarded, m, hforward, hhead, hm, hbehind⟩
    obtain rfl : n = m := Except.ok.inj (hn.symm.trans hm)
    unfold ReverseProxyRequestHandler.forwardedTarget at hforward
    split_ifs at hforward with hlong
    · obtain rfl := Except.ok.inj hforward
      have hslash : target.drop h.location.length = [] ∨
          (target.drop h.location.length).head? = some '/'.toUInt8 := by
        by_cases hnil : target.drop h.location.length = []
        · exact Or.inl hnil
        · simp only [if_neg hnil] at hhead
          exact Or.inr hhead
      rw [hforwarded hslash] at hbehind
      split_ifs at hbehind with hclimbs
      · have heq := Except.ok.inj hbehind
        refine ⟨hlong, hslash, hnormal.symm ▸ hclimbs, ?_, ?_⟩
        · intro hquote
          rw [hunquoted hslash hquote, joinComponents_climb_iff hkey (hleads _)] at heq
          rw [hnormal, heq]
        · intro hquote
          rw [hwithin hslash hquote] at heq
          rw [hnormal]
          exact (joinComponents_injective (slash_notMem_climbed hkey _)
            (slash_notMem_climbed (hleads _) _) heq).symm
  · rintro ⟨hlong, hslash, hclimbs, hagrees, hquoted⟩
    rw [hnormal] at hclimbs hagrees hquoted
    refine ⟨_, n, if_pos hlong, ?_, hn, ?_⟩
    · split_ifs with hnil
      · rfl
      · exact hslash.resolve_left hnil
    · rw [hforwarded hslash, if_pos hclimbs]
      by_cases hquote : stripQuotes target = target
      · rw [hunquoted hslash hquote, hagrees hquote]
      · rw [hwithin hslash hquote, hquoted hquote]

/-- A config with a proxy at `/proxy`. -/
def proxyConfig : Block Text :=
  oneServer
    (.nested [text "location", text "/proxy", text "ReverseProxyHandler"]
      (.simple [text "host", text "localhost"] (.simple [text "port", text "8080"] .empty)) .empty)

/-- A target that is spelled as its location is forwarded. -/
theorem forwardsRoutedPath_spelled :
    ∃ r : Registry, getHandlers ⟨fun _ => false, fun _ => none⟩ proxyConfig {} = .ok r ∧
      r.getRequestHandler (text "/proxy/x/../y") = .ok (some 0) ∧
        r.handlers[0]? = some (.reverseProxy proxyHandler) ∧
          ForwardsRoutedPath (text "/") proxyHandler (text "/proxy/x/../y") := by
  have hforwards (r : Registry)
      (hconfig : getHandlers ⟨fun _ => false, fun _ => none⟩ proxyConfig {} = .ok r)
      (hrouted : r.getRequestHandler (text "/proxy/x/../y") = .ok (some 0))
      (hhandler : r.handlers[0]? = some (.reverseProxy proxyHandler)) :
      ForwardsRoutedPath (text "/") proxyHandler (text "/proxy/x/../y") :=
    (forwardsRoutedPath_iff hconfig hrouted hhandler).mpr
      ⟨by decide, by decide, by decide, by decide, by decide⟩
  exact ⟨_, rfl, rfl, rfl, hforwards _ rfl rfl rfl⟩

/-- A target that reaches the location by another spelling is cut in the wrong place. -/
theorem not_forwardsRoutedPath_dot :
    ¬ ∀ (config : Block Text) (r : Registry) (target : Text) (ptr : HandlerPtr)
      (h : ReverseProxyRequestHandler),
      getHandlers ⟨fun _ => false, fun _ => none⟩ config {} = .ok r →
        r.getRequestHandler target = .ok (some ptr) →
          r.handlers[ptr]? = some (.reverseProxy h) → ForwardsRoutedPath (text "/") h target := by
  intro h
  obtain ⟨forwarded, n, hforward, hhead, -⟩ :=
    h proxyConfig _ (text "/./proxy/x") 0 proxyHandler rfl rfl rfl
  have hcut : proxyHandler.forwardedTarget (text "/./proxy/x") = .ok (text "xy/x") := rfl
  obtain rfl := Except.ok.inj (hcut.symm.trans hforward)
  exact absurd hhead (by decide)

end Aite.Handlers
