import Aite.Routing.LongestLocation
import Aite.Server.Projection

/-!
# The handlers of a config

On a server that was made from a config, every handler that a client's request is handed to is the
object that was constructed from a location statement of the config.
-/

namespace Aite

open Handlers Http KeyedList Routing SharedStore
open Session

variable {B : Beast} {d : Deployment B} {i : ℕ}

/-- In every run of a server that was made from a config, each request that a client's session has
handed to a handler came whole, and the handler is the object that was constructed from the last of
the location statements with the longest location that the target begins with. -/
theorem handled_by_longest (L : FieldList B) {fs started : FileSystem}
    {config : BlockGrammar.Block Text} {cwd : Text}
    (hconfig : getHandlers started config { cwd } = .ok d.registry)
    {moves : List (Move (Client B) ClientAction)} {g : Global (Store B) (Client B)}
    (hrun : SharedStore.Run d.site (d.start fs) moves g) {c : Client B}
    (hc : g.locals[i]? = some c) {call : HandlerPtr × Request B} (hcall : call ∈ c.session.handled) :
    IsStored L call.2 ∧ (call.2.body.length : ℤ) = contentLength call.2.fields ∧
      ∃ n loc statement handler, convertToAbsolutePath cwd call.2.target = .ok n ∧
        IsLongest cwd (locationStatements config) n call.1 loc ∧
          (locationStatements config)[call.1]? = some statement ∧
            d.registry.handlers[call.1]? = some handler ∧
              IsBuiltFrom started cwd handler statement := by
  obtain ⟨hstored, hdeclared, hrouted⟩ := handled_whole_of_run L hrun hc hcall
  obtain ⟨hholds, hcwd⟩ := holds_of_getHandlers hconfig
  obtain ⟨n, hn⟩ := normalises_of_routed hrouted
  obtain ⟨result, hresult, -, hsome⟩ := hholds.getRequestHandler hn
  obtain rfl := Except.ok.inj (hrouted.symm.trans hresult)
  obtain ⟨loc, hlongest⟩ := hsome call.1 rfl
  obtain ⟨statement, hstatement, -⟩ := hlongest.isAt
  obtain ⟨handler, hhandler, hbuilt⟩ := hholds.exists_handler hstatement
  rw [hcwd] at hn hlongest hbuilt
  exact ⟨hstored, hdeclared, n, loc, statement, handler, hn, hlongest, hstatement, hhandler, hbuilt⟩

/-- The second client's request went to the status page. -/
theorem handled_by_longest_asks : ∃ g c call,
    smallSite.site.acts twoClients (asks 0 (text "/echo") ++ asks 1 (text "/status/now")) = some g ∧
      g.locals[1]? = some c ∧ c.session.handled = [call] ∧
        ∃ n loc statement handler, convertToAbsolutePath (text "/") call.2.target = .ok n ∧
          IsLongest (text "/") (locationStatements smallConfig) n call.1 loc ∧
            (locationStatements smallConfig)[call.1]? = some statement ∧
              smallSite.registry.handlers[call.1]? = some handler ∧
                IsBuiltFrom twoClients.store.shared.fs (text "/") handler statement := by
  have hacts : (smallSite.site.acts twoClients
      (asks 0 (text "/echo") ++ asks 1 (text "/status/now"))).isSome = true := rfl
  obtain ⟨g, hg⟩ := Option.isSome_iff_exists.mp hacts
  have hc : ∃ c call, g.locals[1]? = some c ∧ c.session.handled = [call] := by
    rw [← Option.some.inj hg]
    exact ⟨_, _, rfl, rfl⟩
  obtain ⟨c, call, hc, hhandled⟩ := hc
  have hlongest := handled_by_longest FieldList.lists getHandlers_smallConfig
    ((runs_twoClients smallSite).acts hg) hc (hhandled ▸ List.mem_singleton_self call)
  exact ⟨g, c, call, hg, hc, hhandled, hlongest.2.2⟩

end Aite
