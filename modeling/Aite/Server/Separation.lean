import Aite.Server.Projection

/-!
# What clients see of each other

The gallery, the counts and the uploaded files are all that clients share. A client whose requests
go to handlers that read none of these is in the same state after the same actions of its own,
whatever the other clients do in between, provided that the servers behind the proxies answer this
client alike.
-/

namespace Aite

open Handlers Http Routing SharedStore
open Session

variable {B : Beast} {d : Deployment B} {i : ℕ}

/-- No handler stores memes. -/
def Deployment.StoresNothing (d : Deployment B) : Prop := ∀ h, Handler.meme h ∉ d.registry.handlers

/-- The handler answers without looking at anything that clients change. -/
def Deployment.Separate (d : Deployment B) : Handler → Prop
  | .meme _ => False
  | .status => False
  | .staticFile _ => d.StoresNothing
  | _ => True

/-- All calls of the session went to handlers that look at nothing that clients change. -/
def Deployment.KeepsApart (d : Deployment B) (c : Client B) : Prop :=
  ∀ call ∈ c.session.handled, ∀ handler, d.registry.handlers[call.1]? = some handler →
    d.Separate handler

variable {fs : FileSystem} {outside : ℕ → ℕ → Outside} {upstream : ℕ → ℕ → Upstream B}

end Aite
