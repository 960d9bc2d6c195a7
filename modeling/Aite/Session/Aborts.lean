import Aite.Session.Callbacks
import Aite.Session.UpstreamFailure

/-!
# When a callback does not return

A callback of a session does not return for one of five reasons: the peer is gone, the parser does
not return, a request is answered with an error page before the session has ever looked for a
handler, the target has no normal form, or the handler does not return. There are no others. Where
several of them meet, the callback ends at the first one that it reaches: without its peer, it
still parses a header and asks the handler for the answer to a body before it logs the address.
-/

namespace Aite

open Http Routing
open Session

variable {B : Beast}

/-- Why a callback does not return, and with which error. -/
inductive Session.Stops (w : World B) (s : Session B) : Event → Abort → Prop where
  | unparsed {data : Text} {a : Abort} (hparse : parse s.parserState s.request data = .error a) :
      Stops w s (.headerRead data) a
  /-- The address of the peer is logged in every callback. -/
  | gone {e : Event} (h : s.connected = false)
      (hheader : ∀ data, e = .headerRead data →
        ∃ r, parse s.parserState s.request data = .ok r)
      (hbody : ∀ data handler req, e = .bodyRead data → Dispatches w s e handler req →
        ∃ response, w.handleRequest s.handled.length handler req = .ok response) :
      Stops w s e (.thrown .systemError)
  /-- The error page is reported under the type of a handler pointer that was never assigned. -/
  | unassigned {data : Text} {r : ParseResult B} (hconnected : s.connected = true)
      (hparse : parse s.parserState s.request data = .ok r)
      (hbad : r.verdict = .false ∨ contentLength r.req.fields < 0)
      (hnever : s.requestHandler = none) : Stops w s (.headerRead data) (.fault .uninitialised)
  /-- The target climbs above the root. -/
  | unbalanced {data : Text} {r : ParseResult B} (hconnected : s.connected = true)
      (hparse : parse s.parserState s.request data = .ok r) (haccepted : r.verdict = .true)
      (hlength : 0 ≤ contentLength r.req.fields)
      (htarget : ¬ Balanced (components w.server.cwd r.req.target)) :
      Stops w s (.headerRead data) (.fault .popBackOfEmpty)
  | thrown {e : Event} {handler : HandlerPtr} {req : Request B} {exn : Exn}
      (hreached : s.connected = true ∨ ∃ data, e = .bodyRead data)
      (hdispatch : Dispatches w s e handler req)
      (hcall : w.handleRequest s.handled.length handler req = .error exn) :
      Stops w s e (.thrown exn)

variable {w : World B} {s u : Session B} {e : Event}

end Aite
