import Aite.Server.ConfiguredHandlers
import Aite.Server.History
import Aite.Session.Aborts

/-!
# What goes wrong on a server

A callback that does not return has thrown an exception, which nothing catches and which ends the
process, or it has run into behaviour that the language leaves undefined, after which the process
may go on. On a server that was made from a config, the handlers contribute four reasons to those
of the sessions. Two are exceptions: an exchange with another server that does not go well, and an
upload whose style is not a number. Two are undefined: a status page after a response with an
unknown status, and a form whose path has no normal form. The page of all memes is none of them: an
upload that would spoil it has thrown already.
-/

namespace Aite

open Handlers Http KeyedList Routing SharedStore
open Session

variable {B : Beast}

/-- How a callback ends that does not return. -/
inductive Ending where
  /-- The process ends with the exception. -/
  | exception
  /-- The process may go on. -/
  | undefined
  deriving DecidableEq, Repr

/-- How the callback ends that has this error. A handler that fails without an exception is left
undefined. Fuel is of the model only, and no callback runs out of it. -/
def Abort.ending : Abort → Ending
  | .thrown .handlerError => .undefined
  | .thrown _ => .exception
  | .fault _ => .undefined
  | .outOfFuel => .undefined

/-- How a handler fails. -/
def Failure.ending : Failure → Ending
  | .abort a => a.ending
  | .undefinedConversion => .undefined

/-- Why a handler does not answer a request, and how it ends. -/
inductive Deployment.Breaks (d : Deployment B) (client call : ℕ) (shared : Shared)
    (req : Request B) : Handler → Ending → Prop where
  | exchange {h : ReverseProxyRequestHandler}
      (hexchange : ¬ GoesWell h (d.upstream client call) req) :
      Breaks d client call shared req (.reverseProxy h) .exception
  | style {h : MemeHandler} {form : Form} {extension : Text}
      (htarget : req.target = text "/meme/generate")
      (hupload : Uploads d.io (d.outside client call) h req form extension)
      (hstyle : stoi form.chosenStyle = none) :
      Breaks d client call shared req (.meme h) .exception
  | directory {h : MemeHandler} (htarget : req.target = text "/meme/create")
      (hcwd : ¬ Balanced (components d.registry.cwd (text "./memes/meme_creation.html"))) :
      Breaks d client call shared req (.meme h) .undefined
  | unknown {entry : (Text × ℕ) × ℕ} (hentry : entry ∈ shared.requests) (hstatus : entry.1.2 = 0) :
      Breaks d client call shared req .status .undefined

/-- Why a callback of a client does not return, and how it ends. -/
inductive Deployment.Stops (d : Deployment B) (client : ℕ) (shared : Shared) (s : Session B) :
    Event → Ending → Prop where
  | unparsed {data : Text} {a : Abort} (hparse : parse s.parserState s.request data = .error a) :
      Stops d client shared s (.headerRead data) a.ending
  /-- The address of the peer is logged once a header is parsed, and once a body is answered. -/
  | gone {e : Event} (h : s.connected = false)
      (hheader : ∀ data, e = .headerRead data →
        ∃ r, parse s.parserState s.request data = .ok r)
      (hbody : ∀ data ptr req handler ending, e = .bodyRead data →
        Dispatches (d.world client shared) s e ptr req → d.registry.handlers[ptr]? = some handler →
          ¬ d.Breaks client s.handled.length shared req handler ending) :
      Stops d client shared s e .exception
  | unassigned {data : Text} {r : ParseResult B} (hconnected : s.connected = true)
      (hparse : parse s.parserState s.request data = .ok r)
      (hbad : r.verdict = .false ∨ contentLength r.req.fields < 0)
      (hnever : s.requestHandler = none) : Stops d client shared s (.headerRead data) .undefined
  | unbalanced {data : Text} {r : ParseResult B} (hconnected : s.connected = true)
      (hparse : parse s.parserState s.request data = .ok r) (haccepted : r.verdict = .true)
      (hlength : 0 ≤ contentLength r.req.fields)
      (htarget : ¬ Balanced (components d.registry.cwd r.req.target)) :
      Stops d client shared s (.headerRead data) .undefined
  | breaks {e : Event} {ptr : HandlerPtr} {req : Request B} {handler : Handler} {ending : Ending}
      (hreached : s.connected = true ∨ ∃ data, e = .bodyRead data)
      (hdispatch : Dispatches (d.world client shared) s e ptr req)
      (hhandler : d.registry.handlers[ptr]? = some handler)
      (hbreaks : d.Breaks client s.handled.length shared req handler ending) :
      Stops d client shared s e ending

variable {d : Deployment B} {client call i : ℕ} {shared : Shared} {req : Request B}
  {h : MemeHandler} {memes : Memes} {ending : Ending}

/-! ## The meme handler -/

section Reasons

variable {s : Session B} {e : Event}
  (hcalls : ∀ ptr req, Dispatches (d.world client shared) s e ptr req →
    ∃ handler, d.registry.handlers[ptr]? = some handler)
  (hbroken : ∀ ptr req handler ending, d.registry.handlers[ptr]? = some handler →
    ((∃ exn, (d.world client shared).handleRequest s.handled.length ptr req = .error exn ∧
        (Abort.thrown exn).ending = ending) ↔
      d.Breaks client s.handled.length shared req handler ending))

include hcalls hbroken

end Reasons

end Aite
