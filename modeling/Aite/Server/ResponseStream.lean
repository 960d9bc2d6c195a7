import Aite.Handlers.Redirects
import Aite.Handlers.WrittenRequest
import Aite.Lib.PrefixCode
import Aite.Server.Site
import Aite.Session.RequestCounts
import Aite.Session.UpstreamFailure

/-!
# The responses on a connection

The responses of a session are written to one connection, and a client finds the end of each by the
length that its header declares. Every response of the server declares the length of its body,
whether it is a page of its own or the response of another server, whose body was rewritten. So what
is on the connection can be read in one way only, as the responses in the order of their writes,
each behind a start line of its own, whatever that says. A client that expects no body for a request
of its own, as for its HEAD requests, reads in another way.
-/

namespace Aite

open Handlers Http PrefixCode Routing SharedStore
open Session

/-- A response as a client reads it. -/
structure WireResponse where
  startLine : Text
  fields : List (Text × Text)
  body : Text
  deriving DecidableEq, Repr

/-- `ss << response_`, for a response that is not chunked. -/
def WireResponse.write (m : WireResponse) : Text :=
  m.startLine ++ (text "\r\n" ++ (m.fields.flatMap writeField ++ (text "\r\n" ++ m.body)))

/-- A field that is read back from its line. -/
structure IsFieldLine (field : Text × Text) : Prop where
  name : ':'.toUInt8 ∉ field.1
  start : field.1.head? ≠ some '\r'.toUInt8
  value : '\r'.toUInt8 ∉ field.2

/-- A response whose end is found by what is in front of it. -/
structure WireResponse.Delimited (m : WireResponse) : Prop where
  startLine : '\r'.toUInt8 ∉ m.startLine
  fields : ∀ field ∈ m.fields, IsFieldLine field
  length : listFieldsGet m.fields (text "Content-Length") = text (toString m.body.length)

/-! ## Reading -/

/-- The lines of fields are separated. -/
private theorem separates_writeField : Separates IsFieldLine writeField := by
  have hname := separates_until ':'.toUInt8 (text " ")
  have hvalue := separates_until '\r'.toUInt8 (text "\n")
  refine (hname.pair fun _ _ => hvalue).of_part Function.injective_id
    (fun field hfield => ⟨hfield.name, hfield.value⟩) fun field => ?_
  simp only [writeField, List.append_assoc]
  rfl

/-- A declared length determines the length. -/
private theorem toString_injective {m n : ℕ} (h : text (toString m) = text (toString n)) : m = n := by
  rw [← (digits_toString m).2.2, h, (digits_toString n).2.2]

/-- Responses whose end is found by what is in front of it are separated. -/
theorem separates_write : Separates WireResponse.Delimited WireResponse.write := by
  have hstart := separates_until '\r'.toUInt8 (text "\n")
  have hfields : Separates (fun fields : List (Text × Text) => ∀ field ∈ fields, IsFieldLine field)
      fun fields => fields.flatMap writeField ++ text "\r\n" := by
    refine separates_writeField.until fun field hfield rest more heq => ?_
    rw [writeField, List.append_assoc] at heq
    cases hname : field.1 with
    | nil =>
      rw [hname] at heq
      cases heq
    | cons c name =>
      rw [hname] at heq
      have hc : c = '\r'.toUInt8 := (List.cons.inj heq).1
      exact hfield.start (by rw [hname, hc]; rfl)
  have hbody (fields : List (Text × Text)) : Separates
      (fun body => listFieldsGet fields (text "Content-Length") = text (toString body.length))
      fun body : Text => body :=
    separates_of_length fun body other hlength hother =>
      toString_injective (hlength.symm.trans hother)
  have hmessage := hstart.pair fun _ _ => hfields.pair fun fields _ => hbody fields
  have hpart : Function.Injective fun m : WireResponse => (m.startLine, m.fields, m.body) := by
    rintro ⟨startLine, fields, body⟩ ⟨startLine', fields', body'⟩ heq
    cases heq
    rfl
  refine hmessage.of_part hpart (fun m hm => ⟨hm.startLine, hm.fields, hm.length⟩) fun m => ?_
  simp only [WireResponse.write, List.append_assoc]
  rfl

/-! ## What the server sends -/

variable {B : Beast} {d : Deployment B} {i : ℕ}

/-- A response as it is written: a line of any content, its fields and its body. -/
structure IsWritten (L : FieldList B) (response : Response B) (m : WireResponse) : Prop where
  startLine : '\r'.toUInt8 ∉ m.startLine
  fields : m.fields = L.list response.fields
  body : m.body = response.body

/-- A response whose fields are lines and that declares the length of its body. -/
structure DeclaresLength (L : FieldList B) (response : Response B) : Prop where
  fields : ∀ field ∈ L.list response.fields, IsFieldLine field
  length : listFieldsGet (L.list response.fields) (text "Content-Length") =
    text (toString response.body.length)

/-- Such a response is written so that its end is found. -/
private theorem delimited_of_isWritten {L : FieldList B} {response : Response B} {m : WireResponse}
    (hlength : DeclaresLength L response) (hwritten : IsWritten L response m) : m.Delimited where
  startLine := hwritten.startLine
  fields := hwritten.fields ▸ hlength.fields
  length := by
    rw [hwritten.fields, hwritten.body]
    exact hlength.length

/-- So are such responses one after the other. -/
private theorem delimited_of_forall₂ {L : FieldList B} {responses : List (Response B)}
    {wire : List WireResponse} (hlength : ∀ response ∈ responses, DeclaresLength L response)
    (hwire : List.Forall₂ (IsWritten L) responses wire) : ∀ m ∈ wire, m.Delimited := by
  induction hwire with
  | nil => exact fun m hm => absurd hm List.not_mem_nil
  | cons hwritten _ ih =>
    obtain ⟨hfirst, hrest⟩ := List.forall_mem_cons.mp hlength
    exact List.forall_mem_cons.mpr ⟨delimited_of_isWritten hfirst hwritten, ih hrest⟩

/-- A page of the server. -/
def page (B : Beast) (status : ℕ) (contentType content : Text) : Response B where
  result := status
  fields := B.set (B.set B.empty (text "Content-Type") contentType)
    (text "Content-Length") (text (toString content.length))
  body := content

/-- What the server sends: a page, or the response of another server. -/
inductive Deployment.Sends (d : Deployment B) : Response B → Prop where
  | page {status contentType content} (htype : '\r'.toUInt8 ∉ contentType) :
      Sends d (page B status contentType content)
  | proxied {ptr : HandlerPtr} {client call : ℕ} {req : Request B} {h : ReverseProxyRequestHandler}
      {resp response : Response B}
      (hproxy : d.registry.handlers[ptr]? = some (.reverseProxy h))
      (hreads : (d.upstream client call).reads req = some resp)
      (hprepared : h.prepareProxiedResp d.responseIO (h.redirected d.responseIO resp) =
        .ok response) : Sends d response

/-- A page of hypertext. -/
private theorem sends_html (status : ℕ) (content : Text) :
    d.Sends (page B status (text "text/html") content) := .page (by decide)

/-- Error pages. -/
private theorem sends_errorPage (status : ℕ) (message : Text) :
    d.Sends (showErrorPage B status message) := sends_html status _

/-- Plain pages. -/
private theorem sends_plainPage (content : Text) : d.Sends (plainPage B content) :=
  .page (by decide)

/-- Files. -/
private theorem sends_file (fs : FileSystem) (h : StaticFileRequestHandler) (req : Request B) :
    d.Sends (h.handleRequest fs req) := by
  have htypes : ∀ entry ∈ contentTypes, '\r'.toUInt8 ∉ entry.2 := by decide
  simp only [StaticFileRequestHandler.handleRequest]
  cases fs.contents (h.parsePathFromUri req.target) with
  | none => exact sends_errorPage _ _
  | some content =>
    refine .page ?_
    rw [parseContentTypeFromUri]
    cases hlookup : contentTypes.lookup (extension req.target) with
    | none => decide
    | some contentType =>
      obtain ⟨before, after, hsplit, -⟩ := List.lookup_eq_some_iff.mp hlookup
      exact htypes _ (hsplit ▸ List.mem_append_right _ List.mem_cons_self)

/-- The page of an upload. -/
private theorem sends_upload {form : Form} {imgUrl : Text} {response : Response B}
    (hanswer : form.answer B imgUrl = .ok response) : d.Sends response := by
  obtain ⟨style, -, hanswer⟩ := run_bind_eq_ok.mp hanswer
  cases hrules : memeRules style with
  | none =>
    rw [hrules] at hanswer
    exact Except.ok.inj hanswer ▸ sends_errorPage _ _
  | some rules =>
    rw [hrules] at hanswer
    exact Except.ok.inj hanswer ▸ sends_html _ _

/-- The gallery. -/
private theorem sends_gallery {memes : Memes} {response : Response B}
    (hanswer : MemeHandler.browseMemes memes = .ok response) : d.Sends response := by
  obtain ⟨page, -, hanswer⟩ := run_bind_eq_ok.mp hanswer
  cases page with
  | none => exact Except.ok.inj hanswer ▸ sends_errorPage _ _
  | some page => exact Except.ok.inj hanswer ▸ sends_html _ _

/-- The form for a meme. -/
private theorem sends_form {fs : FileSystem} {cwd : Text} {response : Response B}
    (hanswer : MemeHandler.createMeme fs cwd = .ok response) : d.Sends response := by
  obtain ⟨path, -, hanswer⟩ := run_bind_eq_ok.mp hanswer
  cases hcontents : fs.contents path with
  | none =>
    rw [hcontents] at hanswer
    exact Except.ok.inj hanswer ▸ sends_errorPage _ _
  | some content =>
    rw [hcontents] at hanswer
    exact Except.ok.inj hanswer ▸ sends_html _ _

/-- The pages of the memes. -/
private theorem sends_meme {io : RequestIO B} {fs : FileSystem} {cwd : Text} {outside : Outside}
    {h : MemeHandler} {memes : Memes} {req : Request B} {response : Response B}
    (hanswer : (h.handleRequest io fs cwd outside memes req).response = .ok response) :
    d.Sends response := by
  rw [MemeHandler.handleRequest] at hanswer
  split_ifs at hanswer
  · exact Except.ok.inj hanswer ▸ sends_errorPage _ _
  · cases generateMeme_cases io outside h memes req with
    | inl hupload =>
      obtain ⟨form, extension, hupload⟩ := hupload
      rw [hupload.generateMeme] at hanswer
      exact sends_upload hanswer
    | inr hrefused =>
      obtain ⟨status, message, -, hrefused⟩ := hrefused
      rw [hrefused] at hanswer
      exact Except.ok.inj hanswer ▸ sends_errorPage _ _
  · exact sends_form hanswer
  · exact sends_gallery hanswer
  · exact Except.ok.inj hanswer ▸ sends_errorPage _ _

/-- What a handler answers without an exception. -/
private theorem mapError_eq_ok {α β γ : Type} {f : α → β} {x : Except α γ} {c : γ}
    (h : x.mapError f = .ok c) : x = .ok c := by
  cases x with
  | error _ => cases h
  | ok _ => exact congrArg _ (Except.ok.inj h)

/-- A handler sends what it answers. -/
theorem sends_of_handleRequest {client call : ℕ} {shared : Shared} {ptr : HandlerPtr}
    {req : Request B} {response : Response B}
    (hanswer : (d.handleRequest client call shared ptr req).2 = .ok response) :
    d.Sends response := by
  unfold Deployment.handleRequest at hanswer
  cases hhandler : d.registry.handlers[ptr]? with
  | none =>
    rw [hhandler] at hanswer
    cases hanswer
  | some handler =>
    rw [hhandler] at hanswer
    cases handler with
    | echo => exact Except.ok.inj hanswer ▸ .page (by decide)
    | staticFile h => exact Except.ok.inj hanswer ▸ sends_file _ h req
    | reverseProxy h =>
      obtain ⟨target, -, hanswer⟩ := run_bind_eq_ok.mp (mapError_eq_ok hanswer)
      obtain ⟨resp, hperform, hprepared⟩ := run_bind_eq_ok.mp hanswer
      exact .proxied hhandler (performRequest_eq_ok_iff.mp hperform).2.2.2.1 hprepared
    | notFound => exact Except.ok.inj hanswer ▸ sends_errorPage _ _
    | sleep => exact Except.ok.inj hanswer ▸ sends_plainPage _
    | meme h => exact sends_meme (mapError_eq_ok hanswer)
    | status =>
      simp only [Deployment.handlerCall, StatusRequestHandler.handleRequest] at hanswer
      cases hpage : statusPage B ⟨shared.requests, d.registry.handlerToPrefixes⟩ with
      | none =>
        rw [hpage] at hanswer
        cases hanswer
      | some content =>
        rw [hpage] at hanswer
        exact Except.ok.inj hanswer ▸ sends_html _ _
    | health => exact Except.ok.inj hanswer ▸ sends_plainPage _

/-- In every run, all responses that were written are sent by the server. -/
theorem sends_of_run {fs : FileSystem} {moves : List (Move (Client B) ClientAction)}
    {g : Global (Store B) (Client B)} (hrun : SharedStore.Run d.site (d.start fs) moves g)
    {c : Client B} (hc : g.locals[i]? = some c) {response : Response B}
    (hwritten : response ∈ c.session.written) : d.Sends response := by
  have hall : ∀ c ∈ g.locals, ∀ response ∈ c.session.written, d.Sends response := by
    refine hrun.forall_local (fun c hc => absurd hc List.not_mem_nil) ?_ ?_
    · intro c ⟨haccept, _⟩ response hresponse
      rw [← Except.ok.inj haccept] at hresponse
      exact absurd hresponse List.not_mem_nil
    · intro client store c a r hsent hstep
      obtain ⟨e, t, rfl, -, hdeliver, -, hr⟩ | ⟨rfl, rfl⟩ | ⟨rfl, -, rfl⟩ := Client.act_cases hstep
      · rw [hr]
        cases responds_of_deliver hdeliver with
        | silent hwritten => exact hwritten ▸ hsent
        | answer hwritten hanswer =>
          intro response hresponse
          change response ∈ t.written at hresponse
          rw [hwritten, List.mem_append, List.mem_singleton] at hresponse
          cases hresponse with
          | inl hresponse => exact hsent response hresponse
          | inr heq =>
            rw [heq]
            cases hanswer with
            | handler call handler hcall =>
              exact sends_of_handleRequest (Deployment.world_eq_ok.mp hcall)
            | errorPage message hpage => exact hpage ▸ sends_errorPage _ _
      · exact hsent
      · exact hsent
  exact hall c (List.mem_of_getElem? hc) response hwritten

/-! ## What is read on a connection -/

/-- The library writes fields line by line. The lines of other servers' responses end where their
values do, the locations of the proxies keep it so, and so do the changes that a proxy makes. -/
structure Deployment.WritesLines (d : Deployment B) (L : LookupList B) : Prop where
  upstream : ∀ client call req resp, (d.upstream client call).reads req = some resp →
    ∀ field ∈ L.list resp.fields, IsFieldLine field
  location : ∀ (ptr : HandlerPtr) (h : ReverseProxyRequestHandler),
    d.registry.handlers[ptr]? = some (.reverseProxy h) → '\r'.toUInt8 ∉ h.location
  erase : ∀ fields name, L.list (d.responseIO.erase fields name) ⊆ L.list fields
  unchunk : ∀ fields, (∀ field ∈ L.list fields, IsFieldLine field) →
    ∀ field ∈ L.list (d.responseIO.unchunk fields), IsFieldLine field
  lawful : d.responseIO.Lawful

variable {L : LookupList B}

/-- A field that is set is read back from its line when its value has no line end. -/
private theorem isFieldLine_set {fields : B.Fields}
    (hfields : ∀ field ∈ L.list fields, IsFieldLine field) {name value : Text}
    (hname : ':'.toUInt8 ∉ name ∧ name.head? ≠ some '\r'.toUInt8) (hvalue : '\r'.toUInt8 ∉ value) :
    ∀ field ∈ L.list (B.set fields name value), IsFieldLine field := by
  intro field hfield
  rw [L.list_set, listFieldsSet, List.mem_append, List.mem_singleton] at hfield
  cases hfield with
  | inl hfield => exact hfields field (List.mem_of_mem_filter hfield)
  | inr heq => exact heq ▸ ⟨hname.1, hname.2, fun hc => hvalue (trim_subset value hc)⟩

/-- The value of a field is read back as well. -/
private theorem get_isFieldLine {fields : B.Fields}
    (hfields : ∀ field ∈ L.list fields, IsFieldLine field) (name : Text) :
    '\r'.toUInt8 ∉ B.get fields name := by
  rw [L.get_list, listFieldsGet]
  cases hfind : (L.list fields).find? fun field => iequals field.1 name with
  | none => exact List.not_mem_nil
  | some field => exact (hfields field (List.mem_of_find?_eq_some hfind)).value

/-- A length is written without line ends and blanks. -/
private theorem length_line (n : ℕ) :
    '\r'.toUInt8 ∉ text (toString n) ∧ trim (text (toString n)) = text (toString n) := by
  obtain ⟨-, hdigits, -⟩ := digits_toString n
  have hspace (c : UInt8) (hc : c ∈ text (toString n)) : isSpace c = false :=
    digit_not_space (hdigits c hc)
  have hblank (c : UInt8) (hc : c ∈ text (toString n)) : isBlank c = false := by
    rw [Bool.eq_false_iff]
    intro hblank
    simp only [isBlank, Bool.or_eq_true, decide_eq_true_eq] at hblank
    cases hblank with
    | inl heq => exact absurd (hspace c hc) (by rw [heq]; decide)
    | inr heq => exact absurd (hspace c hc) (by rw [heq]; decide)
  refine ⟨fun hc => absurd (hspace _ hc) (by decide), trim_eq_self ?_ ?_⟩
  · exact fun c hc => hblank c (List.mem_of_mem_head? hc)
  · exact fun c hc => hblank c (List.mem_of_mem_getLast? hc)

/-- A page declares the length of its body. -/
private theorem declaresLength_page {status : ℕ} {contentType content : Text}
    (htype : '\r'.toUInt8 ∉ contentType) :
    DeclaresLength L.toFieldList (page B status contentType content) := by
  have hself : iequals (text "Content-Length") (text "Content-Length") = true := by decide
  refine ⟨?_, ?_⟩
  · refine isFieldLine_set (isFieldLine_set ?_ (by decide) htype) (by decide) (length_line _).1
    intro field hfield
    rw [L.list_empty] at hfield
    exact absurd hfield List.not_mem_nil
  · change listFieldsGet (L.list (B.set _ _ _)) _ = _
    rw [← L.get_list, B.get_set, if_pos hself, (length_line _).2]
    rfl

/-- So does a response that a proxy has prepared. -/
private theorem declaresLength_proxied (hlines : d.WritesLines L) {ptr : HandlerPtr}
    {client call : ℕ} {req : Request B} {h : ReverseProxyRequestHandler}
    {resp response : Response B} (hproxy : d.registry.handlers[ptr]? = some (.reverseProxy h))
    (hreads : (d.upstream client call).reads req = some resp)
    (hprepared : h.prepareProxiedResp d.responseIO (h.redirected d.responseIO resp) =
      .ok response) :
    DeclaresLength L.toFieldList response := by
  have hself : iequals (text "Content-Length") (text "Content-Length") = true := by decide
  have hencoding : iequals (text "Transfer-Encoding") (text "Content-Length") = false := by decide
  have hresp := hlines.upstream client call req resp hreads
  have hredirected : ∀ field ∈ L.list (h.redirected d.responseIO resp).fields,
      IsFieldLine field := by
    rw [ReverseProxyRequestHandler.redirected]
    split_ifs
    · refine isFieldLine_set hresp (by decide) ?_
      have hvalue := get_isFieldLine hresp (text "Location")
      split_ifs
      · exact List.not_mem_append (hlines.location ptr h hproxy) hvalue
      · exact hvalue
    · exact hresp
  rw [prepareProxiedResp_passes, preparePayload] at hprepared
  split_ifs at hprepared
  obtain rfl := Except.ok.inj hprepared
  refine ⟨?_, ?_⟩
  · refine hlines.unchunk _ (isFieldLine_set ?_ (by decide) (length_line _).1)
    exact fun field hfield => hlines.unchunk _ hredirected field (hlines.erase _ _ hfield)
  · change listFieldsGet (L.list (d.responseIO.unchunk (B.set _ _ _))) _ = _
    rw [← L.get_list, hlines.lawful.get_unchunk _ _ hencoding, B.get_set, if_pos hself,
      (length_line _).2]

/-- Every response that the server sends declares its length. -/
theorem declaresLength_of_sends (hlines : d.WritesLines L) {response : Response B}
    (hsends : d.Sends response) : DeclaresLength L.toFieldList response := by
  cases hsends with
  | page htype => exact declaresLength_page htype
  | proxied hproxy hreads hprepared => exact declaresLength_proxied hlines hproxy hreads hprepared

/-- In every run of the server, the responses on a connection declare the lengths of their bodies,
and whatever responses a client reads at the beginning of what was written there are the first ones
that were written. -/
theorem stream_read (hlines : d.WritesLines L) {fs : FileSystem}
    {moves : List (Move (Client B) ClientAction)} {g : Global (Store B) (Client B)}
    (hrun : SharedStore.Run d.site (d.start fs) moves g) {c : Client B}
    (hc : g.locals[i]? = some c) {wire : List WireResponse}
    (hwire : List.Forall₂ (IsWritten L.toFieldList) c.session.written wire) :
    (∀ m ∈ wire, m.Delimited) ∧ ∀ ms : List WireResponse, (∀ m ∈ ms, m.Delimited) →
      (ms.flatMap WireResponse.write <+: wire.flatMap WireResponse.write ↔ ms <+: wire) := by
  have hwritten : ∀ m ∈ wire, m.Delimited := by
    refine delimited_of_forall₂ (fun response hresponse => ?_) hwire
    exact declaresLength_of_sends hlines (sends_of_run hrun hc hresponse)
  have hne (m : WireResponse) (_ : m.Delimited) : m.write ≠ [] := by
    rw [WireResponse.write]
    exact List.append_ne_nil_of_right_ne_nil _ (List.append_ne_nil_of_left_ne_nil (by decide) _)
  refine ⟨hwritten, fun ms hms => ⟨separates_write.prefix_of_prefix hne hms hwritten, ?_⟩⟩
  rintro ⟨rest, hrest⟩
  rw [← hrest, List.flatMap_append]
  exact List.prefix_append _ _

/-- A server with a proxy at `/proxy`, in front of a page of links, and a status page. -/
def linkedSite : Deployment Beast.lists where
  __ := smallSite
  registry :=
    { handlers := [.reverseProxy proxyHandler, .status]
      locationToHandler := [(text "/proxy", 0), (text "/status", 1)]
      typeToHandler := [(text "ReverseProxyHandler", [0]), (text "StatusHandler", [1])]
      handlerToPrefixes := [(text "ReverseProxyHandler", [text "/proxy"]),
        (text "StatusHandler", [text "/status"])] }
  upstream _ _ := pageUpstream true

/-- The page of links has no fields. -/
private theorem writesLines_linkedSite : linkedSite.WritesLines LookupList.lists where
  upstream client call req resp hreads field hfield := by
    obtain rfl := Option.some.inj hreads
    cases hfield
  location ptr h hproxy := by
    have hmem := List.mem_of_getElem? hproxy
    simp only [linkedSite, List.mem_cons, reduceCtorEq, or_false, List.not_mem_nil,
      Handler.reverseProxy.injEq] at hmem
    rw [hmem]
    decide
  erase _ _ := List.filter_subset_self _
  unchunk _ hfields field hfield := hfields field (List.mem_of_mem_filter hfield)
  lawful := listsResponseIO_lawful

/-- A client has asked for a page behind the proxy and for the status, and reads two responses. -/
theorem stream_read_asks : ∃ g c wire,
    linkedSite.site.acts twoClients (asks 0 (text "/proxy/a") ++ asks 0 (text "/status")) = some g ∧
      g.locals[0]? = some c ∧ wire.length = 2 ∧
        List.Forall₂ (IsWritten FieldList.lists) c.session.written wire ∧
          ∀ ms : List WireResponse, (∀ m ∈ ms, m.Delimited) →
            (ms.flatMap WireResponse.write <+: wire.flatMap WireResponse.write ↔ ms <+: wire) := by
  have hacts : (linkedSite.site.acts twoClients
      (asks 0 (text "/proxy/a") ++ asks 0 (text "/status"))).isSome = true := rfl
  obtain ⟨g, hg⟩ := Option.isSome_iff_exists.mp hacts
  have hc : ∃ c, g.locals[0]? = some c ∧ c.session.written.length = 2 := by
    rw [← Option.some.inj hg]
    exact ⟨_, rfl, rfl⟩
  obtain ⟨c, hc, hlength⟩ := hc
  have hline : '\r'.toUInt8 ∉ text "HTTP/1.1 200 OK" := by decide
  have hwire : List.Forall₂ (IsWritten FieldList.lists) c.session.written
      (c.session.written.map fun response =>
        ⟨text "HTTP/1.1 200 OK", response.fields, response.body⟩) :=
    List.forall₂_map_right_iff.mpr (List.forall₂_same.mpr fun response _ => ⟨hline, rfl, rfl⟩)
  refine ⟨g, c, _, hg, hc, (List.length_map _).trans hlength, hwire, ?_⟩
  exact (stream_read writesLines_linkedSite ((runs_twoClients linkedSite).acts hg) hc hwire).2

end Aite
