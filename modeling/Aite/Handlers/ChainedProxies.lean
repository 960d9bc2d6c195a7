import Aite.Handlers.Redirects
import Aite.Http.FieldList
import Aite.Lib.Reinsertion

/-!
# Proxies behind proxies

The server that a proxy sends a request on to may have a proxy of its own at the path that is left.
Where that one answers, and its response arrives as it was answered, the outer proxy answers what
one proxy with both locations would answer, up to the references in the body: an absolute path with
the inner location in front is still an absolute path, and gets the outer location in front as well.
The escaped slash of a style sheet is an exception. With a location in front, it is no longer found.
-/

namespace Aite.Handlers

open Http Insertion Routing

/-- Looking for a field that was set, and with others erased. -/
structure ResponseIO.Finds {B : Beast} (io : ResponseIO B) : Prop where
  contains_set : ∀ fields name value other,
    io.contains (B.set fields name value) other = (iequals name other || io.contains fields other)
  contains_erase : ∀ fields name other, iequals name other = false →
    io.contains (io.erase fields name) other = io.contains fields other
  contains_unchunk : ∀ fields other, iequals (text "Transfer-Encoding") other = false →
    io.contains (io.unchunk fields) other = io.contains fields other

/-- The rule for slashes that a style sheet escapes. -/
def escapedUrlRule : Rule UInt8 := ⟨text "url(", text "\\2f ", '/'.toUInt8⟩

/-- These slashes are one of the references that are rewritten. -/
private theorem escapedUrlRule_mem : escapedUrlRule ∈ references :=
  .tail _ (.tail _ (.tail _ (.head _)))

/-- A proxy with the locations of two proxies, in front of the same server as the inner one. -/
def ReverseProxyRequestHandler.through (outer inner : ReverseProxyRequestHandler) :
    ReverseProxyRequestHandler where
  location := outer.location ++ inner.location
  host := inner.host
  port := inner.port

/-! ## Bodies -/

/-- Nothing is inserted without a location. -/
private theorem rewritten_nil (body : Text) : rewritten [] body = body := by
  have hnone (before after : Text) : insertAll (anySite references) [] before after = after := by
    induction after generalizing before with
    | nil => rw [insertAll, ite_self]
    | cons c rest ih => rw [insertAll, ite_self, ih, List.nil_append]
  exact hnone [] body

/-- Bodies are left empty, and only these become empty. -/
private theorem rewritten_eq_nil_iff {location : Text} (body : Text) :
    rewritten location body = [] ↔ body = [] := by
  cases body with
  | nil =>
    have hnone : anySite references [] [] = false := by decide
    rw [rewritten, insertAll, hnone, if_neg Bool.false_ne_true]
  | cons c rest => simp [rewritten, insertAll]

/-- The front of a normalised location. -/
private theorem exists_front {cwd path location : Text}
    (hlocation : convertToAbsolutePath cwd path = .ok location) (hne : location ≠ []) :
    ∃ c rest, location = '/'.toUInt8 :: c :: rest ∧ c ≠ '/'.toUInt8 := by
  obtain ⟨-, rfl⟩ := convertToAbsolutePath_eq_ok_iff.mp hlocation
  have hcomponents := isComponent_normalComponents cwd path
  cases hdirs : normalComponents cwd path with
  | nil => exact absurd (by rw [hdirs]; rfl) hne
  | cons dir dirs =>
    have hdir := hcomponents dir (hdirs ▸ List.mem_cons_self)
    obtain ⟨c, dir, rfl⟩ := List.exists_cons_of_ne_nil (isComponent_ne hdir).1
    exact ⟨c, dir ++ joinComponents dirs, rfl, fun hc => hdir.1 (hc ▸ List.mem_cons_self)⟩

/-- Rewriting a body for two locations is rewriting it for both in one exactly when one of them is
the root, or no slash in the body is escaped. -/
theorem rewritten_rewritten_iff {cwd path inner : Text}
    (hlocation : convertToAbsolutePath cwd path = .ok inner)
    (hopener : ∀ c ∈ inner, isOpener c = false) (outer body : Text) :
    rewritten outer (rewritten inner body) = rewritten (outer ++ inner) body ↔
      outer = [] ∨ inner = [] ∨ ¬ HasPlace escapedUrlRule body := by
  by_cases hne : inner = []
  · rw [hne, rewritten_nil, List.append_nil]
    simp
  obtain ⟨c, rest, rfl, hc⟩ := exists_front hlocation hne
  have hslash (closing : Text) (hclosing : closing = text "/") (after : Text) :
      closes closing '/'.toUInt8 ('/'.toUInt8 :: c :: after) = true := by
    rw [hclosing]
    simp [closes, text, hc]
  have hescaped (after : Text) :
      closes (text "\\2f ") '/'.toUInt8 ('/'.toUInt8 :: c :: after) = false := rfl
  have hdecides : ∀ r ∈ references, Decides ('/'.toUInt8 :: c :: rest) r := by
    intro r hr after
    simp only [references, List.mem_cons, List.not_mem_nil, or_false] at hr
    rcases hr with rfl | rfl | rfl | rfl
    · exact (hslash _ rfl _).trans (hslash _ rfl _).symm
    · exact (hslash _ rfl _).trans (hslash _ rfl _).symm
    · exact (hslash _ rfl _).trans (hslash _ rfl _).symm
    · rfl
  have hlost : (∀ r ∈ references, HasPlace r body → Reopens ('/'.toUInt8 :: c :: rest) r) ↔
      ¬ HasPlace escapedUrlRule body := by
    constructor
    · intro hall hplace
      exact Bool.false_ne_true ((hescaped rest).symm.trans (hall _ escapedUrlRule_mem hplace))
    · intro hnone r hr hplace
      simp only [references, List.mem_cons, List.not_mem_nil, or_false] at hr
      rcases hr with rfl | rfl | rfl | rfl
      · exact hslash _ rfl _
      · exact hslash _ rfl _
      · exact hslash _ rfl _
      · exact absurd hplace hnone
  rw [rewritten, rewritten, rewritten,
    insertAll_insertAll_iff (fun _ => wellFormed_of_mem_references) pairwise_apart_references
      (List.cons_ne_nil _ _) hopener hdecides, hlost]
  simp

/-! ## Requests -/

variable {B : Beast} {io : ResponseIO B}
  {client outerClient : Text → Text → Request B → Run (Response B)}
  {outer inner : ReverseProxyRequestHandler} {req : Request B} {resp inside : Response B}

/-- The inner proxy, whose client is given, answers what the outer one sends on, and the client of
the outer one receives the response as it was answered. -/
def AnsweredBehind (io : ResponseIO B) (client : Text → Text → Request B → Run (Response B))
    (inner outer : ReverseProxyRequestHandler)
    (outerClient : Text → Text → Request B → Run (Response B)) (req : Request B)
    (inside : Response B) : Prop :=
  ∃ target, outer.forwardedTarget req.target = .ok target ∧
    inner.handleRequest io client (outer.proxiedRequest req target) = .ok inside ∧
      outerClient outer.host outer.port (outer.proxiedRequest req target) = .ok inside

/-- A server sees the list of the fields. -/
def SeesList (L : FieldList B) (client : Text → Text → Request B → Run (Response B)) : Prop :=
  ∀ host port (req : Request B) fields, L.list fields = L.list req.fields →
    client host port { req with fields } = client host port req

/-- Both proxies forward a target like the proxy with both locations. -/
private theorem forwardedTarget_through (htarget : outer.location ++ inner.location <+: req.target) :
    ∃ between forwarded, outer.forwardedTarget req.target = .ok between ∧
      inner.forwardedTarget between = .ok forwarded ∧
        (outer.through inner).forwardedTarget req.target = .ok forwarded := by
  obtain ⟨rest, hrest⟩ := htarget
  rw [← hrest]
  have hboth : (outer.through inner).forwardedTarget (outer.location ++ inner.location ++ rest) =
      .ok (if rest = [] then text "/" else rest) := by
    rw [ReverseProxyRequestHandler.forwardedTarget, ReverseProxyRequestHandler.through,
      if_pos (by simp), List.drop_left]
  rw [hboth]
  by_cases hnil : inner.location ++ rest = []
  · obtain ⟨hinner, rfl⟩ := List.append_eq_nil_iff.mp hnil
    refine ⟨text "/", text "/", ?_, ?_, rfl⟩
    · rw [hinner, ReverseProxyRequestHandler.forwardedTarget, if_pos (by simp), List.append_nil,
        List.append_nil, List.drop_length]
      rfl
    · rw [ReverseProxyRequestHandler.forwardedTarget, hinner]
      rfl
  · refine ⟨inner.location ++ rest, _, ?_, ?_, rfl⟩
    · rw [List.append_assoc]
      exact forwardedTarget_append outer hnil
    · rw [ReverseProxyRequestHandler.forwardedTarget, if_pos (by simp), List.drop_left]

/-- What a field was set to before does not matter once it is set again. -/
private theorem listFieldsSet_again {name other : Text} (hne : iequals name other = false)
    (fields : List (Text × Text)) (old value new : Text) :
    listFieldsSet (listFieldsSet (listFieldsSet fields name old) other value) name new =
      listFieldsSet (listFieldsSet fields other value) name new := by
  have hself : iequals name name = true := decide_eq_true rfl
  have hcomm : iequals other name = false := by
    simpa only [iequals, eq_comm] using hne
  have hold : [(name, trim old)].filter (fun field => !iequals field.1 other) =
      [(name, trim old)] := by simp [hne]
  have hremoved : [(name, trim old)].filter (fun field => !iequals field.1 name) = [] := by
    simp [hself]
  have hkept : [(other, trim value)].filter (fun field => !iequals field.1 name) =
      [(other, trim value)] := by simp [hcomm]
  rw [listFieldsSet, listFieldsSet, listFieldsSet, listFieldsSet, listFieldsSet]
  simp only [List.filter_append, hold, hremoved, hkept, List.append_nil, List.filter_filter]
  refine congrArg (fun kept => kept ++ [(other, trim value)] ++ [(name, trim new)]) ?_
  refine congrArg (fun keeps => fields.filter keeps) (funext fun field => ?_)
  cases iequals field.1 name <;> simp

/-- The server behind both proxies is sent the fields that it is sent by one. -/
private theorem list_proxiedRequest (L : FieldList B) (between forwarded : Text) :
    L.list (inner.proxiedRequest (outer.proxiedRequest req between) forwarded).fields =
      L.list ((outer.through inner).proxiedRequest req forwarded).fields := by
  simp only [ReverseProxyRequestHandler.proxiedRequest, ReverseProxyRequestHandler.through,
    L.list_set]
  rw [@listFieldsSet_again (text "Host") _ (by decide), listFieldsSet_again (by decide)]

/-- What the inner proxy makes of the answer of the server behind both. -/
private theorem inside_eq {L : FieldList B} (hsees : SeesList L client)
    (htarget : outer.location ++ inner.location <+: req.target)
    (hanswers : Answers client (outer.through inner) req resp)
    (hbehind : AnsweredBehind io client inner outer outerClient req inside) :
    inner.prepareProxiedResp io (inner.redirected io resp) = .ok inside := by
  obtain ⟨between, forwarded, houter, hinner, hboth⟩ := forwardedTarget_through htarget
  obtain ⟨target, htarget, hclient⟩ := hanswers
  obtain ⟨sent, hsent, hinside, -⟩ := hbehind
  obtain rfl := Except.ok.inj (hboth.symm.trans htarget)
  obtain rfl := Except.ok.inj (houter.symm.trans hsent)
  have hsame : client inner.host inner.port
      (inner.proxiedRequest (outer.proxiedRequest req between) forwarded) = .ok resp :=
    (hsees inner.host inner.port ((outer.through inner).proxiedRequest req forwarded) _
      (list_proxiedRequest L between forwarded)).trans hclient
  rw [ReverseProxyRequestHandler.handleRequest] at hinside
  change inner.forwardedTarget between >>= _ = _ at hinside
  rw [hinner, run_ok_bind, hsame, run_ok_bind] at hinside
  exact hinside

/-- What the outer proxy makes of the answer of the inner one. -/
private theorem outside_eq (hbehind : AnsweredBehind io client inner outer outerClient req inside) :
    outer.handleRequest io outerClient req =
      outer.prepareProxiedResp io (outer.redirected io inside) := by
  obtain ⟨target, hforwarded, -, harrives⟩ := hbehind
  rw [ReverseProxyRequestHandler.handleRequest, hforwarded, run_ok_bind, harrives, run_ok_bind]

/-! ## Responses -/

/-- The answers have the same status, the same body and the same fields, up to the transfer
encoding. -/
structure AnsweredAlike (answer other : Response B) : Prop where
  result : answer.result = other.result
  body : answer.body = other.body
  fields : ∀ name, iequals (text "Transfer-Encoding") name = false →
    B.get answer.fields name = B.get other.fields name

/-- The response that a proxy prepares. -/
private def prepared (io : ResponseIO B) (location : Text) (resp : Response B) : Response B where
  result := resp.result
  fields := io.unchunk (B.set (unchunked io resp).fields (text "Content-Length")
    (text (toString (rewritten location resp.body).length)))
  body := rewritten location resp.body

/-- A response is prepared unless its status forbids the body that it has. -/
private theorem prepareProxiedResp_eq_ite {h : ReverseProxyRequestHandler}
    (hopener : ∀ c ∈ h.location, isOpener c = false) (resp : Response B) :
    h.prepareProxiedResp io resp =
      if resp.body ≠ [] ∧ forbidsBody resp.result = true then .error (.thrown .invalidArgument)
      else .ok (prepared io h.location resp) := by
  have hquote : '"'.toUInt8 ∉ h.location := fun hmem => absurd (hopener _ hmem) (by decide)
  have hparen : '('.toUInt8 ∉ h.location := fun hmem => absurd (hopener _ hmem) (by decide)
  rw [prepareProxiedResp_eq h io hquote hparen, preparePayload]
  exact if_congr (and_congr_left' (not_congr (rewritten_eq_nil_iff resp.body))) rfl rfl

/-- What is looked up in a prepared response. -/
private theorem get_prepared (hio : io.Lawful) (location : Text) (resp : Response B) {name : Text}
    (hname : iequals (text "Transfer-Encoding") name = false) :
    B.get (prepared io location resp).fields name =
      if iequals (text "Content-Length") name then
        trim (text (toString (rewritten location resp.body).length))
      else B.get resp.fields name := by
  rw [prepared, hio.get_unchunk _ _ hname, B.get_set]
  by_cases hlength : iequals (text "Content-Length") name = true
  · rw [if_pos hlength, if_pos hlength]
  · rw [if_neg hlength, if_neg hlength, unchunked,
      hio.get_erase _ _ _ (Bool.eq_false_iff.mpr hlength), hio.get_unchunk _ _ hname]

/-- Preparing a response does not add or remove a redirect. -/
private theorem contains_prepared (hfinds : io.Finds) (location : Text) (resp : Response B) :
    io.contains (prepared io location resp).fields (text "Location") =
      io.contains resp.fields (text "Location") := by
  have hlength : iequals (text "Content-Length") (text "Location") = false := by decide
  have hencoding : iequals (text "Transfer-Encoding") (text "Location") = false := by decide
  rw [prepared, hfinds.contains_unchunk _ _ hencoding, hfinds.contains_set, hlength, Bool.false_or,
    unchunked, hfinds.contains_erase _ _ _ hlength, hfinds.contains_unchunk _ _ hencoding]

/-- A response redirects. -/
private def Redirects (io : ResponseIO B) (resp : Response B) : Prop :=
  io.contains resp.fields (text "Location") = true ∧ 300 ≤ resp.result ∧ resp.result ≤ 399

/-- A reference behind a location, if it begins with a slash. -/
private def behind (location reference : Text) : Text :=
  if reference.head? = some '/'.toUInt8 then location ++ reference else reference

/-- A redirect changes neither the status nor the body. -/
private theorem redirected_same (io : ResponseIO B) (h : ReverseProxyRequestHandler) (resp : Response B) :
    (h.redirected io resp).result = resp.result ∧ (h.redirected io resp).body = resp.body := by
  rw [ReverseProxyRequestHandler.redirected]
  split_ifs <;> exact ⟨rfl, rfl⟩

/-- What a redirect is changed to. -/
private theorem fields_redirected (h : ReverseProxyRequestHandler) (resp : Response B) :
    (Redirects io resp → (h.redirected io resp).fields = B.set resp.fields (text "Location")
        (behind h.location (B.get resp.fields (text "Location")))) ∧
      (¬ Redirects io resp → (h.redirected io resp).fields = resp.fields) := by
  constructor
  · intro hredirects
    rw [Redirects] at hredirects
    rw [ReverseProxyRequestHandler.redirected, if_pos hredirects]
    rfl
  · intro hnone
    rw [Redirects] at hnone
    rw [ReverseProxyRequestHandler.redirected, if_neg hnone]

/-- A location in front of another one stands in front of the references behind it. -/
private theorem behind_behind {cwd path inner : Text}
    (hlocation : convertToAbsolutePath cwd path = .ok inner) (outer reference : Text) :
    behind outer (behind inner reference) = behind (outer ++ inner) reference := by
  rw [behind, behind, behind]
  by_cases hslash : reference.head? = some '/'.toUInt8
  · have hhead : (inner ++ reference).head? = some '/'.toUInt8 := by
      by_cases hne : inner = []
      · rw [hne]
        exact hslash
      · obtain ⟨c, rest, rfl, -⟩ := exists_front hlocation hne
        rfl
    rw [if_pos hslash, if_pos hslash, if_pos hhead, List.append_assoc]
  · rw [if_neg hslash, if_neg hslash, if_neg hslash]

/-- The redirect that both proxies answer with is the one of the proxy with both locations. -/
private theorem get_redirected_both {cwd path : Text} (hio : io.Lawful) (hfinds : io.Finds)
    (hlocation : convertToAbsolutePath cwd path = .ok inner.location)
    (htrimmed : IsTrimmed (B.get resp.fields (text "Location"))) {name : Text}
    (hname : iequals (text "Transfer-Encoding") name = false)
    (hlength : iequals (text "Content-Length") name = false) :
    B.get (outer.redirected io (prepared io inner.location (inner.redirected io resp))).fields name =
      B.get ((outer.through inner).redirected io resp).fields name := by
  have hself : iequals (text "Location") (text "Location") = true := by decide
  have hlengthLocation : iequals (text "Content-Length") (text "Location") = false := by decide
  have hencoding : iequals (text "Transfer-Encoding") (text "Location") = false := by decide
  have hprepared (other : Text) (hother : iequals (text "Transfer-Encoding") other = false)
      (hotherLength : iequals (text "Content-Length") other = false) :
      B.get (prepared io inner.location (inner.redirected io resp)).fields other =
        B.get (inner.redirected io resp).fields other := by
    rw [get_prepared hio _ _ hother, hotherLength, if_neg Bool.false_ne_true]
  have hresult : (prepared io inner.location (inner.redirected io resp)).result = resp.result :=
    (redirected_same io inner resp).1
  by_cases hredirects : Redirects io resp
  · have hinner := (fields_redirected inner resp).1 hredirects
    have hcontains : io.contains (prepared io inner.location (inner.redirected io resp)).fields
        (text "Location") = true := by
      rw [contains_prepared hfinds, hinner, hfinds.contains_set, hself, Bool.true_or]
    have hagain : Redirects io (prepared io inner.location (inner.redirected io resp)) :=
      ⟨hcontains, hresult.symm ▸ hredirects.2⟩
    have hvalue : B.get (prepared io inner.location (inner.redirected io resp)).fields
        (text "Location") = behind inner.location (B.get resp.fields (text "Location")) := by
      rw [hprepared _ hencoding hlengthLocation, hinner, B.get_set, if_pos hself, behind]
      by_cases hslash : (B.get resp.fields (text "Location")).head? = some '/'.toUInt8
      · rw [if_pos hslash, trim_location hlocation htrimmed hslash]
      · rw [if_neg hslash, trim_eq_self htrimmed.1 htrimmed.2]
    rw [(fields_redirected outer _).1 hagain, (fields_redirected (outer.through inner) resp).1 hredirects,
      hvalue, behind_behind hlocation, B.get_set, B.get_set]
    by_cases hredirect : iequals (text "Location") name = true
    · rw [if_pos hredirect, if_pos hredirect]
      rfl
    · rw [if_neg hredirect, if_neg hredirect, hprepared _ hname hlength, hinner, B.get_set,
        if_neg hredirect]
  · have hinner := (fields_redirected inner resp).2 hredirects
    have hagain : ¬ Redirects io (prepared io inner.location (inner.redirected io resp)) := by
      intro hagain
      rw [Redirects, contains_prepared hfinds, hinner, hresult] at hagain
      exact hredirects hagain
    rw [(fields_redirected outer _).2 hagain, (fields_redirected (outer.through inner) resp).2 hredirects,
      hprepared _ hname hlength, hinner]

/-! ## Both proxies -/

/-- What both proxies answer with. -/
private def chainedAnswer (io : ResponseIO B) (outer inner : ReverseProxyRequestHandler)
    (resp : Response B) : Response B :=
  prepared io outer.location
    (outer.redirected io (prepared io inner.location (inner.redirected io resp)))

/-- A proxy answers with what it prepares. -/
private theorem respond_eq {h : ReverseProxyRequestHandler}
    (hopener : ∀ c ∈ h.location, isOpener c = false) (resp : Response B) :
    h.prepareProxiedResp io (h.redirected io resp) =
      if resp.body ≠ [] ∧ forbidsBody resp.result = true then .error (.thrown .invalidArgument)
      else .ok (prepared io h.location (h.redirected io resp)) := by
  obtain ⟨hresult, hbody⟩ := redirected_same io h resp
  rw [prepareProxiedResp_eq_ite hopener, hresult, hbody]

/-- A proxy that answers has not met a body that its status forbids. -/
private theorem respond_eq_ok {h : ReverseProxyRequestHandler}
    (hopener : ∀ c ∈ h.location, isOpener c = false) {answer : Response B}
    (hanswer : h.prepareProxiedResp io (h.redirected io resp) = .ok answer) :
    ¬ (resp.body ≠ [] ∧ forbidsBody resp.result = true) ∧
      answer = prepared io h.location (h.redirected io resp) := by
  rw [respond_eq hopener] at hanswer
  split_ifs at hanswer with hforbidden
  exact ⟨hforbidden, (Except.ok.inj hanswer).symm⟩

/-- The outer proxy does not fail when the inner one has not. -/
private theorem respond_chained (houter : ∀ c ∈ outer.location, isOpener c = false)
    (hallowed : ¬ (resp.body ≠ [] ∧ forbidsBody resp.result = true)) :
    outer.prepareProxiedResp io
        (outer.redirected io (prepared io inner.location (inner.redirected io resp))) =
      .ok (chainedAnswer io outer inner resp) := by
  have hagain : ¬ ((prepared io inner.location (inner.redirected io resp)).body ≠ [] ∧
      forbidsBody (prepared io inner.location (inner.redirected io resp)).result = true) := by
    obtain ⟨hresult, hbody⟩ := redirected_same io inner resp
    change ¬ (rewritten inner.location (inner.redirected io resp).body ≠ [] ∧
      forbidsBody (inner.redirected io resp).result = true)
    rw [ne_eq, rewritten_eq_nil_iff, hbody, hresult]
    exact hallowed
  rw [respond_eq houter, if_neg hagain]
  rfl

/-- The answers are alike exactly when their bodies are the same. -/
private theorem answeredAlike_iff {cwd path : Text} (hio : io.Lawful) (hfinds : io.Finds)
    (hlocation : convertToAbsolutePath cwd path = .ok inner.location)
    (htrimmed : IsTrimmed (B.get resp.fields (text "Location"))) :
    AnsweredAlike (chainedAnswer io outer inner resp)
        (prepared io (outer.through inner).location ((outer.through inner).redirected io resp)) ↔
      rewritten outer.location (rewritten inner.location resp.body) =
        rewritten (outer.location ++ inner.location) resp.body := by
  obtain ⟨hinnerResult, hinnerBody⟩ := redirected_same io inner resp
  obtain ⟨hbothResult, hbothBody⟩ := redirected_same io (outer.through inner) resp
  obtain ⟨houterResult, houterBody⟩ := redirected_same io outer
    (prepared io inner.location (inner.redirected io resp))
  have hchained : (outer.redirected io (prepared io inner.location (inner.redirected io resp))).body =
      rewritten inner.location resp.body := by
    rw [houterBody, prepared, hinnerBody]
  have hchainedBody : (chainedAnswer io outer inner resp).body =
      rewritten outer.location (rewritten inner.location resp.body) :=
    congrArg (rewritten outer.location) hchained
  have hsingleBody : (prepared io (outer.through inner).location
      ((outer.through inner).redirected io resp)).body =
        rewritten (outer.location ++ inner.location) resp.body :=
    congrArg (rewritten (outer.location ++ inner.location)) hbothBody
  constructor
  · intro halike
    exact hchainedBody.symm.trans (halike.body.trans hsingleBody)
  · intro hsame
    refine ⟨houterResult.trans (hinnerResult.trans hbothResult.symm), ?_, ?_⟩
    · exact hchainedBody.trans (hsame.trans hsingleBody.symm)
    · intro name hname
      rw [chainedAnswer, get_prepared hio _ _ hname, get_prepared hio _ _ hname]
      by_cases hlength : iequals (text "Content-Length") name = true
      · rw [if_pos hlength, if_pos hlength, hchained, hsame, hbothBody]
        rfl
      · rw [if_neg hlength, if_neg hlength]
        exact get_redirected_both hio hfinds hlocation htrimmed hname
          (Bool.eq_false_iff.mpr hlength)

/-- When the proxy behind a proxy answers and its response arrives, the outer proxy answers, and so
does one proxy with both locations that asks the same server. The answers are alike exactly when one
of the locations is the root, or no slash in the body of that server's response is escaped. -/
theorem chained_answeredAlike_iff {L : FieldList B} {cwd path : Text} (hio : io.Lawful)
    (hfinds : io.Finds) (hsees : SeesList L client)
    (hlocation : convertToAbsolutePath cwd path = .ok inner.location)
    (hinner : ∀ c ∈ inner.location, isOpener c = false)
    (houter : ∀ c ∈ outer.location, isOpener c = false)
    (htarget : outer.location ++ inner.location <+: req.target)
    (hanswers : Answers client (outer.through inner) req resp)
    (htrimmed : IsTrimmed (B.get resp.fields (text "Location")))
    (hbehind : AnsweredBehind io client inner outer outerClient req inside) :
    ∃ answer other, outer.handleRequest io outerClient req = .ok answer ∧
      (outer.through inner).handleRequest io client req = .ok other ∧
        (AnsweredAlike answer other ↔
          outer.location = [] ∨ inner.location = [] ∨ ¬ HasPlace escapedUrlRule resp.body) := by
  have hboth : ∀ c ∈ (outer.through inner).location, isOpener c = false := fun c hc =>
    (List.mem_append.mp hc).elim (houter c) (hinner c)
  have hsingle : (outer.through inner).handleRequest io client req =
      (outer.through inner).prepareProxiedResp io ((outer.through inner).redirected io resp) := by
    obtain ⟨target, hforwarded, hclient⟩ := hanswers
    rw [ReverseProxyRequestHandler.handleRequest, hforwarded, run_ok_bind, hclient, run_ok_bind]
  obtain ⟨hallowed, rfl⟩ := respond_eq_ok hinner (inside_eq hsees htarget hanswers hbehind)
  rw [outside_eq hbehind, respond_chained houter hallowed, hsingle, respond_eq hboth,
    if_neg hallowed]
  refine ⟨_, _, rfl, rfl, ?_⟩
  rw [answeredAlike_iff hio hfinds hlocation htrimmed, rewritten_rewritten_iff hlocation hinner]

/-- Fields of another name are found when those of one name are removed. -/
private theorem any_filter (fields : List (Text × Text)) {name other : Text}
    (hne : iequals name other = false) :
    ((fields.filter fun field => !iequals field.1 name).any fun field => iequals field.1 other) =
      fields.any fun field => iequals field.1 other := by
  have hkept (field : Text × Text) (hfield : iequals field.1 other = true) :
      iequals field.1 name = false := by
    rw [Bool.eq_false_iff]
    intro hname
    simp only [iequals, decide_eq_true_eq, decide_eq_false_iff_not] at hne hfield hname
    exact hne (hname.symm.trans hfield)
  rw [Bool.eq_iff_iff, List.any_eq_true, List.any_eq_true]
  constructor
  · rintro ⟨field, hmem, hfield⟩
    exact ⟨field, (List.mem_filter.mp hmem).1, hfield⟩
  · rintro ⟨field, hmem, hfield⟩
    exact ⟨field, List.mem_filter.mpr ⟨hmem, by rw [hkept field hfield]; rfl⟩, hfield⟩

/-- A container of lists finds what was set. -/
private theorem listsResponseIO_finds : listsResponseIO.Finds where
  contains_set := by
    intro fields name value other
    change ((((fields : List (Text × Text)).filter fun field => !iequals field.1 name) ++
      [(name, trim value)]).any fun field => iequals field.1 other) = _
    rw [List.any_append, List.any_cons, List.any_nil, Bool.or_false]
    by_cases hname : iequals name other = true
    · rw [hname, Bool.or_true, Bool.true_or]
    · rw [Bool.not_eq_true] at hname
      rw [any_filter fields hname, hname, Bool.or_false, Bool.false_or]
      rfl
  contains_erase fields _ _ hne := any_filter fields hne
  contains_unchunk fields _ hne := any_filter fields hne

/-- A redirect with a page of links. -/
def linkedRedirect : Response Beast.lists :=
  { redirectTo (text "/login") with body := text "<a href=\"/a\"><a href=\"//b\">url(\"/c)" }

/-- A proxy at `/mirror` that is behind another proxy. -/
def innerProxy : ReverseProxyRequestHandler where
  location := text "/mirror"
  host := text "www"
  port := text "80"

/-- A page is rewritten for both proxies. -/
theorem chained_answeredAlike_linkedRedirect : ∃ answer other,
    proxyHandler.handleRequest listsResponseIO
        (fun _ _ => innerProxy.handleRequest listsResponseIO fun _ _ _ => .ok linkedRedirect)
        { target := text "/proxy/mirror/a" } = .ok answer ∧
      (proxyHandler.through innerProxy).handleRequest listsResponseIO
        (fun _ _ _ => .ok linkedRedirect) { target := text "/proxy/mirror/a" } = .ok other ∧
        AnsweredAlike answer other := by
  have hlocation : convertToAbsolutePath (text "/") (text "/mirror") = .ok innerProxy.location := by
    decide
  have hsees : SeesList FieldList.lists fun _ _ (_ : Request Beast.lists) => .ok linkedRedirect :=
    fun _ _ _ _ _ => rfl
  have hanswers : Answers (fun _ _ _ => .ok linkedRedirect) (proxyHandler.through innerProxy)
      { target := text "/proxy/mirror/a" } linkedRedirect := ⟨_, rfl, rfl⟩
  obtain ⟨inside, hbehind⟩ : ∃ inside, AnsweredBehind listsResponseIO
      (fun _ _ _ => .ok linkedRedirect) innerProxy proxyHandler
      (fun _ _ => innerProxy.handleRequest listsResponseIO fun _ _ _ => .ok linkedRedirect)
      { target := text "/proxy/mirror/a" } inside := ⟨_, _, rfl, rfl, rfl⟩
  obtain ⟨answer, other, hanswer, hother, halike⟩ := chained_answeredAlike_iff
    listsResponseIO_lawful listsResponseIO_finds hsees hlocation (by decide) (by decide) (by decide)
    hanswers ⟨by decide, by decide⟩ hbehind
  exact ⟨answer, other, hanswer, hother, halike.mpr (.inr (.inr (by decide)))⟩

end Aite.Handlers
