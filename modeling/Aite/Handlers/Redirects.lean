import Aite.Handlers.BodyRewriting
import Aite.Routing.AbsolutePath

/-!
# References in redirects and in bodies

An absolute path of the other server is rewritten to one below the location of the proxy, in the
body of a response and in the target of a redirect. The passes over the body leave a reference
that begins with two slashes alone, since it names another host. The test for a redirect looks at
the first byte only.
-/

namespace Aite.Handlers

open Http Insertion Routing

/-- A reference to an absolute path of the same host: it begins with one slash. -/
def IsAbsolutePath (reference : Text) : Prop :=
  reference.head? = some '/'.toUInt8 ∧ reference.tail.head? ≠ some '/'.toUInt8

instance (reference : Text) : Decidable (IsAbsolutePath reference) :=
  inferInstanceAs (Decidable (_ ∧ _))

/-- A reference as a client of the proxy should see it. -/
def relocated (location reference : Text) : Text :=
  if IsAbsolutePath reference then location ++ reference else reference

/-- A value without blanks at its ends, as the container of fields stores it. -/
def IsTrimmed (value : Text) : Prop :=
  (∀ c ∈ value.head?, isBlank c = false) ∧ ∀ c ∈ value.getLast?, isBlank c = false

/-- Erasing fields and removing a transfer encoding leave the other fields alone. -/
structure ResponseIO.Lawful {B : Beast} (io : ResponseIO B) : Prop where
  get_erase : ∀ fields name other, iequals name other = false →
    B.get (io.erase fields name) other = B.get fields other
  get_unchunk : ∀ fields other, iequals (text "Transfer-Encoding") other = false →
    B.get (io.unchunk fields) other = B.get fields other

section Body

variable (h : ReverseProxyRequestHandler)

/-- The rule for the targets of links. -/
def hrefRule : Rule UInt8 := ⟨text "href=\"", text "/", '/'.toUInt8⟩

/-- A link's target is one of the references that are rewritten. -/
private theorem hrefRule_mem : hrefRule ∈ references := List.mem_cons_self

/-- Quotes alone end what is before the target of a link. -/
private theorem hrefRule_wellFormed :
    hrefRule.WellFormed (fun c => decide (c = '"'.toUInt8)) fun c => decide (c = '/'.toUInt8) where
  opener := ⟨text "href=", '"'.toUInt8, rfl, rfl⟩
  noCloser := by decide
  closer := ⟨'/'.toUInt8, [], rfl, rfl⟩
  noOpener := by decide
  disjoint := by decide

/-- The target of a link is rewritten exactly when it is an absolute path. -/
private theorem site_href_iff {reference : Text} (hne : reference ≠ []) :
    hrefRule.site (text "href=\"") (reference ++ text "\"") = true ↔ IsAbsolutePath reference := by
  cases reference with
  | nil => exact absurd rfl hne
  | cons c reference =>
    have hclosing : text "/" <+: c :: reference ++ text "\"" ↔ c = '/'.toUInt8 := by
      change ['/'.toUInt8] <+: c :: (reference ++ text "\"") ↔ _
      rw [List.cons_prefix_cons]
      simp only [List.nil_prefix, and_true, eq_comm]
    have hnext : (reference ++ text "\"").head? ≠ some '/'.toUInt8 ↔
        reference.head? ≠ some '/'.toUInt8 := by
      cases reference with
      | nil => decide
      | cons d reference => exact Iff.rfl
    rw [Rule.site_iff]
    change text "href=\"" <:+ text "href=\"" ∧ text "/" <+: c :: reference ++ text "\"" ∧
      (reference ++ text "\"").head? ≠ some '/'.toUInt8 ↔ _
    rw [hclosing, hnext, IsAbsolutePath, List.head?_cons, Option.some.injEq, List.tail_cons]
    exact and_iff_right (List.suffix_refl _)

/-- Before a link's target there is nothing to rewrite. -/
private theorem insertAll_opening (location rest : Text) :
    insertAll hrefRule.site location [] (text "href=\"" ++ rest) =
      text "href=\"" ++ insertAll hrefRule.site location (text "href=\"") rest := by
  apply insertAll_append
  intro u v huv hv
  rw [Bool.eq_false_iff, ne_eq, Rule.site_iff]
  rintro ⟨hopening, -⟩
  have hlength := hopening.length_le
  have htotal := congrArg List.length huv
  have hpositive := List.length_pos_of_ne_nil hv
  change (text "href=\"").length ≤ u.length at hlength
  rw [List.length_append] at htotal
  omega

/-- Within a link's target and behind it there is nothing to rewrite. -/
private theorem insertAll_target (location : Text) (c : UInt8) {target : Text}
    (hc : c ≠ '"'.toUInt8) (htarget : '"'.toUInt8 ∉ target) :
    insertAll hrefRule.site location (text "href=\"" ++ [c]) (target ++ text "\"") =
      target ++ text "\"" := by
  have hapart : ∀ u v, target ++ text "\"" = u ++ v → v ≠ [] →
      hrefRule.site (text "href=\"" ++ [c] ++ u) (v ++ []) = false := by
    intro u v huv hv
    rw [List.append_nil, List.append_assoc, List.singleton_append]
    apply hrefRule_wellFormed.site_append _ _ (List.cons_ne_nil _ _)
    have hwithin : u <+: target := by
      have hdrop : u ++ v.dropLast = target := by
        rw [← List.dropLast_append_of_ne_nil hv, ← huv]
        exact List.dropLast_concat
      exact ⟨_, hdrop⟩
    intro d hd
    rw [decide_eq_false_iff_not]
    cases List.mem_cons.mp hd with
    | inl hd => exact hd ▸ hc
    | inr hd => exact fun heq => htarget (heq ▸ hwithin.subset hd)
  have hnone : insertAll hrefRule.site location _ ((target ++ text "\"") ++ []) = _ :=
    insertAll_append (text "href=\"" ++ [c]) [] hapart
  rw [List.append_nil, insertAll, hrefRule_wellFormed.site_nil, if_neg Bool.false_ne_true,
    List.append_nil] at hnone
  exact hnone

/-- A link is rewritten like its target. -/
theorem replacedAbsolutePaths_href {reference : Text} (hquote : '"'.toUInt8 ∉ reference) :
    h.replacedAbsolutePaths (text "href=\"" ++ (reference ++ text "\"")) (text "href=\"")
        (text "/") = .ok (text "href=\"" ++ (relocated h.location reference ++ text "\"")) := by
  have hpass := replacedAbsolutePaths_eq h hrefRule_mem
    (text "href=\"" ++ (reference ++ text "\""))
  rw [insertAll_opening] at hpass
  refine hpass.trans (congrArg (fun rest => Except.ok (text "href=\"" ++ rest)) ?_)
  cases reference with
  | nil =>
    have hempty : relocated h.location [] = [] := if_neg (by decide)
    have hsite : hrefRule.site (text "href=\"") (text "\"") = false := by decide
    rw [hempty, List.nil_append]
    change insertAll hrefRule.site h.location (text "href=\"") ('"'.toUInt8 :: []) = _
    rw [insertAll, insertAll, hrefRule_wellFormed.site_nil]
    rw [show hrefRule.site (text "href=\"") ['"'.toUInt8] = false from hsite]
    rfl
  | cons c reference =>
    obtain ⟨hc, htarget⟩ : '"'.toUInt8 ≠ c ∧ '"'.toUInt8 ∉ reference := by
      simpa only [List.mem_cons, not_or] using hquote
    have hsite := site_href_iff (List.cons_ne_nil c reference)
    rw [List.cons_append, insertAll, insertAll_target h.location c (Ne.symm hc) htarget,
      relocated]
    by_cases hpath : IsAbsolutePath (c :: reference)
    · have hplace : hrefRule.site (text "href=\"") (c :: (reference ++ text "\"")) = true :=
        hsite.mpr hpath
      rw [hplace, if_pos rfl, if_pos hpath, List.append_assoc, List.cons_append]
    · have hplace : ¬ hrefRule.site (text "href=\"") (c :: (reference ++ text "\"")) = true :=
        fun htrue => hpath (hsite.mp htrue)
      rw [if_neg hplace, if_neg hpath, List.nil_append, List.cons_append]

/-- A client that follows a rewritten reference makes the proxy forward the original one. -/
theorem forwardedTarget_append {reference : Text} (hne : reference ≠ []) :
    h.forwardedTarget (h.location ++ reference) = .ok reference := by
  rw [ReverseProxyRequestHandler.forwardedTarget, if_pos (by simp), List.drop_left]
  exact congrArg Except.ok (if_neg hne)

end Body

section Redirect

variable {B : Beast}

/-- The other server's response to the request that the proxy sends on. -/
def Answers (client : Text → Text → Request B → Run (Response B)) (h : ReverseProxyRequestHandler)
    (req : Request B) (resp : Response B) : Prop :=
  ∃ target, h.forwardedTarget req.target = .ok target ∧
    client h.host h.port (h.proxiedRequest req target) = .ok resp

/-- A redirect's target is rewritten like the same reference in a body, and so that following it
gets to the original path. -/
structure TreatsAlike (h : ReverseProxyRequestHandler) (reference : Text)
    (proxied : Response B) : Prop where
  location : B.get proxied.fields (text "Location") = relocated h.location reference
  body : '"'.toUInt8 ∉ reference →
    h.replacedAbsolutePaths (text "href=\"" ++ (reference ++ text "\"")) (text "href=\"")
      (text "/") = .ok (text "href=\"" ++ (relocated h.location reference ++ text "\""))
  forwards : IsAbsolutePath reference →
    h.forwardedTarget (relocated h.location reference) = .ok reference

variable {io : ResponseIO B} {client : Text → Text → Request B → Run (Response B)}
  {h : ReverseProxyRequestHandler} {req : Request B} {resp proxied : Response B}

/-- Preparing a response leaves its redirect alone. -/
private theorem get_prepareProxiedResp (hio : io.Lawful)
    (hproxied : h.prepareProxiedResp io resp = .ok proxied) :
    B.get proxied.fields (text "Location") = B.get resp.fields (text "Location") := by
  rw [prepareProxiedResp_passes, preparePayload] at hproxied
  split_ifs at hproxied
  rw [← Except.ok.inj hproxied]
  have hlength : iequals (text "Content-Length") (text "Location") = false := by decide
  have hencoding : iequals (text "Transfer-Encoding") (text "Location") = false := by decide
  rw [hio.get_unchunk _ _ hencoding, B.get_set, hlength, if_neg Bool.false_ne_true, unchunked,
    hio.get_erase _ _ _ hlength, hio.get_unchunk _ _ hencoding]

/-- With the location of a proxy in front of it, a reference that begins with a slash still has no
blanks at its ends. -/
theorem trim_location {cwd path reference : Text}
    (hlocation : convertToAbsolutePath cwd path = .ok h.location) (hreference : IsTrimmed reference)
    (hslash : reference.head? = some '/'.toUInt8) :
    trim (h.location ++ reference) = h.location ++ reference := by
  have hne : reference ≠ [] := by
    rintro rfl
    cases hslash
  obtain ⟨-, hjoined⟩ := convertToAbsolutePath_eq_ok_iff.mp hlocation
  have hhead : (h.location ++ reference).head? = some '/'.toUInt8 := by
    rw [hjoined]
    cases normalComponents cwd path with
    | nil => exact hslash
    | cons dir dirs => rfl
  apply trim_eq_self
  · rw [hhead]
    decide
  · rw [List.getLast?_append_of_ne_nil _ hne]
    exact hreference.2

/-- A reference that names another host. -/
def IsProtocolRelative (reference : Text) : Prop := text "//" <+: reference

/-- The first byte alone tells an absolute path unless the reference names another host. -/
private theorem isAbsolutePath_iff {reference : Text} :
    IsAbsolutePath reference ↔
      reference.head? = some '/'.toUInt8 ∧ ¬ IsProtocolRelative reference := by
  refine and_congr_right fun hslash => not_congr ?_
  cases reference with
  | nil => cases hslash
  | cons c reference =>
    obtain rfl : c = '/'.toUInt8 := by simpa using hslash
    change reference.head? = some '/'.toUInt8 ↔
      '/'.toUInt8 :: ['/'.toUInt8] <+: '/'.toUInt8 :: reference
    cases reference with
    | nil => simp
    | cons d reference => simp [List.cons_prefix_cons, eq_comm]

/-- The target of the redirect that the proxy answers with. -/
theorem get_redirected {cwd path : Text}
    (hlocation : convertToAbsolutePath cwd path = .ok h.location)
    (hcontains : io.contains resp.fields (text "Location") = true)
    (hstatus : 300 ≤ resp.result ∧ resp.result ≤ 399)
    (htrimmed : IsTrimmed (B.get resp.fields (text "Location"))) :
    B.get (h.redirected io resp).fields (text "Location") =
      if (B.get resp.fields (text "Location")).head? = some '/'.toUInt8 then
        h.location ++ B.get resp.fields (text "Location")
      else B.get resp.fields (text "Location") := by
  have hsame : iequals (text "Location") (text "Location") = true := by decide
  rw [ReverseProxyRequestHandler.redirected, if_pos ⟨hcontains, hstatus⟩]
  change B.get (B.set resp.fields (text "Location") _) (text "Location") = _
  rw [B.get_set, if_pos hsame]
  by_cases hslash : (B.get resp.fields (text "Location")).head? = some '/'.toUInt8
  · rw [if_pos hslash, trim_location hlocation htrimmed hslash]
  · rw [if_neg hslash, trim_eq_self htrimmed.1 htrimmed.2]

/-- A redirect is treated like the same reference in a body exactly when it does not name another
host, or the proxy is at the root. -/
theorem handleRequest_treatsAlike_iff {cwd path : Text} (hio : io.Lawful)
    (hlocation : convertToAbsolutePath cwd path = .ok h.location)
    (hanswers : Answers client h req resp) (hproxied : h.handleRequest io client req = .ok proxied)
    (hcontains : io.contains resp.fields (text "Location") = true)
    (hstatus : 300 ≤ resp.result ∧ resp.result ≤ 399)
    (htrimmed : IsTrimmed (B.get resp.fields (text "Location"))) :
    TreatsAlike h (B.get resp.fields (text "Location")) proxied ↔
      ¬ IsProtocolRelative (B.get resp.fields (text "Location")) ∨ h.location = [] := by
  obtain ⟨target, htarget, hclient⟩ := hanswers
  rw [ReverseProxyRequestHandler.handleRequest, htarget, run_ok_bind, hclient, run_ok_bind]
    at hproxied
  have hvalue := (get_prepareProxiedResp hio hproxied).trans
    (get_redirected hlocation hcontains hstatus htrimmed)
  generalize B.get resp.fields (text "Location") = reference at hvalue ⊢
  have hlocated : B.get proxied.fields (text "Location") = relocated h.location reference ↔
      ¬ IsProtocolRelative reference ∨ h.location = [] := by
    rw [hvalue, relocated]
    by_cases hslash : reference.head? = some '/'.toUInt8
    · by_cases hother : IsProtocolRelative reference
      · have hpath : ¬ IsAbsolutePath reference := fun hpath => (isAbsolutePath_iff.mp hpath).2 hother
        rw [if_pos hslash, if_neg hpath, List.append_left_eq_self]
        simp [hother]
      · rw [if_pos hslash, if_pos (isAbsolutePath_iff.mpr ⟨hslash, hother⟩)]
        simp [hother]
    · have hother : ¬ IsProtocolRelative reference := by
        rintro ⟨rest, rfl⟩
        exact hslash rfl
      rw [if_neg hslash, if_neg fun hpath => hslash hpath.1]
      simp [hother]
  refine ⟨fun halike => hlocated.mp halike.location, fun hcondition => ?_⟩
  refine ⟨hlocated.mpr hcondition, replacedAbsolutePaths_href h, fun hpath => ?_⟩
  rw [relocated, if_pos hpath]
  refine forwardedTarget_append h ?_
  rintro rfl
  cases hpath.1

end Redirect

/-- A container of lists has the laws that the proxy relies on. -/
theorem listsResponseIO_lawful : listsResponseIO.Lawful :=
  ⟨fun fields _ _ hne => listFieldsGet_filter fields hne,
    fun fields _ hne => listFieldsGet_filter fields hne⟩

/-- A redirect to a reference. -/
def redirectTo (reference : Text) : Response Beast.lists where
  result := 302
  fields := Beast.lists.set Beast.lists.empty (text "Location") reference

/-- A redirect to a path of the other server. -/
theorem handleRequest_treatsAlike_login : ∃ proxied : Response Beast.lists,
    proxyHandler.handleRequest listsResponseIO (fun _ _ _ => .ok (redirectTo (text "/login")))
        { target := text "/proxy/a" } = .ok proxied ∧
      (TreatsAlike proxyHandler (text "/login") proxied ↔
        ¬ IsProtocolRelative (text "/login") ∨ proxyHandler.location = []) := by
  have hlocation : convertToAbsolutePath (text "/") (text "/proxy") = .ok proxyHandler.location := by
    decide
  have hanswers : Answers (fun _ _ _ => .ok (redirectTo (text "/login"))) proxyHandler
      { target := text "/proxy/a" } (redirectTo (text "/login")) := ⟨_, rfl, rfl⟩
  have htrimmed : IsTrimmed (Beast.lists.get (redirectTo (text "/login")).fields (text "Location")) :=
    ⟨by decide, by decide⟩
  exact ⟨_, rfl, handleRequest_treatsAlike_iff listsResponseIO_lawful hlocation hanswers rfl rfl
    ⟨by decide, by decide⟩ htrimmed⟩

/-- A redirect to another host becomes one to the proxy. -/
theorem not_handleRequest_treatsAlike_otherHost :
    ¬ ∀ proxied, proxyHandler.handleRequest listsResponseIO
        (fun _ _ _ => .ok (redirectTo (text "//host/path"))) { target := text "/proxy/a" } = .ok proxied →
      TreatsAlike proxyHandler (text "//host/path") proxied := by
  intro h
  exact absurd (h _ rfl).location (by decide)

end Aite.Handlers
