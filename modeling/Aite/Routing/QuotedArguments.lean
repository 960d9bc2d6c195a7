import Aite.Config.Requote
import Aite.Routing.Table

/-!
# The server of a config with quoted arguments

A root and the path of a location are read without the quotes around them. The port number, the
type of a handler, and the host and the port of a proxy are read with them: a quoted port number
is 0, a quoted type is no type, and the proxy asks for a host with quotes in its name. So the
same server is set up exactly when none of these is put between quotes.
-/

namespace Aite.Routing

open BlockGrammar Config Handlers

/-- Two configs lead to the same port, and to the same handlers for the same locations under the
same types. The list of prefixes for the status page is left out: it has the locations as they are
spelled in the config. -/
structure SetUpAlike (config config' : Block Text) (r r' : Registry) : Prop where
  port : getPortNumber config' = getPortNumber config
  handlers : r'.handlers = r.handlers
  locations : r'.locationToHandler = r.locationToHandler
  types : r'.typeToHandler = r.typeToHandler

/-- A location whose type is not quoted, nor the host and the port of a proxy. -/
def ReadsAlike (d d' : LocationStatement) : Prop :=
  d'.type = d.type ∧ (d.type = text "ReverseProxyHandler" →
    (configLookup d'.config [] (text "host")).head? = (configLookup d.config [] (text "host")).head? ∧
      (configLookup d'.config [] (text "port")).head? =
        (configLookup d.config [] (text "port")).head?)

/-- The port number is not quoted, unless it counts as 0 anyway, and neither are the types of
handlers and the hosts and ports of proxies. -/
structure QuotesHarmless (config config' : Block Text) : Prop where
  port : ∀ value, configLookup config [text "server"] (text "port") = [value] →
    configLookup config' [text "server"] (text "port") = [value] ∨ atoi value = 0
  locations : List.Forall₂ ReadsAlike (locationStatements config) (locationStatements config')

/-- A location statement of the same type in which arguments may be between quotes. -/
structure LocationRequoted (d d' : LocationStatement) : Prop where
  location : SameOrQuoted d.location d'.location
  type : d'.type = d.type
  config : Requoted d.config d'.config

variable {fs : FileSystem} {cwd loc type w w' : Text} {config config' : Block Text}
  {d d' : LocationStatement} {handler handler' : Handler} {r r' s s' : Registry}

/-! ## Reading one word -/

/-- The quotes around a word are removed. -/
@[simp] theorem stripQuotes_quoteWord (w : Text) : stripQuotes (quoteWord w) = w := by
  have hlast : (quoteWord w).getLast? = some '"'.toUInt8 := by
    rw [quoteWord, List.getLast?_cons, List.getLast?_append]
    rfl
  have hlength : (quoteWord w).length - 2 = w.length := by
    simp only [quoteWord, List.length_cons, List.length_append, List.length_nil]
    omega
  rw [stripQuotes, if_pos ⟨rfl, hlast⟩, hlength]
  exact List.take_left

/-- A word without quotes is kept. -/
theorem stripQuotes_of_plain (h : IsPlain w) : stripQuotes w = w := by
  rw [stripQuotes, if_neg]
  exact fun hquotes => h.2 (List.mem_of_head? hquotes.1)

/-- A word and the same word between quotes are read alike when quotes are removed. -/
theorem stripQuotes_of_sameOrQuoted (h : SameOrQuoted w w') : stripQuotes w' = stripQuotes w := by
  cases h with
  | inl h => rw [h]
  | inr h => rw [h.2, stripQuotes_quoteWord, stripQuotes_of_plain h.1]

/-- A path is normalised without the quotes around it. -/
theorem convertToAbsolutePath_of_sameOrQuoted (h : SameOrQuoted w w') (cwd : Text) :
    convertToAbsolutePath cwd w' = convertToAbsolutePath cwd w := by
  rw [convertToAbsolutePath, convertToAbsolutePath, stripQuotes_of_sameOrQuoted h]

/-- A quoted number counts as 0. -/
theorem atoi_quoteWord (w : Text) : atoi (quoteWord w) = 0 := by
  have hnumber : leadingNumber (quoteWord w) = 0 := rfl
  rw [atoi, hnumber]
  rfl

/-- A quoted type is no type. -/
theorem quoteWord_notMem_handlerTypes (w : Text) : quoteWord w ∉ handlerTypes := by
  have hheads : ∀ type ∈ handlerTypes, type.head? ≠ some '"'.toUInt8 := by decide
  exact fun hmem => hheads _ hmem rfl

/-- Quotes do not change a port number that is 0, and set any other to 0. -/
theorem getPortNumber_eq_iff (h : Requoted config config') :
    getPortNumber config' = getPortNumber config ↔
      ∀ value, configLookup config [text "server"] (text "port") = [value] →
        configLookup config' [text "server"] (text "port") = [value] ∨ atoi value = 0 := by
  have hvalues := configLookup_requoted h [text "server"] (text "port")
  unfold getPortNumber
  generalize configLookup config [text "server"] (text "port") = values at hvalues
  generalize configLookup config' [text "server"] (text "port") = values' at hvalues
  cases hvalues with
  | nil => exact iff_of_true rfl fun value hvalue => absurd hvalue.symm (List.cons_ne_nil _ _)
  | @cons w w' rest rest' hw hrest =>
    cases hrest with
    | cons _ _ =>
      apply iff_of_true rfl
      intro value hvalue
      cases (List.cons.inj hvalue).2
    | nil =>
      change atoi w' = atoi w ↔ _
      simp only [List.cons.injEq, and_true, forall_eq']
      cases hw with
      | inl hw => exact iff_of_true (by rw [hw]) (Or.inl hw)
      | inr hw =>
        have hne : quoteWord w ≠ w := by
          intro heq
          have hlength := congrArg List.length heq
          simp only [quoteWord, List.length_cons, List.length_append, List.length_nil] at hlength
          omega
        rw [hw.2, atoi_quoteWord]
        simp only [hne, false_or]
        exact eq_comm

/-! ## Constructing a handler -/

/-- A constructor that reads alike what it takes from the first value. -/
private theorem firstValue_bind_eq {A : Type} {values values' : List Text} {f : Text → Run A}
    (h : List.Forall₂ SameOrQuoted values values')
    (hf : ∀ {w w'}, SameOrQuoted w w' → f w' = f w) :
    (firstValue values' >>= f) = (firstValue values >>= f) := by
  cases h with
  | nil => rfl
  | cons hw _ => exact hf hw

/-- Every handler but a proxy is constructed alike. -/
private theorem construct_eq (h : Requoted config config')
    (htype : type ≠ text "ReverseProxyHandler") :
    construct fs cwd type loc config' = construct fs cwd type loc config := by
  have hroot := configLookup_requoted h [] (text "root")
  have hstatic : newStaticFileRequestHandler fs cwd loc config' =
      newStaticFileRequestHandler fs cwd loc config := by
    apply firstValue_bind_eq hroot
    intro w w' hw
    rw [setRootPath, setRootPath, convertToAbsolutePath_of_sameOrQuoted hw]
  have hmeme : newMemeHandler config' = newMemeHandler config := by
    apply firstValue_bind_eq hroot
    intro w w' hw
    rw [stripQuotes_of_sameOrQuoted hw]
  simp only [construct, hstatic, hmeme, if_neg htype]

/-- The constructor of a proxy keeps the first host and the first port. -/
private theorem newReverseProxyRequestHandler_eq_ok {proxy : ReverseProxyRequestHandler} :
    newReverseProxyRequestHandler loc config = .ok proxy ↔
      proxy.location = loc ∧ (configLookup config [] (text "host")).head? = some proxy.host ∧
        (configLookup config [] (text "port")).head? = some proxy.port := by
  have hfirst {values : List Text} {value : Text} :
      firstValue values = .ok value ↔ values.head? = some value := by
    cases values <;> simp [firstValue]
  constructor
  · intro h
    obtain ⟨host, hhost, h⟩ := run_bind_eq_ok.mp h
    obtain ⟨port, hport, h⟩ := run_bind_eq_ok.mp h
    obtain rfl := Except.ok.inj h
    exact ⟨rfl, hfirst.mp hhost, hfirst.mp hport⟩
  · rintro ⟨rfl, hhost, hport⟩
    rw [newReverseProxyRequestHandler, hfirst.mpr hhost, run_ok_bind, hfirst.mpr hport, run_ok_bind]

/-- A proxy is constructed from its config. -/
private theorem construct_proxy :
    construct fs cwd (text "ReverseProxyHandler") loc config = (do
      let proxy ← newReverseProxyRequestHandler loc config
      .ok (some (.reverseProxy proxy))) := by
  simp only [construct, show text "ReverseProxyHandler" ≠ text "EchoHandler" by decide,
    show text "ReverseProxyHandler" ≠ text "StaticHandler" by decide, if_false, if_true]

/-- With quotes, a handler is constructed from a location as well. -/
theorem LocationRequoted.exists_built (h : LocationRequoted d d')
    (hbuilt : IsBuiltFrom fs cwd handler d) : ∃ handler', IsBuiltFrom fs cwd handler' d' := by
  obtain ⟨loc, hloc, hbuilt⟩ := hbuilt
  have hloc' : convertToAbsolutePath cwd d'.location = .ok loc := by
    rw [convertToAbsolutePath_of_sameOrQuoted h.location, hloc]
  by_cases htype : d.type = text "ReverseProxyHandler"
  · rw [htype, construct_proxy] at hbuilt
    obtain ⟨proxy, hproxy, -⟩ := run_bind_eq_ok.mp hbuilt
    obtain ⟨-, hhost, hport⟩ := newReverseProxyRequestHandler_eq_ok.mp hproxy
    have hhead {values values' : List Text} {value : Text}
        (hvalues : List.Forall₂ SameOrQuoted values values') (hsome : values.head? = some value) :
        ∃ value', values'.head? = some value' := by
      cases hvalues with
      | nil => cases hsome
      | cons _ _ => exact ⟨_, rfl⟩
    obtain ⟨host', hhost'⟩ := hhead (configLookup_requoted h.config [] (text "host")) hhost
    obtain ⟨port', hport'⟩ := hhead (configLookup_requoted h.config [] (text "port")) hport
    have hproxy' : newReverseProxyRequestHandler loc d'.config = .ok ⟨loc, host', port'⟩ :=
      newReverseProxyRequestHandler_eq_ok.mpr ⟨rfl, hhost', hport'⟩
    refine ⟨.reverseProxy ⟨loc, host', port'⟩, loc, hloc', ?_⟩
    rw [h.type, htype, construct_proxy, hproxy', run_ok_bind]
  · refine ⟨handler, loc, hloc', ?_⟩
    rw [h.type, construct_eq h.config htype, hbuilt]

/-- With quotes, the same handler is constructed exactly when they are around nothing that is read
with them. -/
theorem LocationRequoted.handler_eq_iff (h : LocationRequoted d d')
    (hbuilt : IsBuiltFrom fs cwd handler d) (hbuilt' : IsBuiltFrom fs cwd handler' d') :
    handler' = handler ↔ ReadsAlike d d' := by
  obtain ⟨loc, hloc, hbuilt⟩ := hbuilt
  obtain ⟨loc', hloc', hbuilt'⟩ := hbuilt'
  rw [convertToAbsolutePath_of_sameOrQuoted h.location, hloc] at hloc'
  obtain rfl := Except.ok.inj hloc'
  rw [ReadsAlike, h.type] at *
  by_cases htype : d.type = text "ReverseProxyHandler"
  · rw [htype, construct_proxy] at hbuilt hbuilt'
    obtain ⟨proxy, hproxy, hhandler⟩ := run_bind_eq_ok.mp hbuilt
    obtain ⟨proxy', hproxy', hhandler'⟩ := run_bind_eq_ok.mp hbuilt'
    obtain rfl := Option.some.inj (Except.ok.inj hhandler)
    obtain rfl := Option.some.inj (Except.ok.inj hhandler')
    obtain ⟨hlocation, hhost, hport⟩ := newReverseProxyRequestHandler_eq_ok.mp hproxy
    obtain ⟨hlocation', hhost', hport'⟩ := newReverseProxyRequestHandler_eq_ok.mp hproxy'
    have heq : proxy' = proxy ↔ proxy'.host = proxy.host ∧ proxy'.port = proxy.port := by
      cases proxy
      cases proxy'
      rw [ReverseProxyRequestHandler.mk.injEq]
      exact and_iff_right (hlocation'.trans hlocation.symm)
    simp only [htype, hhost, hport, hhost', hport', Option.some.injEq, true_and, true_imp_iff,
      Handler.reverseProxy.injEq, heq]
  · rw [construct_eq h.config htype, hbuilt] at hbuilt'
    have heq : handler' = handler := (Option.some.inj (Except.ok.inj hbuilt')).symm
    exact iff_of_true heq ⟨rfl, fun hproxy => absurd hproxy htype⟩

/-! ## The location statements -/

/-- A statement whose type is put between quotes is no location, any other stays one. -/
private theorem asLocation_requoted {words words' : List Text} (hwords : WordsRequoted words words')
    (hconfig : Requoted config config') :
    ∃ kept, kept.Sublist (asLocation words config) ∧
      List.Forall₂ LocationRequoted kept (asLocation words' config') := by
  obtain ⟨keyword, args, args', rfl, rfl, hargs⟩ := hwords
  cases hargs with
  | nil => exact ⟨[], List.nil_sublist _, .nil⟩
  | @cons location location' _ _ hlocation hargs =>
    cases hargs with
    | nil => exact ⟨[], List.nil_sublist _, .nil⟩
    | @cons type type' _ _ htype hargs =>
      cases hargs with
      | cons _ _ => exact ⟨[], List.nil_sublist _, .nil⟩
      | nil =>
        cases htype with
        | inl htype =>
          refine ⟨_, List.Sublist.refl _, ?_⟩
          rw [htype]
          simp only [asLocation]
          split_ifs
          · exact .cons ⟨hlocation, rfl, hconfig⟩ .nil
          · exact .nil
        | inr htype =>
          have hnone : asLocation [keyword, location', type'] config' = [] := by
            simp only [asLocation]
            rw [if_neg]
            exact fun hknown => quoteWord_notMem_handlerTypes type (htype.2 ▸ hknown.2)
          rw [hnone]
          exact ⟨[], List.nil_sublist _, .nil⟩

/-- The locations of a requoted server block, less those whose type is quoted. -/
private theorem locationsIn_requoted (h : Requoted config config') :
    ∃ kept, kept.Sublist (locationsIn config) ∧
      List.Forall₂ LocationRequoted kept (locationsIn config') := by
  induction h with
  | empty => exact ⟨[], List.Sublist.refl _, .nil⟩
  | simple _ _ ih => exact ih
  | nested hwords hbody _ _ ih =>
    obtain ⟨first, hfirst, hfirst'⟩ := asLocation_requoted hwords hbody
    obtain ⟨kept, hkept, hkept'⟩ := ih
    exact ⟨first ++ kept, hfirst.append hkept, List.rel_append hfirst' hkept'⟩

/-- The location statements of a requoted config, less those whose type is quoted. -/
theorem locationStatements_requoted (h : Requoted config config') :
    ∃ kept, kept.Sublist (locationStatements config) ∧
      List.Forall₂ LocationRequoted kept (locationStatements config') := by
  induction h with
  | empty => exact ⟨[], List.Sublist.refl _, .nil⟩
  | simple _ _ ih => exact ih
  | @nested words words' _ _ _ _ hwords hbody _ _ ih =>
    have hserver : words' = [text "server"] ↔ words = [text "server"] := by
      obtain ⟨first, args, args', rfl, rfl, hargs⟩ := hwords
      cases hargs <;> simp
    obtain ⟨kept, hkept, hkept'⟩ := ih
    simp only [locationStatements, hserver]
    split_ifs
    · obtain ⟨first, hfirst, hfirst'⟩ := locationsIn_requoted hbody
      exact ⟨first ++ kept, hfirst.append hkept, List.rel_append hfirst' hkept'⟩
    · exact ⟨kept, hkept, hkept'⟩

/-! ## Setting up the server -/

/-- Statements from which handlers can be built are all registered. -/
private theorem exists_registerAll {statements : List LocationStatement}
    (h : ∀ d ∈ statements, ∃ handler, IsBuiltFrom fs r.cwd handler d) :
    ∃ r', statements.foldlM (register fs) r = .ok r' := by
  induction statements generalizing r with
  | nil => exact ⟨r, rfl⟩
  | cons d statements ih =>
    obtain ⟨⟨handler, loc, hloc, hbuilt⟩, hrest⟩ := List.forall_mem_cons.mp h
    have hregister : ∃ next, register fs r d = .ok next ∧ next.cwd = r.cwd := by
      rw [register, createAndAddHandler, hloc, run_ok_bind, hbuilt, run_ok_bind]
      exact ⟨_, rfl, rfl⟩
    obtain ⟨next, hregister, hcwd⟩ := hregister
    rw [List.foldlM_cons, hregister, run_ok_bind]
    exact ih (hcwd ▸ hrest)

/-- Two servers have the same handlers at the same places of their tables. -/
structure TablesAlike (r s : Registry) : Prop where
  cwd : s.cwd = r.cwd
  handlers : s.handlers = r.handlers
  locations : s.locationToHandler = r.locationToHandler
  types : s.typeToHandler = r.typeToHandler

/-- Locations that are read alike fill the tables alike. -/
private theorem tablesAlike_registerAll {statements statements' : List LocationStatement}
    (h : List.Forall₂ (fun d d' => LocationRequoted d d' ∧ ReadsAlike d d') statements statements')
    (htypes : ∀ d ∈ statements, d.type ∈ handlerTypes) (halike : TablesAlike r s)
    (hscan : statements.foldlM (register fs) r = .ok r')
    (hscan' : statements'.foldlM (register fs) s = .ok s') : TablesAlike r' s' := by
  induction h generalizing r s with
  | nil =>
    cases hscan
    cases hscan'
    exact halike
  | @cons d d' statements statements' hd _ ih =>
    rw [List.foldlM_cons] at hscan hscan'
    obtain ⟨next, hregister, hscan⟩ := run_bind_eq_ok.mp hscan
    obtain ⟨next', hregister', hscan'⟩ := run_bind_eq_ok.mp hscan'
    obtain ⟨htype, hrest⟩ := List.forall_mem_cons.mp htypes
    obtain ⟨loc, handler, hloc, hbuilt, rfl⟩ := register_cases hregister htype
    obtain ⟨loc', handler', hloc', hbuilt', rfl⟩ :=
      register_cases hregister' (hd.1.type.symm ▸ htype)
    rw [halike.cwd] at hloc' hbuilt'
    obtain rfl := (hd.1.handler_eq_iff ⟨loc, hloc, hbuilt⟩ ⟨loc', hloc', hbuilt'⟩).mpr hd.2
    rw [convertToAbsolutePath_of_sameOrQuoted hd.1.location, hloc] at hloc'
    obtain rfl := Except.ok.inj hloc'
    apply ih hrest _ hscan hscan'
    exact ⟨halike.cwd, by rw [halike.handlers], by rw [halike.handlers, halike.locations],
      by rw [halike.handlers, halike.types, hd.1.type]⟩

/-- Locations from which the same handlers are built are read alike. -/
private theorem readsAlike_of_built {statements statements' : List LocationStatement}
    {handlers : List Handler} (h : List.Forall₂ LocationRequoted statements statements')
    (hbuilt : List.Forall₂ (IsBuiltFrom fs cwd) handlers statements)
    (hbuilt' : List.Forall₂ (IsBuiltFrom fs cwd) handlers statements') :
    List.Forall₂ ReadsAlike statements statements' := by
  induction h generalizing handlers with
  | nil => exact .nil
  | cons hd _ ih =>
    cases hbuilt with
    | cons hfirst hrest =>
      cases hbuilt' with
      | cons hfirst' hrest' =>
        exact .cons ((hd.handler_eq_iff hfirst hfirst').mp rfl) (ih hrest hrest')

/-- A server is set up from the requoted config as well. -/
theorem exists_setUp (h : Requoted config config') (hserver : getHandlers fs config { cwd } = .ok r) :
    ∃ r', getHandlers fs config' { cwd } = .ok r' := by
  obtain ⟨hholds, hcwd⟩ := holds_of_getHandlers hserver
  obtain ⟨kept, hsublist, hkept⟩ := locationStatements_requoted h
  rw [getHandlers_eq]
  apply exists_registerAll
  intro d' hd'
  obtain ⟨i, hi, rfl⟩ := List.mem_iff_getElem.mp hd'
  have hi' : i < kept.length := hkept.length_eq ▸ hi
  have hmem : kept[i] ∈ locationStatements config := hsublist.subset (List.getElem_mem hi')
  obtain ⟨j, hj, heq⟩ := List.mem_iff_getElem.mp hmem
  obtain ⟨handler, -, hbuilt⟩ := hholds.exists_handler (List.getElem?_eq_getElem hj)
  rw [heq, hcwd] at hbuilt
  exact (hkept.get hi' hi).exists_built hbuilt

/-- The same server is set up from a requoted config exactly when the quotes are around nothing
that is read with them. -/
theorem setUpAlike_iff (h : Requoted config config')
    (hserver : getHandlers fs config { cwd } = .ok r)
    (hserver' : getHandlers fs config' { cwd } = .ok r') :
    SetUpAlike config config' r r' ↔ QuotesHarmless config config' := by
  obtain ⟨hholds, hcwd⟩ := holds_of_getHandlers hserver
  obtain ⟨hholds', hcwd'⟩ := holds_of_getHandlers hserver'
  obtain ⟨kept, hsublist, hkept⟩ := locationStatements_requoted h
  have hall (hlength : (locationStatements config).length = (locationStatements config').length) :
      List.Forall₂ LocationRequoted (locationStatements config) (locationStatements config') := by
    rw [← hsublist.eq_of_length (hkept.length_eq.trans hlength.symm)]
    exact hkept
  constructor
  · intro halike
    refine ⟨(getPortNumber_eq_iff h).mp halike.port, ?_⟩
    have hbuilt := hholds.built
    have hbuilt' := hholds'.built
    rw [hcwd] at hbuilt
    rw [hcwd', halike.handlers] at hbuilt'
    exact readsAlike_of_built (hall (hbuilt.length_eq.symm.trans hbuilt'.length_eq)) hbuilt hbuilt'
  · intro hharmless
    rw [getHandlers_eq] at hserver hserver'
    have hboth := List.Forall₂.mp (fun _ _ => And.intro) (hall hharmless.locations.length_eq)
      hharmless.locations
    have htables := tablesAlike_registerAll hboth
      (fun _ hd => type_mem_of_mem_locationStatements hd) ⟨rfl, rfl, rfl, rfl⟩ hserver hserver'
    exact ⟨(getPortNumber_eq_iff h).mpr hharmless.port, htables.handlers, htables.locations,
      htables.types⟩

/-- Putting arguments of an accepted config between quotes gives an accepted config, and the same
server is set up from it exactly when the quotes are around nothing that is read with them. -/
theorem quotedArguments_iff {file file' : Text} {store : Store} {toks toks' : List (Sym Token)}
    (hparse : parseText file = .ok (true, store)) (hconfig : Config.Holds store 0 config)
    (htoks : TokensOf file toks) (htoks' : TokensOf file' toks')
    (hquotes : Requotes false toks toks') (hserver : getHandlers fs config { cwd } = .ok r) :
    ∃ store' config' r', parseText file' = .ok (true, store') ∧ Config.Holds store' 0 config' ∧
      getHandlers fs config' { cwd } = .ok r' ∧
        (SetUpAlike config config' r r' ↔ QuotesHarmless config config') := by
  obtain ⟨store', config', hparse', hconfig', hrequoted⟩ :=
    parseText_requoted hparse hconfig htoks htoks' hquotes
  obtain ⟨r', hserver'⟩ := exists_setUp hrequoted hserver
  exact ⟨store', config', r', hparse', hconfig', hserver', setUpAlike_iff hrequoted hserver hserver'⟩

/-- A config with a port and a location. -/
def portConfig (port location : Text) : Block Text :=
  .nested [text "server"] (.simple [text "port", port]
    (.nested [text "location", location, text "EchoHandler"] .empty .empty)) .empty

/-- The configs of the parser for this one. -/
def portStore (port location : Text) : Store :=
  [⟨[⟨[text "server"], some 1⟩]⟩, ⟨[⟨[text "port", port], none⟩,
    ⟨[text "location", location, text "EchoHandler"], some 2⟩]⟩, ⟨[]⟩]

/-- They stand for this config. -/
private theorem holds_portStore (port location : Text) :
    Config.Holds (portStore port location) 0 (portConfig port location) := by
  refine ⟨_, rfl, 1, _, [], rfl, List.not_mem_nil, rfl, ?_, rfl⟩
  exact ⟨_, rfl, 2, _, [], rfl, List.not_mem_nil, rfl, rfl, rfl⟩

/-- The tokens of this config, with one word for the port and one for the path of the location. -/
def portTokens (port location : Token) : List (Sym Token) :=
  [.word ⟨false, text "server"⟩, .enter, .word ⟨false, text "port"⟩, .word port, .stop,
    .word ⟨false, text "location"⟩, .word location, .word ⟨false, text "EchoHandler"⟩, .enter, .leave,
    .leave]

/-- The tokens of a config without quotes. -/
private theorem tokensOf_unquoted :
    TokensOf (text "server\x7bport 80;location /a EchoHandler\x7b\x7d\x7d")
      (portTokens ⟨false, text "80"⟩ ⟨false, text "/a"⟩) :=
  ⟨12, .normal rfl (.enter rfl (.normal rfl (.normal rfl (.stop rfl (.normal rfl (.normal rfl
    (.normal rfl (.enter rfl (.leave rfl (.leave rfl (.eof rfl)))))))))))⟩

/-- No handler is needed from the file system. -/
private def noFiles : FileSystem := ⟨fun _ => false, fun _ => none⟩

/-- A path may be put between quotes. -/
theorem quotedArguments_path : ∃ r, getHandlers noFiles (portConfig (text "80") (text "/a")) {} = .ok r ∧
    ∃ store' config' r',
      parseText (text "server\x7bport 80;location \"/a\" EchoHandler\x7b\x7d\x7d") =
          .ok (true, store') ∧
        Config.Holds store' 0 config' ∧ getHandlers noFiles config' {} = .ok r' ∧
          (SetUpAlike (portConfig (text "80") (text "/a")) config' r r' ↔
            QuotesHarmless (portConfig (text "80") (text "/a")) config') := by
  have htoks' : TokensOf (text "server\x7bport 80;location \"/a\" EchoHandler\x7b\x7d\x7d")
      (portTokens ⟨false, text "80"⟩ ⟨true, quoteWord (text "/a")⟩) :=
    ⟨12, .normal rfl (.enter rfl (.normal rfl (.normal rfl (.stop rfl (.normal rfl
      (.quoted rfl ⟨rfl, rfl⟩ (.normal rfl (.enter rfl (.leave rfl (.leave rfl (.eof rfl)))))))))))⟩
  have hquotes : Requotes false (portTokens ⟨false, text "80"⟩ ⟨false, text "/a"⟩)
      (portTokens ⟨false, text "80"⟩ ⟨true, quoteWord (text "/a")⟩) :=
    .same (.same (.same (.same (.same (.same (.quote ⟨by decide, by decide⟩
      (.same (.same (.same (.same .nil))))))))))
  exact ⟨_, rfl, quotedArguments_iff rfl (holds_portStore (text "80") (text "/a"))
    tokensOf_unquoted htoks' hquotes rfl⟩

/-- A quoted port number is 0. -/
theorem not_quotedArguments_port :
    ¬ ∀ (file file' : Text) (store store' : Store) (config config' : Block Text)
      (toks toks' : List (Sym Token)) (r r' : Registry),
      parseText file = .ok (true, store) → Config.Holds store 0 config → TokensOf file toks →
        TokensOf file' toks' → Requotes false toks toks' → parseText file' = .ok (true, store') →
          Config.Holds store' 0 config' → getHandlers noFiles config {} = .ok r →
            getHandlers noFiles config' {} = .ok r' → SetUpAlike config config' r r' := by
  intro h
  have htoks' : TokensOf (text "server\x7bport \"80\";location /a EchoHandler\x7b\x7d\x7d")
      (portTokens ⟨true, quoteWord (text "80")⟩ ⟨false, text "/a"⟩) :=
    ⟨12, .normal rfl (.enter rfl (.normal rfl (.quoted rfl ⟨rfl, rfl⟩ (.stop rfl (.normal rfl
      (.normal rfl (.normal rfl (.enter rfl (.leave rfl (.leave rfl (.eof rfl)))))))))))⟩
  have hquotes : Requotes false (portTokens ⟨false, text "80"⟩ ⟨false, text "/a"⟩)
      (portTokens ⟨true, quoteWord (text "80")⟩ ⟨false, text "/a"⟩) :=
    .same (.same (.same (.quote ⟨by decide, by decide⟩ (.same (.same (.same
      (.same (.same (.same (.same .nil))))))))))
  have halike := h _ _ _ (portStore (quoteWord (text "80")) (text "/a")) _
    (portConfig (quoteWord (text "80")) (text "/a")) _ _ _ _ rfl
    (holds_portStore (text "80") (text "/a")) tokensOf_unquoted htoks' hquotes rfl
    (holds_portStore _ _) rfl rfl
  exact absurd halike.port (by decide)

end Aite.Routing
