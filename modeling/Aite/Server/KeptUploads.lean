import Aite.Server.StoredImages

/-!
# What becomes of the uploads

The server never deletes an upload. When the uuids of all uploads differ and no extension has a
slash, every upload has a file and an address of its own, so what one client has uploaded is not
changed by what any client does later. The other side of this is that an upload with a style that
does not exist stays too: from then on there is no page of all memes for anyone.
-/

namespace Aite

open Handlers Http KeyedList LexicalPath Routing SharedStore
open Session

variable {B : Beast} {d : Deployment B} {fs : FileSystem} {g : Global (Store B) (Client B)}

/-! ## Uploads that are kept -/

/-- The upload is there: its meme is in the gallery, and its image is in the file if this could be
opened. -/
structure Upload.Kept (u : Upload) (shared : Shared) : Prop where
  meme : shared.memes.lookup u.meme.1 = some u.meme.2
  image : u.outside.opens u.path = true → shared.fs.contents u.path = some u.form.image.body

/-- The uploads have uuids, no two of them the same, and no extension has a slash. -/
structure NamedApart (uploads : List Upload) : Prop where
  uuids : ∀ u ∈ uploads, IsUuid u.outside.uuid
  distinct : (uploads.map fun u => u.outside.uuid).Nodup
  extensions : ∀ u ∈ uploads, '/'.toUInt8 ∉ u.extension

/-- A file is the same as itself, and files with different names are different. -/
structure WithoutLinks (sameFile : Text → Text → Bool) : Prop where
  refl : ∀ path, sameFile path path = true
  names : ∀ root other name another, IsComponent name → IsComponent another →
    sameFile (appendPath root name) (appendPath other another) = true → name = another

/-- Names that were appended to paths can be told from these. -/
private theorem eq_of_appendPath_eq {root other name another : Text} (hname : IsComponent name)
    (hanother : IsComponent another) (h : appendPath root name = appendPath other another) :
    name = another := by
  have hhead {name : Text} (hname : IsComponent name) : name.head? ≠ some '/'.toUInt8 :=
    fun hslash => hname.1 (List.mem_of_head? hslash)
  have hsingle {name : Text} (hname : IsComponent name) : namesOf '/'.toUInt8 name = [name] := by
    rw [namesOf_of_notMem hname.1, if_neg (isComponent_ne hname).1]
  have hnames := congrArg (namesOf '/'.toUInt8) h
  rw [namesOf_appendPath root (hhead hname), namesOf_appendPath other (hhead hanother),
    hsingle hname, hsingle hanother] at hnames
  exact List.singleton_inj.mp (List.append_inj' hnames rfl).2

/-- Images with one name have one uuid. -/
private theorem uuid_of_imageName {u v : Upload} (hu : IsUuid u.outside.uuid)
    (hv : IsUuid v.outside.uuid)
    (h : imageName u.outside.uuid u.extension = imageName v.outside.uuid v.extension) :
    u.outside.uuid = v.outside.uuid := by
  rw [imageName, imageName, List.append_assoc, List.append_assoc] at h
  exact (List.append_inj h (hu.length.trans hv.length.symm)).1

/-- The name of the image of an upload. -/
private theorem NamedApart.isComponent {uploads : List Upload} (h : NamedApart uploads) {u : Upload}
    (hu : u ∈ uploads) : IsComponent (imageName u.outside.uuid u.extension) :=
  isComponent_imageName (h.uuids u hu) (h.extensions u hu)

/-- The memes of uploads that are named apart have different addresses. -/
theorem NamedApart.nodup_addresses {uploads : List Upload} (h : NamedApart uploads) :
    ((uploads.map Upload.meme).map Prod.fst).Nodup := by
  rw [List.map_map]
  refine List.Nodup.map_on ?_ h.distinct.of_map
  intro u hu v hv heq
  refine List.inj_on_of_nodup_map h.distinct hu hv ?_
  refine uuid_of_imageName (h.uuids u hu) (h.uuids v hv) ?_
  exact eq_of_appendPath_eq (h.isComponent hu) (h.isComponent hv) (List.append_cancel_left heq)

/-- A later upload is written to another file. -/
private theorem NamedApart.apart {before after : List Upload} {u : Upload}
    (h : NamedApart (before ++ u :: after)) {sameFile : Text → Text → Bool}
    (hfiles : WithoutLinks sameFile) :
    ∀ other ∈ after.filterMap Upload.stored?, sameFile u.path other.1 = false := by
  intro other hother
  obtain ⟨v, hv, hstored⟩ := List.mem_filterMap.mp hother
  rw [Upload.stored?] at hstored
  split_ifs at hstored
  obtain rfl := Option.some.inj hstored
  have hu : u ∈ before ++ u :: after := List.mem_append_right _ List.mem_cons_self
  have hv' : v ∈ before ++ u :: after := List.mem_append_right _ (List.mem_cons_of_mem _ hv)
  have hne : u.outside.uuid ≠ v.outside.uuid := by
    have hdistinct := h.distinct
    rw [List.map_append, List.map_cons] at hdistinct
    intro heq
    refine (List.nodup_cons.mp (List.Nodup.of_append_right hdistinct)).1 ?_
    exact heq ▸ List.mem_map_of_mem hv
  rw [Bool.eq_false_iff]
  intro hsame
  refine hne (uuid_of_imageName (h.uuids u hu) (h.uuids v hv') ?_)
  exact hfiles.names _ _ _ _ (h.isComponent hu) (h.isComponent hv') hsame

/-- In every run in which the uploads are named apart, the gallery is the memes of all uploads, and
every upload is kept. -/
theorem uploads_kept {moves : List (Move (Client B) ClientAction)}
    (hrun : SharedStore.Run d.site (d.start fs) moves g) (hfiles : WithoutLinks d.sameFile)
    (hnames : NamedApart (d.uploadsIn g.store.log)) :
    g.store.shared.memes.Perm (d.memesIn g.store.log) ∧
      ∀ u ∈ d.uploadsIn g.store.log, u.Kept g.store.shared := by
  obtain ⟨hkeys, hlookup⟩ := memes_replay d fs g.store.log
  rw [(ordered_of_run hrun).shared]
  refine ⟨perm_of_lookup_eq hkeys hnames.nodup_addresses hlookup, ?_⟩
  intro u hu
  refine ⟨?_, ?_⟩
  · rw [hlookup]
    exact (lookup_eq_some_iff hnames.nodup_addresses).mpr (List.mem_map_of_mem hu)
  · intro hopens
    obtain ⟨before, after, hsplit⟩ := List.append_of_mem hu
    have hstored : u.stored? = some (u.path, u.form.image.body) := if_pos hopens
    rw [hsplit] at hnames
    rw [fs_replay, Deployment.storedIn, hsplit, List.filterMap_append,
      List.filterMap_cons_some hstored]
    exact congrArg (fun found => Option.or found (fs.contents _))
      (lastStored_of_kept (hfiles.refl u.path) (hnames.apart hfiles))

/-- The small server, on which each client gets a uuid of its own. -/
def uuidSite : Deployment Beast.lists :=
  { smallSite with outside := fun client _ => if client = 0 then somewhere else elsewhere }

set_option maxRecDepth 8000 in
/-- Two clients upload the same form. -/
theorem uploads_kept_two : ∃ g,
    uuidSite.site.acts twoClients (uploads 1 ++ uploads 0) = some g ∧
      (uuidSite.uploadsIn g.store.log).length = 2 ∧
        g.store.shared.memes.Perm (uuidSite.memesIn g.store.log) ∧
          ∀ u ∈ uuidSite.uploadsIn g.store.log, u.Kept g.store.shared := by
  have hacts : (uuidSite.site.acts twoClients (uploads 1 ++ uploads 0)).isSome = true := rfl
  obtain ⟨g, hg⟩ := Option.isSome_iff_exists.mp hacts
  have huploads : ∃ form, uuidSite.uploadsIn g.store.log =
      [⟨memesHandler, elsewhere, form, text "png"⟩, ⟨memesHandler, somewhere, form, text "png"⟩] := by
    rw [← Option.some.inj hg]
    exact ⟨_, rfl⟩
  obtain ⟨form, huploads⟩ := huploads
  have hfiles : WithoutLinks uuidSite.sameFile :=
    ⟨fun path => decide_eq_true rfl, fun root other name another hname hanother hsame =>
      eq_of_appendPath_eq hname hanother (of_decide_eq_true hsame)⟩
  have hnames : NamedApart (uuidSite.uploadsIn g.store.log) := by
    have hdistinct : [elsewhere.uuid, somewhere.uuid].Nodup := by decide
    have hslash : '/'.toUInt8 ∉ text "png" := by decide
    rw [huploads]
    refine ⟨?_, hdistinct, ?_⟩
    · exact List.forall_mem_cons.mpr ⟨isUuid_elsewhere, List.forall_mem_singleton.mpr isUuid_somewhere⟩
    · exact List.forall_mem_cons.mpr ⟨hslash, List.forall_mem_singleton.mpr hslash⟩
  refine ⟨g, hg, by rw [huploads]; rfl, ?_⟩
  exact uploads_kept ((runs_twoClients uuidSite).acts hg) hfiles hnames

/-! ## The page of all memes -/

/-- The call asks a meme handler for the page of all memes. -/
def Deployment.Browses (d : Deployment B) (ptr : HandlerPtr) (req : Request B) : Prop :=
  ∃ h, d.registry.handlers[ptr]? = some (.meme h) ∧ h.initialised = true ∧
    req.target = text "/meme/browse"

/-- A number is a style when it has rules. -/
private theorem isChoice_iff {top bottom style : Text} {n : ℤ} (hn : stoi style = some n) :
    IsChoice [top, bottom, style] ↔ (browseStyle n).isSome = true := by
  constructor
  · rintro ⟨top', bottom', style', heq, hstyle⟩
    obtain ⟨rfl, rfl, rfl⟩ : top = top' ∧ bottom = bottom' ∧ style = style' := by simpa using heq
    obtain ⟨m, rules, css, hm, -, hcss⟩ := hstyle.exists_rules
    obtain rfl := Option.some.inj (hn.symm.trans hm)
    rw [hcss]
    rfl
  · intro hsome
    refine ⟨top, bottom, style, rfl, n, hn, ?_⟩
    by_contra hnone
    simp only [not_or] at hnone
    rw [browseStyle, if_neg hnone.1, if_neg hnone.2.1, if_neg hnone.2.2] at hsome
    cases hsome

/-- The loop over the memes has a page exactly when the styles of all memes exist. -/
private theorem browseLoop_isSome_iff {memes : Memes} {page : Option Text}
    (hmemes : ∀ entry ∈ memes, ∃ top bottom style, entry.2 = [top, bottom, style])
    (h : browseLoop memes = .ok page) :
    page.isSome = true ↔ ∀ entry ∈ memes, IsChoice entry.2 := by
  induction memes generalizing page with
  | nil =>
    obtain rfl := Except.ok.inj h
    simp
  | cons entry rest ih =>
    obtain ⟨imgUrl, selections⟩ := entry
    obtain ⟨hentry, hrest⟩ := List.forall_mem_cons.mp hmemes
    obtain ⟨top, bottom, style, rfl⟩ := hentry
    obtain ⟨n, hn, h⟩ := run_bind_eq_ok.mp h
    have hstoi : stoi style = some n := by
      rw [stoiRun] at hn
      split at hn
      · rename_i m hm
        rw [hm, Except.ok.inj hn]
      · cases hn
    rw [List.forall_mem_cons, isChoice_iff hstoi]
    cases hcss : browseStyle n with
    | none =>
      simp only [hcss] at h
      obtain rfl := Except.ok.inj h
      simp
    | some css =>
      simp only [hcss] at h
      obtain ⟨more, hmore, h⟩ := run_bind_eq_ok.mp h
      obtain rfl := Except.ok.inj h
      rw [Option.isSome_map, ih hrest hmore]
      simp

/-- A page of all memes that is answered shows them when all styles exist, and is an error page
otherwise. -/
private theorem browseMemes_cases {memes : Memes} {response : Response B}
    (hmemes : ∀ entry ∈ memes, ∃ top bottom style, entry.2 = [top, bottom, style])
    (h : MemeHandler.browseMemes memes = .ok response) :
    ((∀ entry ∈ memes, IsChoice entry.2) ∧ response.result = 200) ∨
      (¬ (∀ entry ∈ memes, IsChoice entry.2)) ∧
        response = showErrorPage B 400 (text "Invalid meme request") := by
  obtain ⟨page, hpage, h⟩ := run_bind_eq_ok.mp h
  have hmem : ∀ entry, entry ∈ inOrder memes ↔ entry ∈ memes := fun entry =>
    (List.perm_insertionSort _ memes).mem_iff
  have hsome := browseLoop_isSome_iff (fun entry hentry => hmemes entry ((hmem entry).mp hentry)) hpage
  simp only [hmem] at hsome
  cases page with
  | none =>
    refine Or.inr ⟨fun hall => ?_, (Except.ok.inj h).symm⟩
    cases hsome.mpr hall
  | some page =>
    refine Or.inl ⟨hsome.mp rfl, ?_⟩
    obtain rfl := Except.ok.inj h
    rfl

/-- What a call of the page of all memes is answered in a run. -/
private theorem browse_cases {moves : List (Move (Client B) ClientAction)}
    (hrun : SharedStore.Run d.site (d.start fs) moves g) {before after : List (Entry B)}
    {client number : ℕ} {ptr : HandlerPtr} {req : Request B} {response : Response B}
    (hlog : g.store.log = before ++ .call client number ptr req response :: after)
    (hbrowses : d.Browses ptr req) :
    ((∀ imgUrl selections, (d.memesIn before).lookup imgUrl = some selections →
        IsChoice selections) ∧ response.result = 200) ∨
      (∃ imgUrl selections, (d.memesIn before).lookup imgUrl = some selections ∧
        ¬ IsChoice selections) ∧ response = showErrorPage B 400 (text "Invalid meme request") := by
  obtain ⟨h, hmeme, hinit, htarget⟩ := hbrowses
  obtain ⟨hkeys, hlookup⟩ := memes_replay d fs before
  have hpage := browseMemes_of_answer hmeme hinit htarget
    ((ordered_of_run hrun).answers before client number ptr req response after hlog)
  have hentry (imgUrl : Text) (selections : List Text) :
      (imgUrl, selections) ∈ (d.replay { fs } before).memes ↔
        (d.memesIn before).lookup imgUrl = some selections := by
    rw [← hlookup, lookup_eq_some_iff hkeys]
  have hselections : ∀ entry ∈ (d.replay { fs } before).memes,
      ∃ top bottom style, entry.2 = [top, bottom, style] := by
    intro entry hmem
    obtain ⟨u, -, heq⟩ := List.mem_map.mp (mem_of_lookup ((hentry entry.1 entry.2).mp hmem))
    exact ⟨_, _, _, (congrArg Prod.snd heq).symm⟩
  have hall : (∀ entry ∈ (d.replay { fs } before).memes, IsChoice entry.2) ↔
      ∀ imgUrl selections, (d.memesIn before).lookup imgUrl = some selections →
        IsChoice selections := by
    simp only [Prod.forall, hentry]
  have hcases := browseMemes_cases hselections hpage
  rw [hall] at hcases
  simpa only [not_forall, exists_prop] using hcases

/-- In every run, the page of all memes is an error page exactly when the first upload to some
address, of whatever client, had a style that does not exist. From then on, every client that asks
for it gets this same error page. -/
theorem browse_stays_refused {moves : List (Move (Client B) ClientAction)}
    (hrun : SharedStore.Run d.site (d.start fs) moves g) {before after : List (Entry B)}
    {client number : ℕ} {ptr : HandlerPtr} {req : Request B} {response : Response B}
    (hlog : g.store.log = before ++ .call client number ptr req response :: after)
    (hbrowses : d.Browses ptr req) :
    (response.result ≠ 200 ↔ ∃ imgUrl selections,
      (d.memesIn before).lookup imgUrl = some selections ∧ ¬ IsChoice selections) ∧
    (response.result ≠ 200 → ∀ between reader call other get page rest,
      after = between ++ .call reader call other get page :: rest → d.Browses other get →
        page = response) := by
  cases browse_cases hrun hlog hbrowses with
  | inl hshown =>
    obtain ⟨hall, hresult⟩ := hshown
    refine ⟨⟨fun hne => absurd hresult hne, ?_⟩, fun hne => absurd hresult hne⟩
    rintro ⟨imgUrl, selections, hlookup, hchoice⟩
    exact absurd (hall imgUrl selections hlookup) hchoice
  | inr hrefused =>
    obtain ⟨⟨imgUrl, selections, hlookup, hchoice⟩, rfl⟩ := hrefused
    have hresult : (showErrorPage B 400 (text "Invalid meme request")).result ≠ 200 := by
      change (400 : ℕ) ≠ 200
      decide
    refine ⟨⟨fun _ => ⟨imgUrl, selections, hlookup, hchoice⟩, fun _ => hresult⟩, ?_⟩
    intro _ between reader call other get page rest hafter hbrowses'
    rw [hafter, ← List.cons_append, ← List.append_assoc] at hlog
    -- the meme is still the first one of its address
    have hstill : (d.memesIn (before ++ .call client number ptr req
        (showErrorPage B 400 (text "Invalid meme request")) :: between)).lookup imgUrl =
          some selections := by
      rw [Deployment.memesIn, Deployment.uploadsIn, List.filterMap_append, List.map_append,
        List.lookup_append]
      exact congrArg (fun found => Option.or found _) hlookup
    cases browse_cases hrun hlog hbrowses' with
    | inl hshown => exact absurd (hshown.1 imgUrl selections hstill) hchoice
    | inr hrefused => exact hrefused.2

set_option maxRecDepth 8000 in
/-- One client uploads a meme with a fourth style, and two clients ask for the page. -/
theorem browse_stays_refused_fourth : ∃ g upload refusal first second page other,
    smallSite.site.acts twoClients (uploadsStyled (text "4") 1 ++ [(1, .callback .written)] ++
      asks 0 (text "/meme/browse") ++ (asks 1 (text "/meme/browse")).take 1) = some g ∧
      g.store.log = [.call 1 0 2 upload refusal, .call 0 0 2 first page,
        .report 0 (text "/meme/browse", 400), .call 1 1 2 second other] ∧
        page.result = 400 ∧ other = page := by
  have hacts : (smallSite.site.acts twoClients (uploadsStyled (text "4") 1 ++
      [(1, .callback .written)] ++ asks 0 (text "/meme/browse") ++
        (asks 1 (text "/meme/browse")).take 1)).isSome = true := rfl
  obtain ⟨g, hg⟩ := Option.isSome_iff_exists.mp hacts
  have hlog : ∃ upload refusal first second page other,
      g.store.log = [.call 1 0 2 upload refusal, .call 0 0 2 first page,
        .report 0 (text "/meme/browse", 400), .call 1 1 2 second other] ∧ page.result = 400 ∧
          first.target = text "/meme/browse" ∧ second.target = text "/meme/browse" := by
    rw [← Option.some.inj hg]
    exact ⟨_, _, _, _, _, _, rfl, rfl, rfl, rfl⟩
  obtain ⟨upload, refusal, first, second, page, other, hlog, hresult, hfirst, hsecond⟩ := hlog
  have hstays := browse_stays_refused ((runs_twoClients smallSite).acts hg)
    (show g.store.log = [_] ++ .call 0 0 2 first page :: _ from hlog) ⟨_, rfl, rfl, hfirst⟩
  refine ⟨g, upload, refusal, first, second, page, other, hg, hlog, hresult, ?_⟩
  exact hstays.2 (by rw [hresult]; decide) [_] _ _ _ _ _ [] rfl ⟨_, rfl, rfl, hsecond⟩

end Aite
