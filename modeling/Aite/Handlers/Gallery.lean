import Aite.Handlers.MultipartRoundTrip

/-!
# The gallery over runs of requests

What an upload enters in the gallery is what browsing reads of it, and one entry without a
style that exists spoils the page of all. An upload makes its entry before it looks at the
style. So as long as every upload that gets past the other checks names a style, the gallery
has exactly the memes of the uploads that were answered with a page, and browsing shows them.
-/

namespace Aite.Handlers

open Http (Beast Request Response)
open KeyedList Routing

variable {B : Beast}

/-- A request to the handler, with what it meets outside. -/
structure Call (B : Beast) where
  fs : FileSystem
  cwd : Text
  outside : Outside
  req : Request B

namespace Call

/-- What the handler does with the request. -/
def run (io : RequestIO B) (h : MemeHandler) (memes : Memes) (call : Call B) : Outcome B :=
  h.handleRequest io call.fs call.cwd call.outside memes call.req

/-- The form and the extension for which a uuid is generated. -/
def upload (io : RequestIO B) (call : Call B) : Option (Form × Text) :=
  if call.req.target = text "/meme/generate" then
    match uploadForm io call.req with
    | .error _ => none
    | .ok form => (imageExtension form.image.header).map fun extension => (form, extension)
  else none

/-- The uuid that is generated. -/
def uuid (io : RequestIO B) (call : Call B) : Option Text :=
  (call.upload io).map fun _ => call.outside.uuid

/-- The meme that is uploaded. -/
def meme (io : RequestIO B) (h : MemeHandler) (call : Call B) : Option (Text × List Text) :=
  (call.upload io).map fun upload =>
    (h.imgUrl call.outside upload.2, [upload.1.top.body, upload.1.bottom.body, upload.1.chosenStyle])

end Call

/-- The request is answered with status 200. -/
def isOk (response : Run (Response B)) : Bool :=
  match response with
  | .ok response => response.result = 200
  | .error _ => false

/-- The gallery after some requests. -/
def gallery (io : RequestIO B) (h : MemeHandler) (calls : List (Call B)) : Memes :=
  calls.foldl (fun memes call => (call.run io h memes).memes) []

/-- The memes of the uploads that are answered with status 200, in turn. -/
def accepted (io : RequestIO B) (h : MemeHandler) : Memes → List (Call B) → Memes
  | _, [] => []
  | memes, call :: rest =>
    (if isOk (call.run io h memes).response then (call.meme io h).toList else []) ++
      accepted io h (call.run io h memes).memes rest

/-- There is such a style. -/
def IsStyle (style : Text) : Prop := ∃ n, stoi style = some n ∧ (n = 1 ∨ n = 2 ∨ n = 3)

/-- Three selections, the third of which is a style. -/
def IsChoice (selections : List Text) : Prop :=
  ∃ top bottom style, selections = [top, bottom, style] ∧ IsStyle style

/-- An entry of the gallery on the page that shows all. -/
def showMeme (entry : Text × List Text) : Text :=
  match entry.2 with
  | [top, bottom, style] =>
    browseEntry entry.1 (((stoi style).bind browseStyle).getD []) top bottom
  | _ => []

/-- After these requests every entry is a choice, the entries are the memes of the uploads that
were answered with 200, each under an address of its own, and browsing shows each of them once. -/
structure Consistent (io : RequestIO B) (h : MemeHandler) (calls : List (Call B)) : Prop where
  choices : ∀ entry ∈ gallery io h calls, IsChoice entry.2
  entries : (gallery io h calls).Perm (accepted io h [] calls)
  addresses : ((gallery io h calls).map Prod.fst).Nodup
  browse : ∀ call : Call B, call.req.target = text "/meme/browse" →
    ∃ memes : Memes, memes.Perm (accepted io h [] calls) ∧
      (call.run io h (gallery io h calls)).response =
        .ok (htmlPage B (browseHead ++ memes.flatMap showMeme ++ text "</body></html>"))

/-- An upload that gets past the other checks names a style. -/
def NamesStyle (io : RequestIO B) (h : MemeHandler) (call : Call B) : Prop :=
  call.req.target = text "/meme/generate" →
    ∀ form extension, Uploads io call.outside h call.req form extension → IsStyle form.chosenStyle

/-! ## Browsing -/

/-- A style has rules on both pages. -/
theorem IsStyle.exists_rules {style : Text} (h : IsStyle style) :
    ∃ n rules css, stoi style = some n ∧ memeRules n = some rules ∧ browseStyle n = some css := by
  obtain ⟨n, hn, rfl | rfl | rfl⟩ := h
  · exact ⟨1, _, _, hn, rfl, rfl⟩
  · exact ⟨2, _, _, hn, rfl, rfl⟩
  · exact ⟨3, _, _, hn, rfl, rfl⟩

/-- When all entries are choices, the loop shows all of them. -/
theorem browseLoop_eq {memes : Memes} (h : ∀ entry ∈ memes, IsChoice entry.2) :
    browseLoop memes = .ok (some (memes.flatMap showMeme)) := by
  induction memes with
  | nil => rfl
  | cons entry rest ih =>
    obtain ⟨imgUrl, selections⟩ := entry
    obtain ⟨hentry, hrest⟩ := List.forall_mem_cons.mp h
    obtain ⟨top, bottom, style, rfl, hstyle⟩ := hentry
    obtain ⟨n, rules, css, hn, -, hcss⟩ := hstyle.exists_rules
    have hrun : stoiRun style = .ok n := by
      rw [stoiRun, hn]
    have hshow : showMeme (imgUrl, [top, bottom, style]) = browseEntry imgUrl css top bottom := by
      simp only [showMeme, hn, Option.bind_some, hcss, Option.getD_some]
    simp only [browseLoop, hrun, ih hrest, hcss, bind, Except.bind, List.flatMap_cons, hshow,
      Option.map_some]

/-- When all entries are choices, browsing shows all of them. -/
theorem browseMemes_eq {memes : Memes} (h : ∀ entry ∈ memes, IsChoice entry.2) :
    MemeHandler.browseMemes (B := B) memes = .ok (htmlPage B
      (browseHead ++ (inOrder memes).flatMap showMeme ++ text "</body></html>")) := by
  have horder : ∀ entry ∈ inOrder memes, IsChoice entry.2 := by
    intro entry hentry
    exact h entry ((List.perm_insertionSort _ memes).mem_iff.mp hentry)
  rw [MemeHandler.browseMemes, browseLoop_eq horder]
  rfl

/-! ## One request -/

/-- A new entry comes last. -/
theorem logMeme_eq {imgUrl : Text} {selections : List Text} {memes : Memes}
    (h : imgUrl ∉ memes.map Prod.fst) :
    logMeme imgUrl selections memes = memes ++ [(imgUrl, selections)] := by
  have hassign : assign imgUrl selections memes = memes ++ [(imgUrl, selections)] := by
    induction memes with
    | nil => rfl
    | cons entry rest ih =>
      obtain ⟨k, v⟩ := entry
      rw [List.map_cons, List.mem_cons, not_or] at h
      change alter imgUrl _ ((k, v) :: rest) = _
      rw [alter_cons_of_ne h.1]
      exact congrArg _ (ih h.2)
  have hlookup : memes.lookup imgUrl = none := by
    cases hfound : memes.lookup imgUrl with
    | none => rfl
    | some value => exact absurd (List.mem_map_of_mem (mem_of_lookup hfound)) h
  rw [logMeme, hlookup, hassign]
  rfl

/-- An upload past the checks is the meme of its request. -/
private theorem Uploads.meme {io : RequestIO B} {h : MemeHandler} {call : Call B} {form : Form}
    {extension : Text} (hupload : Uploads io call.outside h call.req form extension)
    (htarget : call.req.target = text "/meme/generate") :
    call.meme io h = some (h.imgUrl call.outside extension,
      [form.top.body, form.bottom.body, form.chosenStyle]) := by
  simp only [Call.meme, Call.upload, if_pos htarget, hupload.parsed, hupload.typed, Option.map_some]

/-- What one request adds to the gallery: its meme when it is answered with 200, and otherwise
nothing. -/
theorem memes_run {io : RequestIO B} {h : MemeHandler} (hinit : h.initialised = true)
    {call : Call B} (hstyle : NamesStyle io h call) {memes : Memes}
    (hfresh : ∀ entry, call.meme io h = some entry → entry.1 ∉ memes.map Prod.fst) :
    (call.run io h memes).memes = memes ++
        (if isOk (call.run io h memes).response then (call.meme io h).toList else []) ∧
      (isOk (call.run io h memes).response = true →
        ∀ entry, call.meme io h = some entry → IsChoice entry.2) := by
  have hnot : (!h.initialised) = false := by
    rw [hinit]
    rfl
  by_cases htarget : call.req.target = text "/meme/generate"
  · have hrun : call.run io h memes = h.generateMeme io call.outside memes call.req := by
      rw [Call.run, MemeHandler.handleRequest, hnot, if_neg Bool.false_ne_true, if_pos htarget]
    rw [hrun]
    cases generateMeme_cases io call.outside h memes call.req with
    | inl hupload =>
      obtain ⟨form, extension, hupload⟩ := hupload
      have hmeme := hupload.meme htarget
      obtain ⟨n, rules, css, hn, hrules, -⟩ :=
        (hstyle htarget form extension hupload).exists_rules
      have hok : isOk (form.answer B (h.imgUrl call.outside extension)) = true := by
        simp [Form.answer, stoiRun, hn, hrules, bind, Except.bind, isOk, htmlPage]
      rw [hupload.generateMeme, hmeme]
      dsimp only
      rw [if_pos hok, logMeme_eq (hfresh _ hmeme)]
      refine ⟨rfl, ?_⟩
      intro _ entry hentry
      obtain rfl := Option.some.inj hentry
      exact ⟨_, _, _, rfl, hstyle htarget form extension hupload⟩
    | inr hrefused =>
      obtain ⟨status, message, hstatus, heq⟩ := hrefused
      have hok : isOk (B := B) (.ok (showErrorPage B status message)) = false := by
        simpa [isOk, showErrorPage] using hstatus
      rw [heq]
      dsimp only
      rw [hok]
      exact ⟨(List.append_nil memes).symm, fun h => absurd h Bool.false_ne_true⟩
  · have hmeme : call.meme io h = none := by
      rw [Call.meme, Call.upload, if_neg htarget]
      rfl
    have hmemes : (call.run io h memes).memes = memes := by
      rw [Call.run, MemeHandler.handleRequest, hnot, if_neg Bool.false_ne_true, if_neg htarget]
      split_ifs <;> rfl
    rw [hmeme, hmemes]
    refine ⟨?_, fun _ entry hentry => absurd hentry (Option.some_ne_none entry).symm⟩
    split_ifs <;> exact (List.append_nil memes).symm

/-! ## Runs -/

/-- The memes of a request and of those behind it. -/
private theorem filterMap_meme_cons (io : RequestIO B) (h : MemeHandler) (call : Call B)
    (rest : List (Call B)) :
    (call :: rest).filterMap (fun call => call.meme io h) =
      (call.meme io h).toList ++ rest.filterMap fun call => call.meme io h := by
  cases hmeme : call.meme io h <;> simp [hmeme]

/-- The memes of uploads answered with 200 are among those uploaded. -/
theorem accepted_sublist (io : RequestIO B) (h : MemeHandler) (memes : Memes)
    (calls : List (Call B)) :
    (accepted io h memes calls).Sublist (calls.filterMap fun call => call.meme io h) := by
  induction calls generalizing memes with
  | nil => exact List.Sublist.slnil
  | cons call rest ih =>
    rw [filterMap_meme_cons, accepted]
    apply List.Sublist.append _ (ih _)
    split_ifs
    · exact List.Sublist.refl _
    · exact List.nil_sublist _

/-- Requests whose memes have addresses of their own add the memes of those answered with 200. -/
theorem foldl_run {io : RequestIO B} {h : MemeHandler} (hinit : h.initialised = true)
    {calls : List (Call B)} (hstyles : ∀ call ∈ calls, NamesStyle io h call) {memes : Memes}
    (hkeys : ((memes ++ calls.filterMap fun call => call.meme io h).map Prod.fst).Nodup) :
    calls.foldl (fun memes call => (call.run io h memes).memes) memes =
        memes ++ accepted io h memes calls ∧
      ∀ entry ∈ accepted io h memes calls, IsChoice entry.2 := by
  induction calls generalizing memes with
  | nil => exact ⟨(List.append_nil memes).symm, fun _ h => absurd h List.not_mem_nil⟩
  | cons call rest ih =>
    obtain ⟨hstyle, hstyles⟩ := List.forall_mem_cons.mp hstyles
    rw [filterMap_meme_cons] at hkeys
    have hfresh : ∀ entry, call.meme io h = some entry → entry.1 ∉ memes.map Prod.fst := by
      intro entry hentry hmem
      rw [hentry, List.map_append, List.nodup_append] at hkeys
      exact hkeys.2.2 _ hmem _ (List.mem_cons_self) rfl
    obtain ⟨hmemes, hchoice⟩ := memes_run hinit hstyle hfresh
    have hnew : (if isOk (call.run io h memes).response then (call.meme io h).toList else
        []).Sublist (call.meme io h).toList := by
      split_ifs
      · exact List.Sublist.refl _
      · exact List.nil_sublist _
    have hrest : (((call.run io h memes).memes ++
        rest.filterMap fun call => call.meme io h).map Prod.fst).Nodup := by
      rw [hmemes, List.append_assoc]
      exact hkeys.sublist (((hnew.append_right _).append_left _).map _)
    obtain ⟨hfold, hchoices⟩ := ih hstyles hrest
    rw [List.foldl_cons, hfold, accepted]
    constructor
    · rw [← List.append_assoc, ← hmemes]
    · intro entry hentry
      rw [List.mem_append] at hentry
      cases hentry with
      | inl hentry =>
        split_ifs at hentry with hok
        · exact hchoice hok entry (Option.mem_toList.mp hentry)
        · exact absurd hentry List.not_mem_nil
      | inr hentry => exact hchoices entry hentry

/-- Images with different uuids have different addresses. -/
theorem uuid_of_imgUrl_eq {h : MemeHandler} {outside other : Outside} (huuid : IsUuid outside.uuid)
    (hother : IsUuid other.uuid) {extension another : Text}
    (heq : h.imgUrl outside extension = h.imgUrl other another) : outside.uuid = other.uuid := by
  have hpath := List.append_cancel_left heq
  unfold MemeHandler.uploadPath appendPath at hpath
  rw [if_neg (huuid.head?_ne extension), if_neg (hother.head?_ne another)] at hpath
  have hname : outside.uuid ++ text "." ++ extension = other.uuid ++ text "." ++ another := by
    split_ifs at hpath
    · exact List.append_cancel_left hpath
    · exact List.append_cancel_left hpath
  rw [List.append_assoc, List.append_assoc] at hname
  exact (List.append_inj hname (huuid.length.trans hother.length.symm)).1

/-- With uuids that are all distinct, every uploaded meme has an address of its own. -/
theorem nodup_addresses {io : RequestIO B} {h : MemeHandler} {calls : List (Call B)}
    (huuids : ∀ call ∈ calls, ∀ uuid, call.uuid io = some uuid → IsUuid uuid)
    (hdistinct : (calls.filterMap fun call => call.uuid io).Nodup) :
    ((calls.filterMap fun call => call.meme io h).map Prod.fst).Nodup := by
  induction calls with
  | nil => exact List.nodup_nil
  | cons call rest ih =>
    obtain ⟨huuid, huuids⟩ := List.forall_mem_cons.mp huuids
    cases hupload : call.upload io with
    | none =>
      have hnone : call.uuid io = none := by rw [Call.uuid, hupload]; rfl
      have hmeme : call.meme io h = none := by rw [Call.meme, hupload]; rfl
      rw [List.filterMap_cons_none hnone] at hdistinct
      rw [List.filterMap_cons_none hmeme]
      exact ih huuids hdistinct
    | some upload =>
      have hsome : call.uuid io = some call.outside.uuid := by rw [Call.uuid, hupload]; rfl
      have hmeme : call.meme io h = some (h.imgUrl call.outside upload.2,
          [upload.1.top.body, upload.1.bottom.body, upload.1.chosenStyle]) := by
        rw [Call.meme, hupload]
        rfl
      rw [List.filterMap_cons_some hsome, List.nodup_cons] at hdistinct
      rw [List.filterMap_cons_some hmeme, List.map_cons, List.nodup_cons]
      refine ⟨?_, ih huuids hdistinct.2⟩
      intro hmem
      obtain ⟨entry, hentry, heq⟩ := List.mem_map.mp hmem
      obtain ⟨other, hother, hothermeme⟩ := List.mem_filterMap.mp hentry
      obtain ⟨another, hanother, rfl⟩ := Option.map_eq_some_iff.mp hothermeme
      have hotheruuid : other.uuid io = some other.outside.uuid := by
        rw [Call.uuid, hanother]
        rfl
      have hsame := uuid_of_imgUrl_eq (huuids other hother _ hotheruuid) (huuid _ hsome) heq
      rw [hsame] at hotheruuid
      exact hdistinct.1 (List.mem_filterMap.mpr ⟨other, hother, hotheruuid⟩)

/-- In a run in which every upload that gets past the other checks names a style, the gallery is
consistent all along. -/
theorem consistent_of_namesStyle {io : RequestIO B} {h : MemeHandler} (hinit : h.initialised = true)
    {calls : List (Call B)} (huuids : ∀ call ∈ calls, ∀ uuid, call.uuid io = some uuid → IsUuid uuid)
    (hdistinct : (calls.filterMap fun call => call.uuid io).Nodup)
    (hstyles : ∀ call ∈ calls, NamesStyle io h call) :
    ∀ seen, seen <+: calls → Consistent io h seen := by
  rintro seen ⟨rest, rfl⟩
  rw [List.filterMap_append] at hdistinct
  have hkeys := nodup_addresses (h := h)
    (fun call hcall => huuids call (List.mem_append_left _ hcall))
    (hdistinct.sublist (List.sublist_append_left _ _))
  obtain ⟨hgallery, hchoices⟩ : gallery io h seen = accepted io h [] seen ∧
      ∀ entry ∈ accepted io h [] seen, IsChoice entry.2 :=
    foldl_run hinit (fun call hcall => hstyles call (List.mem_append_left rest hcall)) hkeys
  refine ⟨hgallery ▸ hchoices, hgallery ▸ List.Perm.refl _,
    hgallery ▸ hkeys.sublist ((accepted_sublist io h [] seen).map _), ?_⟩
  intro call htarget
  refine ⟨_, List.perm_insertionSort (fun a b => precedes a.1 b.1 = true) _, ?_⟩
  have hnot : (!h.initialised) = false := by
    rw [hinit]
    rfl
  rw [Call.run, MemeHandler.handleRequest, hnot, if_neg Bool.false_ne_true, htarget,
    if_neg (by decide), if_neg (by decide), if_pos rfl, hgallery]
  exact browseMemes_eq hchoices

/-- An upload with this style. -/
def styledUpload (style : Text) : Call Beast.lists where
  fs := { isDirectory := fun _ => false, contents := fun _ => none }
  cwd := text "/"
  outside := somewhere
  req := postForm (encodeForm (text "----0123456789") [postedPart style, postedPart (text "PNG"),
    postedPart (text "top"), postedPart (text "bottom")])

/-- A request for the page of all memes. -/
def browseCall : Call Beast.lists :=
  { styledUpload [] with req := { (postForm []) with target := text "/meme/browse" } }

/-- Two uploads, each with a uuid of its own, and then a request for the page. -/
def twoUploads : List (Call Beast.lists) :=
  [styledUpload (text "1"), { styledUpload (text "2") with outside := elsewhere }, browseCall]

/-- A form in which a style is chosen names this style. -/
private theorem namesStyle_of_form {call : Call Beast.lists} {style : Text} (hstyle : IsStyle style)
    (hform : (uploadForm listsIO call.req).toOption.map Form.chosenStyle = some style) :
    NamesStyle listsIO memesHandler call := by
  intro _ form extension hupload
  rw [hupload.parsed] at hform
  rw [← Option.some.inj hform] at hstyle
  exact hstyle

/-- A run of two uploads with different styles, and of browsing. -/
theorem consistent_twoUploads :
    (∀ call ∈ twoUploads, NamesStyle listsIO memesHandler call) ∧
      ∀ seen, seen <+: twoUploads → Consistent listsIO memesHandler seen := by
  have hstyles : ∀ call ∈ twoUploads, NamesStyle listsIO memesHandler call := by
    have hone : IsStyle (text "1") := ⟨1, by decide, .inl rfl⟩
    have htwo : IsStyle (text "2") := ⟨2, by decide, .inr (.inl rfl)⟩
    have hfirst : NamesStyle listsIO memesHandler (styledUpload (text "1")) :=
      namesStyle_of_form hone (by decide)
    have hsecond : NamesStyle listsIO memesHandler
        { styledUpload (text "2") with outside := elsewhere } := namesStyle_of_form htwo (by decide)
    have hbrowse : NamesStyle listsIO memesHandler browseCall :=
      fun htarget => absurd htarget (by decide)
    exact List.forall_mem_cons.mpr
      ⟨hfirst, List.forall_mem_cons.mpr ⟨hsecond, List.forall_mem_singleton.mpr hbrowse⟩⟩
  have huuids : (twoUploads.filterMap fun call => call.uuid listsIO) =
      [somewhere.uuid, elsewhere.uuid] := by decide
  refine ⟨hstyles, consistent_of_namesStyle rfl ?_ (huuids ▸ by decide) hstyles⟩
  intro call hcall uuid heq
  have hmem := List.mem_filterMap.mpr ⟨call, hcall, heq⟩
  rw [huuids, List.mem_pair] at hmem
  cases hmem with
  | inl huuid => exact huuid ▸ isUuid_somewhere
  | inr huuid => exact huuid ▸ isUuid_elsewhere

/-- An upload with a fourth style is answered with 400 and spoils the page of all memes. -/
theorem not_consistent_styledUpload :
    ¬ ∀ calls : List (Call Beast.lists),
      (∀ call ∈ calls, ∀ uuid, call.uuid listsIO = some uuid → IsUuid uuid) →
        (calls.filterMap fun call => call.uuid listsIO).Nodup →
          Consistent listsIO memesHandler calls := by
  intro h
  have huuid : (styledUpload (text "4")).uuid listsIO = some somewhere.uuid := by decide
  have hconsistent := h [styledUpload (text "4")] (by
    intro call hcall uuid heq
    obtain rfl := List.mem_singleton.mp hcall
    exact Option.some.inj (huuid.symm.trans heq) ▸ isUuid_somewhere) (by
    rw [List.filterMap_cons_some huuid]
    exact List.nodup_singleton _)
  have hbrowse : isOk (MemeHandler.browseMemes (B := Beast.lists)
      (gallery listsIO memesHandler [styledUpload (text "4")])) = false := by decide
  obtain ⟨memes, -, hresponse⟩ := hconsistent.browse browseCall rfl
  change MemeHandler.browseMemes (gallery listsIO memesHandler [styledUpload (text "4")]) = _
    at hresponse
  rw [hresponse] at hbrowse
  cases hbrowse

end Aite.Handlers
