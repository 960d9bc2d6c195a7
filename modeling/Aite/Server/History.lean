import Aite.Handlers.Gallery
import Aite.Server.Accounts

/-!
# What clients see of the past

The status page and the page of all memes show what all clients have done so far. Both are
functions of what was done before them, and of its order only where two uploads have the same
address: there the first one stays.
-/

namespace Aite

open Handlers Http KeyedList Routing SharedStore
open Session

variable {B : Beast} {d : Deployment B} {fs : FileSystem} {g : Global (Store B) (Client B)}

/-- The reports in a list of entries, those of all clients. -/
def reportsIn (log : List (Entry B)) : List (Text × ℕ) := log.filterMap Entry.report?

/-- An upload that gets past the checks: the handler, what it meets outside of the program, its form
and the extension of its image. -/
structure Upload where
  handler : MemeHandler
  outside : Outside
  form : Form
  extension : Text

namespace Upload

variable (u : Upload)

/-- The meme: the address of the image, and what was selected. -/
def meme : Text × List Text :=
  (u.handler.imgUrl u.outside u.extension,
    [u.form.top.body, u.form.bottom.body, u.form.chosenStyle])

/-- The file of the image. -/
def path : Text := u.handler.uploadPath u.outside u.extension

/-- The file that is written. -/
def stored? : Option (Text × Text) :=
  if u.outside.opens u.path then some (u.path, u.form.image.body) else none

end Upload

/-- The upload that a request makes. -/
def uploadBy (io : RequestIO B) (outside : Outside) (h : MemeHandler) (req : Request B) :
    Option Upload :=
  if h.initialised = true ∧ req.target = text "/meme/generate" then
    match uploadForm io req with
    | .error _ => none
    | .ok form =>
      match imageExtension form.image.header with
      | none => none
      | some extension =>
        if outside.createsDirectories (h.uploadPath outside extension) then
          some ⟨h, outside, form, extension⟩
        else none
  else none

/-- The upload that is made in a call. -/
def Deployment.upload? (d : Deployment B) : Entry B → Option Upload
  | .report _ _ => none
  | .call client number ptr req _ =>
    match d.registry.handlers[ptr]? with
    | some (.meme h) => uploadBy d.io (d.outside client number) h req
    | _ => none

/-- The uploads in a list of entries, those of all clients. -/
def Deployment.uploadsIn (d : Deployment B) (log : List (Entry B)) : List Upload :=
  log.filterMap d.upload?

/-- The memes of the uploads in a list of entries. -/
def Deployment.memesIn (d : Deployment B) (log : List (Entry B)) : Memes :=
  (d.uploadsIn log).map Upload.meme

/-! ## Reports -/

/-- The counts are those of the reports. -/
theorem isTally_replay (d : Deployment B) (fs : FileSystem) (log : List (Entry B)) :
    IsTally (d.replay { fs } log).requests (reportsIn log) := by
  induction log using List.reverseRecOn with
  | nil => exact IsTally.nil
  | append_singleton log entry ih =>
    rw [Deployment.replay, List.foldl_concat, reportsIn, List.filterMap_append]
    cases entry with
    | call client number ptr req response =>
      change IsTally (d.handleRequest _ _ _ _ _).1.requests (reportsIn log ++ [])
      rw [requests_handleRequest, List.append_nil]
      exact ih
    | report client reqResp => exact isTally_logRequest ih reqResp

/-- A status page that was answered in a run shows how often each request was reported before, by
all clients, in whatever order. -/
theorem status_shows {moves : List (Move (Client B) ClientAction)}
    (hrun : SharedStore.Run d.site (d.start fs) moves g) {before after : List (Entry B)}
    {client number : ℕ} {ptr : HandlerPtr} {req : Request B} {response : Response B}
    (hlog : g.store.log = before ++ .call client number ptr req response :: after)
    (hstatus : d.registry.handlers[ptr]? = some .status) {reports : List (Text × ℕ)}
    (hreports : reports.Perm (reportsIn before)) :
    (statusPage B ⟨histogram reports, d.registry.handlerToPrefixes⟩).map (htmlPage B) =
      some response := by
  have hanswer := (ordered_of_run hrun).answers before client number ptr req response after hlog
  rw [statusPage_of_perm B hreports, ← statusPage_of_isTally B (isTally_replay d fs before)]
  simp only [Deployment.handleRequest, hstatus, Deployment.handlerCall,
    StatusRequestHandler.handleRequest] at hanswer
  cases hpage : statusPage B ⟨(d.replay { fs } before).requests, d.registry.handlerToPrefixes⟩ with
  | none =>
    simp [hpage] at hanswer
  | some page =>
    simp only [hpage, Option.map_some] at hanswer
    rw [Option.map_some, Except.ok.inj hanswer]

/-- The echo was asked for by two clients. -/
theorem status_shows_asks : ∃ g before number req response,
    smallSite.site.acts twoClients (asks 0 (text "/echo") ++ asks 1 (text "/echo") ++
      (asks 0 (text "/status")).take 1) = some g ∧
        g.store.log = before ++ [.call 0 number 1 req response] ∧
          (statusPage Beast.lists ⟨histogram [(text "/echo", 200), (text "/echo", 200)],
            smallSite.registry.handlerToPrefixes⟩).map (htmlPage Beast.lists) = some response := by
  have hacts : (smallSite.site.acts twoClients (asks 0 (text "/echo") ++ asks 1 (text "/echo") ++
      (asks 0 (text "/status")).take 1)).isSome = true := rfl
  obtain ⟨g, hg⟩ := Option.isSome_iff_exists.mp hacts
  have hlog : ∃ before number req response,
      g.store.log = before ++ [.call 0 number 1 req response] ∧
        reportsIn before = [(text "/echo", 200), (text "/echo", 200)] := by
    rw [← Option.some.inj hg]
    exact ⟨[.call 0 0 0 _ _, .report 0 _, .call 1 0 0 _ _, .report 1 _], _, _, _, rfl, rfl⟩
  obtain ⟨before, number, req, response, hlog, hreports⟩ := hlog
  exact ⟨g, before, number, req, response, hg, hlog,
    status_shows ((runs_twoClients smallSite).acts hg) hlog rfl (hreports ▸ List.Perm.refl _)⟩

/-! ## Uploads -/

/-- What a request leaves in the gallery. -/
theorem memes_handleRequest (io : RequestIO B) (fs : FileSystem) (cwd : Text) (outside : Outside)
    (h : MemeHandler) (memes : Memes) (req : Request B) :
    (h.handleRequest io fs cwd outside memes req).memes =
      match uploadBy io outside h req with
      | none => memes
      | some u => logMeme u.meme.1 u.meme.2 memes := by
  unfold MemeHandler.handleRequest uploadBy
  cases hinit : h.initialised with
  | false =>
    rw [if_pos (by rfl), if_neg (by simp)]
  | true =>
    rw [if_neg (by simp)]
    by_cases htarget : req.target = text "/meme/generate"
    · rw [if_pos htarget, if_pos ⟨rfl, htarget⟩]
      unfold MemeHandler.generateMeme
      cases uploadForm io req with
      | error refusal => rfl
      | ok form =>
        dsimp only
        cases imageExtension form.image.header with
        | none => rfl
        | some extension =>
          dsimp only
          split_ifs <;> rfl
    · have hnot : ¬ (true = true ∧ req.target = text "/meme/generate") := fun h => htarget h.2
      rw [if_neg htarget, if_neg hnot]
      split_ifs <;> rfl

/-- What a call leaves in the gallery. -/
private theorem memes_applyEntry (shared : Shared) (entry : Entry B) :
    (d.applyEntry shared entry).memes =
      match d.upload? entry with
      | none => shared.memes
      | some u => logMeme u.meme.1 u.meme.2 shared.memes := by
  cases entry with
  | report client reqResp => rfl
  | call client number ptr req response =>
    simp only [Deployment.applyEntry, Deployment.handleRequest, Deployment.upload?]
    cases d.registry.handlers[ptr]? with
    | none => rfl
    | some handler =>
      cases handler with
      | meme h => exact memes_handleRequest _ _ _ _ _ _ _
      | status =>
        simp only [Deployment.handlerCall]
        split <;> rfl
      | _ => rfl

/-- A meme that is logged is looked up behind those that were there. -/
theorem lookup_logMeme (imgUrl : Text) (selections : List Text) (memes : Memes) (other : Text) :
    (logMeme imgUrl selections memes).lookup other =
      (memes.lookup other).or ([(imgUrl, selections)].lookup other) := by
  unfold logMeme
  by_cases h : other = imgUrl
  · subst h
    rw [lookup_cons_self]
    cases hlookup : memes.lookup other with
    | none => simp [lookup_assign_self]
    | some found => simp [hlookup]
  · rw [lookup_cons_of_ne h, List.lookup_nil, Option.or_none]
    split_ifs
    · rfl
    · exact lookup_assign_of_ne h _ _

/-- Addresses in the gallery differ. -/
theorem nodup_keys_logMeme (imgUrl : Text) (selections : List Text) {memes : Memes}
    (h : (memes.map Prod.fst).Nodup) :
    ((logMeme imgUrl selections memes).map Prod.fst).Nodup := by
  unfold logMeme
  split_ifs
  · exact h
  · exact nodup_keys_alter imgUrl _ h

/-- The gallery has the first upload of each address. -/
theorem memes_replay (d : Deployment B) (fs : FileSystem) (log : List (Entry B)) :
    ((d.replay { fs } log).memes.map Prod.fst).Nodup ∧
      ∀ imgUrl, (d.replay { fs } log).memes.lookup imgUrl = (d.memesIn log).lookup imgUrl := by
  induction log using List.reverseRecOn with
  | nil => exact ⟨List.nodup_nil, fun _ => rfl⟩
  | append_singleton log entry ih =>
    obtain ⟨hkeys, hlookup⟩ := ih
    rw [Deployment.replay, List.foldl_concat, memes_applyEntry, Deployment.memesIn,
      Deployment.uploadsIn, List.filterMap_append, List.map_append]
    change ((match d.upload? entry with
      | none => (d.replay { fs } log).memes
      | some u => logMeme u.meme.1 u.meme.2 (d.replay { fs } log).memes).map Prod.fst).Nodup ∧ _
    cases hupload : d.upload? entry with
    | none =>
      rw [List.filterMap_cons_none hupload, List.filterMap_nil, List.map_nil, List.append_nil]
      exact ⟨hkeys, hlookup⟩
    | some u =>
      rw [List.filterMap_cons_some hupload, List.filterMap_nil, List.map_singleton]
      refine ⟨nodup_keys_logMeme u.meme.1 u.meme.2 hkeys, ?_⟩
      intro imgUrl
      rw [List.lookup_append]
      exact (lookup_logMeme u.meme.1 u.meme.2 _ imgUrl).trans
        (congrArg (fun found => Option.or found _) (hlookup imgUrl))

instance : Std.Total fun s t => precedes s t = true := ⟨precedes_total⟩

instance : IsTrans Text fun s t => precedes s t = true := ⟨fun _ _ _ => precedes_trans⟩

instance : Std.Antisymm fun s t => precedes s t = true := ⟨fun _ _ => precedes_antisymm⟩

/-- Galleries in which every address has the same meme are shown alike. -/
theorem browseMemes_congr {memes others : Memes} (hmemes : (memes.map Prod.fst).Nodup)
    (hothers : (others.map Prod.fst).Nodup)
    (hlookup : ∀ imgUrl, memes.lookup imgUrl = others.lookup imgUrl) :
    MemeHandler.browseMemes (B := B) memes = MemeHandler.browseMemes others := by
  have horder : inOrder memes = inOrder others :=
    sortedByKey_eq_of_perm (fun s t => precedes s t = true)
      (perm_of_lookup_eq hmemes hothers hlookup) hmemes
  rw [MemeHandler.browseMemes, MemeHandler.browseMemes, horder]

/-- A request for the page of all memes is answered with the page of the gallery. -/
theorem browseMemes_of_answer {client number : ℕ} {shared : Shared} {ptr : HandlerPtr}
    {req : Request B} {response : Response B} {h : MemeHandler}
    (hmeme : d.registry.handlers[ptr]? = some (.meme h)) (hinit : h.initialised = true)
    (htarget : req.target = text "/meme/browse")
    (hanswer : (d.handleRequest client number shared ptr req).2 = .ok response) :
    MemeHandler.browseMemes shared.memes = .ok response := by
  have hgenerate : req.target ≠ text "/meme/generate" := by
    rw [htarget]
    decide
  have hcreate : req.target ≠ text "/meme/create" := by
    rw [htarget]
    decide
  simp only [Deployment.handleRequest, hmeme, Deployment.handlerCall, MemeHandler.handleRequest,
    hinit, Bool.not_true, Bool.false_eq_true, if_false, if_neg hgenerate, if_neg hcreate,
    if_pos htarget] at hanswer
  cases hpage : MemeHandler.browseMemes (B := B) shared.memes with
  | error e =>
    rw [hpage] at hanswer
    cases hanswer
  | ok page =>
    rw [hpage] at hanswer
    rw [Except.ok.inj hanswer]

/-- A page of all memes that was answered in a run shows, for each address, the first meme that any
client has uploaded to it before, in whatever order these are listed. -/
theorem browse_shows {moves : List (Move (Client B) ClientAction)}
    (hrun : SharedStore.Run d.site (d.start fs) moves g) {before after : List (Entry B)}
    {client number : ℕ} {ptr : HandlerPtr} {req : Request B} {response : Response B}
    (hlog : g.store.log = before ++ .call client number ptr req response :: after)
    {h : MemeHandler} (hmeme : d.registry.handlers[ptr]? = some (.meme h))
    (hinit : h.initialised = true) (htarget : req.target = text "/meme/browse") {memes : Memes}
    (hmemes : (memes.map Prod.fst).Nodup)
    (hlookup : ∀ imgUrl, memes.lookup imgUrl = (d.memesIn before).lookup imgUrl) :
    MemeHandler.browseMemes memes = .ok response := by
  have hanswer := (ordered_of_run hrun).answers before client number ptr req response after hlog
  obtain ⟨hkeys, hreplay⟩ := memes_replay d fs before
  rw [browseMemes_congr hmemes hkeys fun imgUrl => (hlookup imgUrl).trans (hreplay imgUrl).symm]
  exact browseMemes_of_answer hmeme hinit htarget hanswer

/-- A client uploads a meme with this style. -/
def uploadsStyled (style : Text) (client : ℕ) : List (ℕ × ClientAction) :=
  let form := (styledUpload style).req.body
  [(client, .callback (.headerRead (text "POST /meme/generate HTTP/1.0\r\n" ++
      text "Content-Type: multipart/form-data; boundary=----0123456789\r\n" ++
      text "Content-Length: " ++ text (toString form.length) ++ text "\r\n\r\n"))),
    (client, .callback (.bodyRead form))]

/-- A client uploads a meme with the first style. -/
def uploads (client : ℕ) : List (ℕ × ClientAction) := uploadsStyled (text "1") client

set_option maxRecDepth 8000 in
/-- One client uploads a meme, and another one looks at all. -/
theorem browse_shows_uploads : ∃ g before number req response memes,
    smallSite.site.acts twoClients (uploads 1 ++ (asks 0 (text "/meme/browse")).take 1) = some g ∧
      g.store.log = before ++ [.call 0 number 2 req response] ∧
        smallSite.memesIn before = memes ∧ memes.length = 1 ∧
          MemeHandler.browseMemes memes = .ok response := by
  have hacts : (smallSite.site.acts twoClients
      (uploads 1 ++ (asks 0 (text "/meme/browse")).take 1)).isSome = true := rfl
  obtain ⟨g, hg⟩ := Option.isSome_iff_exists.mp hacts
  have hlog : ∃ before number req response meme,
      g.store.log = before ++ [.call 0 number 2 req response] ∧
        req.target = text "/meme/browse" ∧ smallSite.memesIn before = [meme] := by
    rw [← Option.some.inj hg]
    exact ⟨[.call 1 0 2 _ _], _, _, _, _, rfl, rfl, rfl⟩
  obtain ⟨before, number, req, response, meme, hlog, htarget, huploads⟩ := hlog
  refine ⟨g, before, number, req, response, [meme], hg, hlog, huploads, rfl, ?_⟩
  exact browse_shows ((runs_twoClients smallSite).acts hg) hlog rfl rfl htarget
    (List.nodup_singleton _) fun imgUrl => by rw [huploads]

end Aite
