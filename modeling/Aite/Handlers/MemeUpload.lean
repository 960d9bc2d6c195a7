import Aite.Handlers.MemeHandler
import Aite.Handlers.MultipartForm
import Aite.Lib.LexicalPath

/-!
# Where an upload is written

The name of the file is a fresh uuid with an extension, and the extension is what the client
wrote behind `image/` in the header of the image. Without a slash in it, the file is directly
inside the root of the handler. A slash makes further components of the rest, and with `..`
among them the file can be anywhere.
-/

namespace Aite.Handlers

open Http (Beast Request)
open LexicalPath

/-- The normal form of a path, in which two slashes are no more than one. -/
def lexicallyNormal (path : Text) : Parts UInt8 :=
  (splitBehind '/'.toUInt8 [] path).normal '.'.toUInt8

/-- The normal form of the path is that of the root, followed by this one component. -/
def IsDirectlyInside (root name path : Text) : Prop :=
  (lexicallyNormal path).rooted = (lexicallyNormal root).rooted ∧
    (lexicallyNormal path).names = (lexicallyNormal root).names ++ [name]

/-- The class `[0-9a-f-]`. -/
def isUuidChar (c : UInt8) : Bool := (48 ≤ c && c ≤ 57) || (97 ≤ c && c ≤ 102) || c = '-'.toUInt8

/-- A uuid as a string. -/
structure IsUuid (uuid : Text) : Prop where
  length : uuid.length = 36
  chars : ∀ c ∈ uuid, isUuidChar c = true

/-- A uuid has no slash. -/
theorem IsUuid.slash {uuid : Text} (h : IsUuid uuid) : '/'.toUInt8 ∉ uuid := by
  intro hslash
  have := h.chars _ hslash
  exact absurd this (by decide)

/-- The name of a file under a uuid is a relative path. -/
theorem IsUuid.head?_ne {uuid : Text} (h : IsUuid uuid) (extension : Text) :
    (uuid ++ text "." ++ extension).head? ≠ some '/'.toUInt8 := by
  cases uuid with
  | nil => cases h.length
  | cons c rest =>
    intro hhead
    exact h.slash (Option.some.inj hhead ▸ List.mem_cons_self)

/-- The names of a path with a relative path appended. -/
theorem namesOf_appendPath (root : Text) {s : Text} (hs : s.head? ≠ some '/'.toUInt8) :
    namesOf '/'.toUInt8 (appendPath root s) =
      namesOf '/'.toUInt8 root ++ namesOf '/'.toUInt8 s := by
  rw [appendPath, if_neg hs]
  by_cases hslash : root.getLast? = some '/'.toUInt8
  · obtain ⟨front, rfl⟩ := List.getLast?_eq_some_iff.mp hslash
    rw [if_neg (by simp), List.append_assoc, List.singleton_append, namesOf_append_sep,
      namesOf_append_sep]
    simp [namesOf]
  · by_cases hroot : root = []
    · subst hroot
      rfl
    · rw [if_pos ⟨hroot, hslash⟩, List.append_assoc]
      exact namesOf_append_sep '/'.toUInt8 root s

/-- Appending a relative path keeps the root directory. -/
private theorem head?_appendPath (root : Text) {s : Text} (hs : s.head? ≠ some '/'.toUInt8) :
    (appendPath root s).head? = some '/'.toUInt8 ↔ root.head? = some '/'.toUInt8 := by
  rw [appendPath, if_neg hs]
  cases root with
  | nil => simpa using hs
  | cons c root => split_ifs <;> rfl

/-- The file is directly inside the root exactly when its extension has no slash. -/
theorem isDirectlyInside_iff (root : Text) {uuid : Text} (huuid : IsUuid uuid) (extension : Text) :
    IsDirectlyInside root (uuid ++ text "." ++ extension)
      (appendPath root (uuid ++ text "." ++ extension)) ↔ '/'.toUInt8 ∉ extension := by
  have hhead := huuid.head?_ne extension
  have hnames := namesOf_appendPath root hhead
  have hroot := head?_appendPath root hhead
  have hslash : '/'.toUInt8 ∉ uuid ++ text "." ++ extension ↔ '/'.toUInt8 ∉ extension := by
    have huuid' := huuid.slash
    have hdot : '/'.toUInt8 ∉ text "." := by decide
    rw [List.mem_append, List.mem_append]
    tauto
  have hrooted : (lexicallyNormal (appendPath root (uuid ++ text "." ++ extension))).rooted =
      (lexicallyNormal root).rooted := by
    simp only [lexicallyNormal, Parts.normal, splitBehind, hroot]
  rw [← hslash]
  constructor
  · rintro ⟨-, hinside⟩
    have hmem : uuid ++ text "." ++ extension ∈
        (lexicallyNormal (appendPath root (uuid ++ text "." ++ extension))).names := by
      rw [hinside]
      exact List.mem_append_right _ (List.mem_singleton_self _)
    cases mem_foldl_resolveName hmem with
    | inl hmem => exact absurd hmem List.not_mem_nil
    | inr hmem => exact notMem_of_mem_splitOn (List.mem_of_mem_filter hmem)
  · intro hnone
    refine ⟨hrooted, ?_⟩
    have hlength : 36 < (uuid ++ text "." ++ extension).length := by
      rw [List.length_append, List.length_append, huuid.length]
      simp [text]
      omega
    have hsingle : namesOf '/'.toUInt8 (uuid ++ text "." ++ extension) =
        [uuid ++ text "." ++ extension] := by
      rw [namesOf_of_notMem hnone, if_neg]
      exact List.ne_nil_of_length_pos (by omega)
    have hdot : uuid ++ text "." ++ extension ≠ ['.'.toUInt8] := fun heq => by
      rw [heq] at hlength
      simp at hlength
    have hdots : uuid ++ text "." ++ extension ≠ ['.'.toUInt8, '.'.toUInt8] := fun heq => by
      rw [heq] at hlength
      simp at hlength
    simp only [lexicallyNormal, Parts.normal, splitBehind, hnames, hsingle, hroot,
      List.foldl_append, List.foldl_cons, List.foldl_nil]
    rw [resolveName, if_neg hdot, if_neg hdots]

variable {B : Beast}

/-- The file that an upload creates directories for and writes to is directly inside the root,
under the uuid and the extension of the image. -/
def WritesDirectly (io : RequestIO B) (outside : Outside) (h : MemeHandler) (memes : Memes)
    (req : Request B) : Prop :=
  ∀ path, (h.generateMeme io outside memes req).opened = some path →
    ∃ form extension, uploadForm io req = .ok form ∧
      imageExtension form.image.header = some extension ∧
        IsDirectlyInside h.root (outside.uuid ++ text "." ++ extension) path

/-- A file is opened for an upload past the checks. -/
theorem opened_generateMeme_iff {io : RequestIO B} {outside : Outside} {h : MemeHandler}
    {memes : Memes} {req : Request B} {path : Text} :
    (h.generateMeme io outside memes req).opened = some path ↔
      ∃ form extension, Uploads io outside h req form extension ∧
        h.uploadPath outside extension = path := by
  constructor
  · intro hopened
    cases generateMeme_cases io outside h memes req with
    | inl hupload =>
      obtain ⟨form, extension, hupload⟩ := hupload
      rw [hupload.generateMeme] at hopened
      exact ⟨form, extension, hupload, Option.some.inj hopened⟩
    | inr hrefused =>
      obtain ⟨status, message, -, heq⟩ := hrefused
      rw [heq] at hopened
      cases hopened
  · rintro ⟨form, extension, hupload, rfl⟩
    rw [hupload.generateMeme]

/-- An upload writes directly inside the root exactly when the extension that its client sent,
if there are directories for the file, has no slash. -/
theorem writesDirectly_iff (io : RequestIO B) {outside : Outside} (huuid : IsUuid outside.uuid)
    (h : MemeHandler) (memes : Memes) (req : Request B) :
    WritesDirectly io outside h memes req ↔
      ∀ form extension, uploadForm io req = .ok form →
        imageExtension form.image.header = some extension →
          outside.createsDirectories (h.uploadPath outside extension) = true →
            '/'.toUInt8 ∉ extension := by
  unfold WritesDirectly
  simp only [opened_generateMeme_iff]
  constructor
  · intro hdirectly form extension hform hextension hdirectories
    obtain ⟨other, same, hother, hsame, hinside⟩ :=
      hdirectly _ ⟨form, extension, ⟨hform, hextension, hdirectories⟩, rfl⟩
    obtain rfl : form = other := Except.ok.inj (hform.symm.trans hother)
    obtain rfl : extension = same := Option.some.inj (hextension.symm.trans hsame)
    exact (isDirectlyInside_iff h.root huuid extension).mp hinside
  · rintro hslash path ⟨form, extension, hupload, rfl⟩
    exact ⟨form, extension, hupload.parsed, hupload.typed,
      (isDirectlyInside_iff h.root huuid extension).mpr
        (hslash form extension hupload.parsed hupload.typed hupload.writable)⟩

/-- A form whose image has this content type. -/
def imageForm (contentType : Text) : Text :=
  let part := [text "Content-Type: " ++ contentType ++ text "\r", text "\r", text "1\r"]
  unlines (opening (text "----0123456789") ::
    Sections.join (List.replicate 3 (part, opening (text "----0123456789")) ++
      [(part, closing (text "----0123456789"))]))

/-- A uuid, and a file system on which everything can be written. -/
def somewhere : Outside where
  uuid := text "01234567-89ab-4cde-8f01-23456789abcd"
  createsDirectories _ := true
  opens _ := true

/-- The handler for memes under `/srv/memes`. -/
def memesHandler : MemeHandler where
  root := text "/srv/memes"
  initialised := true

/-- The uuid is one. -/
theorem isUuid_somewhere : IsUuid somewhere.uuid := ⟨rfl, by decide⟩

/-- Another uuid. -/
def elsewhere : Outside := { somewhere with uuid := text "fedcba98-7654-4321-8fed-cba987654321" }

/-- It is one as well. -/
theorem isUuid_elsewhere : IsUuid elsewhere.uuid := ⟨rfl, by decide⟩

/-- An image of a common type is written inside the root. -/
theorem writesDirectly_png :
    IsUuid somewhere.uuid ∧
      WritesDirectly listsIO somewhere memesHandler [] (postForm (imageForm (text "image/png"))) := by
  refine ⟨isUuid_somewhere, (writesDirectly_iff listsIO isUuid_somewhere _ _ _).mpr ?_⟩
  intro form extension hform hextension hdirectories
  have hread : (uploadForm listsIO (postForm (imageForm (text "image/png")))).toOption.bind
      (fun form => imageExtension form.image.header) = some (text "png") := by decide
  rw [hform] at hread
  obtain rfl : extension = text "png" := Option.some.inj (hextension.symm.trans hread)
  decide

/-- An extension that climbs out of the root does so. -/
theorem not_writesDirectly_climbing :
    ¬ ∀ (outside : Outside) (h : MemeHandler) (memes : Memes) (req : Request Beast.lists),
      IsUuid outside.uuid → WritesDirectly listsIO outside h memes req := by
  intro hdirectly
  have hread : (uploadForm listsIO (postForm (imageForm (text "image/x/../../evil")))).toOption.bind
      (fun form => imageExtension form.image.header) = some (text "x/../../evil") := by decide
  cases hform : uploadForm listsIO (postForm (imageForm (text "image/x/../../evil"))) with
  | error refusal =>
    rw [hform] at hread
    cases hread
  | ok form =>
    rw [hform] at hread
    obtain ⟨other, extension, hother, hextension, hinside⟩ :=
      hdirectly somewhere memesHandler [] _ isUuid_somewhere _
        (opened_generateMeme_iff.mpr ⟨form, _, ⟨hform, hread, rfl⟩, rfl⟩)
    obtain rfl : form = other := Except.ok.inj (hform.symm.trans hother)
    obtain rfl : text "x/../../evil" = extension := Option.some.inj (hread.symm.trans hextension)
    exact absurd ((isDirectlyInside_iff _ isUuid_somewhere _).mp hinside) (by decide)

end Aite.Handlers
