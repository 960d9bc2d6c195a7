import Aite.Handlers.Gallery

/-!
# Uploads that fail

The style of an upload is looked at last, when the image is written and the meme is in the
gallery. So of the ways in which an upload fails, those before the file leave nothing behind,
and a style that does not exist leaves a file and a meme, or ends without a response when it is
no number.
-/

namespace Aite.Handlers

open Http (Beast Request Response)
open Routing

variable {B : Beast} {io : RequestIO B} {outside : Outside} {h : MemeHandler} {memes : Memes}
  {req : Request B} {form : Form} {extension : Text}

/-- There is a response, and unless it has status 200, the gallery is as before and no file was
written. -/
def LeavesNothing (before : Memes) (outcome : Outcome B) : Prop :=
  ∃ response, outcome.response = .ok response ∧
    (response.result ≠ 200 → outcome.memes = before ∧ outcome.file = none)

/-- An upload that gets past the other checks names a style, or else at least a number, when its
file cannot be opened and the address of its image is in the gallery. -/
def NamesStyleOrRepeats (io : RequestIO B) (outside : Outside) (h : MemeHandler) (memes : Memes)
    (req : Request B) : Prop :=
  ∀ form extension, Uploads io outside h req form extension →
    IsStyle form.chosenStyle ∨
      (stoi form.chosenStyle ≠ none ∧
        outside.opens (h.uploadPath outside extension) = false ∧
          h.imgUrl outside extension ∈ memes.map Prod.fst)

/-- Entering a meme changes nothing exactly when its address is in the gallery. -/
theorem logMeme_eq_self_iff {imgUrl : Text} {selections : List Text} :
    logMeme imgUrl selections memes = memes ↔ imgUrl ∈ memes.map Prod.fst := by
  constructor
  · intro heq
    by_contra hnew
    have hlength := congrArg List.length heq
    rw [logMeme_eq hnew, List.length_append, List.length_singleton] at hlength
    omega
  · intro hmem
    have hlookup : (memes.lookup imgUrl).isSome = true := by
      obtain ⟨entry, hentry, rfl⟩ := List.mem_map.mp hmem
      rw [List.lookup_isSome_iff]
      exact ⟨entry, hentry, beq_self_eq_true _⟩
    rw [logMeme, if_pos hlookup]

/-- A style has a page. -/
private theorem answer_of_isStyle (hstyle : IsStyle form.chosenStyle) (imgUrl : Text) :
    ∃ page, form.answer B imgUrl = .ok (htmlPage B page) := by
  obtain ⟨n, rules, css, hn, hrules, -⟩ := hstyle.exists_rules
  have hrun : stoiRun form.chosenStyle = .ok n := by rw [stoiRun, hn]
  rw [Form.answer, hrun, run_ok_bind, hrules]
  exact ⟨_, rfl⟩

/-- A number that is no style is answered with an error page. -/
private theorem answer_of_number {n : ℤ} (hn : stoi form.chosenStyle = some n)
    (hstyle : ¬ IsStyle form.chosenStyle) (imgUrl : Text) :
    form.answer B imgUrl = .ok (showErrorPage B 400 (text "Invalid meme request")) := by
  have hrun : stoiRun form.chosenStyle = .ok n := by rw [stoiRun, hn]
  have hrules : memeRules n = none := by
    have hnot : ¬ (n = 1 ∨ n = 2 ∨ n = 3) := fun heq => hstyle ⟨n, hn, heq⟩
    rw [not_or, not_or] at hnot
    rw [memeRules, if_neg hnot.1, if_neg hnot.2.1, if_neg hnot.2.2]
  rw [Form.answer, hrun, run_ok_bind, hrules]

/-- Where there is no number, there is no answer. -/
private theorem answer_of_no_number (hn : stoi form.chosenStyle = none) (imgUrl : Text) :
    form.answer B imgUrl = .error (.thrown (stoiExn form.chosenStyle)) := by
  have hrun : stoiRun form.chosenStyle = .error (.thrown (stoiExn form.chosenStyle)) := by
    rw [stoiRun, hn]
  rw [Form.answer, hrun, run_error_bind]

/-- Past the other checks, the style decides, and without one what was there before. -/
theorem Uploads.leavesNothing (hupload : Uploads io outside h req form extension) :
    LeavesNothing memes (h.generateMeme io outside memes req) ↔
      IsStyle form.chosenStyle ∨
        (stoi form.chosenStyle ≠ none ∧
          outside.opens (h.uploadPath outside extension) = false ∧
            h.imgUrl outside extension ∈ memes.map Prod.fst) := by
  rw [hupload.generateMeme, LeavesNothing]
  by_cases hstyle : IsStyle form.chosenStyle
  · obtain ⟨page, hpage⟩ := answer_of_isStyle (B := B) hstyle (h.imgUrl outside extension)
    have hok : (htmlPage B page).result = 200 := rfl
    rw [hpage]
    exact iff_of_true ⟨_, rfl, fun hfail => absurd hok hfail⟩ (Or.inl hstyle)
  · cases hn : stoi form.chosenStyle with
    | none =>
      rw [answer_of_no_number hn]
      simp [hstyle]
    | some n =>
      have hfailed : (showErrorPage B 400 (text "Invalid meme request")).result ≠ 200 := by
        change 400 ≠ 200
        omega
      have hfile : (if outside.opens (h.uploadPath outside extension) = true then
          some (h.uploadPath outside extension, form.image.body) else none) = none ↔
            outside.opens (h.uploadPath outside extension) = false := by
        rw [ite_eq_right_iff, Bool.eq_false_iff]
        exact forall_congr' fun _ => iff_of_false (Option.some_ne_none _) id
      rw [answer_of_number hn hstyle]
      simp only [Except.ok.injEq, exists_eq_left', hfailed, ne_eq, not_false_eq_true, true_imp_iff,
        logMeme_eq_self_iff, hfile, hstyle, false_or, reduceCtorEq, true_and]
      exact and_comm

/-- A failed upload leaves nothing behind exactly when every upload that gets past the other
checks names a style, or has a number for it and neither file nor meme is new. -/
theorem leavesNothing_iff (io : RequestIO B) (outside : Outside) (h : MemeHandler) (memes : Memes)
    (req : Request B) :
    LeavesNothing memes (h.generateMeme io outside memes req) ↔
      NamesStyleOrRepeats io outside h memes req := by
  by_cases hpast : ∃ form extension, Uploads io outside h req form extension
  · obtain ⟨form, extension, hupload⟩ := hpast
    rw [hupload.leavesNothing]
    constructor
    · intro hstyle other another hother
      obtain ⟨rfl, rfl⟩ := hupload.unique hother
      exact hstyle
    · exact fun hnames => hnames form extension hupload
  · obtain ⟨status, message, -, heq⟩ :=
      (generateMeme_cases io outside h memes req).resolve_left hpast
    rw [heq]
    apply iff_of_true
    · exact ⟨_, rfl, fun _ => ⟨rfl, rfl⟩⟩
    · exact fun form extension hupload => absurd ⟨form, extension, hupload⟩ hpast

/-- An upload whose style is no number has no response, after its file was written. -/
theorem not_leavesNothing_wordStyle :
    ¬ ∀ req : Request Beast.lists,
      LeavesNothing [] (memesHandler.generateMeme listsIO somewhere [] req) := by
  intro h
  obtain ⟨response, hresponse, -⟩ := h (styledUpload (text "bold")).req
  have hthrown : (memesHandler.generateMeme listsIO somewhere []
      (styledUpload (text "bold")).req).response.isOk = false := by decide
  rw [hresponse] at hthrown
  cases hthrown

end Aite.Handlers
