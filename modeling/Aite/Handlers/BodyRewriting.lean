import Aite.Handlers.ReverseProxy
import Aite.Lib.Insertion

/-!
# Rewriting the body of a proxied response

The passes over the body search it from left to right while it grows. Each of them inserts the
location at the places of one rule, and a location without quotes and parentheses cannot be
confused with what the rules look for. So the passes together insert it at every absolute
reference of the original body, whatever their order.
-/

namespace Aite.Handlers

open Http Insertion

/-- The places of absolute references. -/
def references : List (Rule UInt8) :=
  [⟨text "href=\"", text "/", '/'.toUInt8⟩, ⟨text "src=\"", text "/", '/'.toUInt8⟩,
    ⟨text "url(\"", text "/", '/'.toUInt8⟩, ⟨text "url(", text "\\2f ", '/'.toUInt8⟩]

/-- The body with the location at every absolute reference. -/
def rewritten (location body : Text) : Text :=
  insertAll (anySite references) location [] body

/-- Quotes and parentheses, behind which an absolute reference can begin. -/
def isOpener (c : UInt8) : Bool := c = '"'.toUInt8 || c = '('.toUInt8

/-- What an absolute reference can begin with. -/
def isCloser (c : UInt8) : Bool := c = '/'.toUInt8 || c = '\\'.toUInt8

/-- The rules tell the two sides of their places apart. -/
theorem wellFormed_of_mem_references {r : Rule UInt8} (h : r ∈ references) :
    r.WellFormed isOpener isCloser := by
  simp only [references, List.mem_cons, List.not_mem_nil, or_false] at h
  rcases h with rfl | rfl | rfl | rfl
  · exact ⟨⟨text "href=", '"'.toUInt8, rfl, rfl⟩, by decide, ⟨_, _, rfl, rfl⟩, by decide, by decide⟩
  · exact ⟨⟨text "src=", '"'.toUInt8, rfl, rfl⟩, by decide, ⟨_, _, rfl, rfl⟩, by decide, by decide⟩
  · exact ⟨⟨text "url(", '"'.toUInt8, rfl, rfl⟩, by decide, ⟨_, _, rfl, rfl⟩, by decide, by decide⟩
  · exact ⟨⟨text "url", '('.toUInt8, rfl, rfl⟩, by decide, ⟨_, _, rfl, rfl⟩, by decide, by decide⟩

/-- No two of the rules apply at one place. -/
theorem pairwise_apart_references : references.Pairwise Apart := by
  unfold references Apart
  decide

/-! ## One pass -/

variable {r : Rule UInt8}

/-- The search either finds nothing to insert at or the next match. -/
private theorem indexOf_match (h : r.WellFormed isOpener isCloser) (word : Text) {front : Text}
    (rest : Text) (hfront : NoStraddle r front rest) :
    match indexOf (r.opening ++ r.closing) rest with
    | none => insertAll r.site word front rest = rest
    | some i => ∃ skipped more, rest = skipped ++ (r.opening ++ r.closing ++ more) ∧
        skipped.length = i ∧
        insertAll r.site word front rest =
          skipped ++ insertAll r.site word (front ++ skipped) (r.opening ++ r.closing ++ more) ∧
        NoStraddle r (front ++ skipped) (r.opening ++ r.closing ++ more) := by
  induction rest generalizing front with
  | nil =>
    obtain ⟨start, last, hopening, -⟩ := h.opener
    have hne : r.opening ++ r.closing ≠ [] := by
      rw [hopening]
      simp
    rw [indexOf, if_neg hne]
    change insertAll r.site word front [] = []
    rw [insertAll, h.site_nil, if_neg Bool.false_ne_true]
  | cons a rest ih =>
    rw [indexOf]
    by_cases hmatch : (r.opening ++ r.closing).isPrefixOf (a :: rest) = true
    · rw [if_pos hmatch]
      obtain ⟨more, hmore⟩ := List.isPrefixOf_iff_prefix.mp hmatch
      refine ⟨[], more, hmore.symm, rfl, ?_, ?_⟩
      · rw [hmore, List.append_nil, List.nil_append]
      · rw [hmore, List.append_nil]
        exact hfront
    · rw [if_neg hmatch]
      obtain ⟨hinsert, hnext⟩ := insertAll_of_no_match h word hfront
        (fun hpre => hmatch (List.isPrefixOf_iff_prefix.mpr hpre))
      have hfound := ih hnext
      cases hindex : indexOf (r.opening ++ r.closing) rest with
      | none =>
        rw [hindex] at hfound
        rw [Option.map_none, hinsert]
        exact congrArg _ hfound
      | some i =>
        rw [hindex] at hfound
        obtain ⟨skipped, more, heq, hlength, hskip, hstraddle⟩ := hfound
        rw [List.append_assoc] at hskip hstraddle
        refine ⟨a :: skipped, more, congrArg _ heq, congrArg (· + 1) hlength, ?_, hstraddle⟩
        rw [hinsert, hskip]
        rfl

/-- A pass inserts at the places of its rule: from a position on, behind which nothing of an
earlier match reaches, it goes on with what is left of the original body. -/
private theorem replaceLoop_eq (h : r.WellFormed isOpener isCloser)
    (hblocked : r.blocked = '/'.toUInt8) (word done : Text) {front rest : Text} {fuel : ℕ}
    (hfuel : rest.length < fuel) (hfront : NoStraddle r front rest) :
    replaceLoop (r.opening ++ r.closing) (r.opening ++ word ++ r.closing) fuel (done ++ rest)
        done.length = .ok (done ++ insertAll r.site word front rest) := by
  induction fuel generalizing done front rest with
  | zero => omega
  | succ fuel ih =>
    have hfind : find (done ++ rest) (r.opening ++ r.closing) done.length =
        (indexOf (r.opening ++ r.closing) rest).map (· + done.length) := by
      rw [find, if_pos (by simp), List.drop_left]
    have hindex := indexOf_match h word rest hfront
    rw [replaceLoop, hfind]
    cases hfound : indexOf (r.opening ++ r.closing) rest with
    | none =>
      rw [hfound] at hindex
      rw [Option.map_none, hindex]
    | some i =>
      rw [hfound] at hindex
      obtain ⟨skipped, more, rfl, rfl, hskip, hstraddle⟩ := hindex
      have hnext := noStraddle_of_match h (front ++ skipped) more
      rw [hskip, insertAll_of_match h word hstraddle, Option.map_some]
      have hpos : skipped.length + done.length + (r.opening ++ r.closing).length =
          (done ++ skipped ++ (r.opening ++ r.closing)).length := by
        simp only [List.length_append]
        omega
      have hbody : done ++ (skipped ++ (r.opening ++ r.closing ++ more)) =
          done ++ skipped ++ (r.opening ++ r.closing) ++ more := by
        simp only [List.append_assoc]
      have hfirst : (done ++ skipped ++ (r.opening ++ r.closing) ++ more)[
          (done ++ skipped ++ (r.opening ++ r.closing)).length]? = more.head? := by
        rw [List.getElem?_append_right (Nat.le_refl _), Nat.sub_self, List.head?_eq_getElem?]
      have hshort : more.length < fuel := by
        obtain ⟨start, last, hopening, -⟩ := h.opener
        rw [hopening] at hfuel
        simp only [List.length_append, List.length_singleton] at hfuel
        omega
      simp only [hpos, hbody, hfirst, ← hblocked]
      by_cases hskipped : more.head? = some r.blocked
      · have hlength : (done ++ skipped ++ (r.opening ++ r.closing)).length <
            (done ++ skipped ++ (r.opening ++ r.closing) ++ more).length := by
          cases more with
          | nil => cases hskipped
          | cons c more => simp
        rw [if_pos ⟨hlength, hskipped⟩, ih _ hshort hnext, if_pos hskipped]
        simp only [List.append_assoc, List.nil_append]
      · have htake : (done ++ skipped ++ (r.opening ++ r.closing) ++ more).take
            (skipped.length + done.length) = done ++ skipped := by
          rw [List.append_assoc, Nat.add_comm, ← List.length_append, List.take_left]
        have htarget : skipped.length + done.length + (r.opening ++ word ++ r.closing).length =
            (done ++ skipped ++ (r.opening ++ word ++ r.closing)).length := by
          simp only [List.length_append]
          omega
        rw [if_neg (fun hand => hskipped hand.2), htake, List.drop_left, htarget,
          ih _ hshort hnext, if_neg hskipped]
        simp only [List.append_assoc]

variable (h : ReverseProxyRequestHandler)

/-- A pass inserts the location at the places of its rule, and ends. -/
theorem replacedAbsolutePaths_eq {r : Rule UInt8} (hr : r ∈ references) (body : Text) :
    h.replacedAbsolutePaths body r.opening r.closing =
      .ok (insertAll r.site h.location [] body) := by
  have hblocked : ∀ r ∈ references, r.blocked = '/'.toUInt8 := by decide
  exact replaceLoop_eq (wellFormed_of_mem_references hr) (hblocked r hr) h.location []
    (Nat.lt_succ_self _) (noStraddle_nil r body)

/-- Passes in any order insert the location at the places of all of their rules. -/
theorem foldlM_replacedAbsolutePaths {passes : List (Rule UInt8)}
    (hpasses : ∀ r ∈ passes, r ∈ references) (body : Text) :
    passes.foldlM (fun body r => h.replacedAbsolutePaths body r.opening r.closing) body =
      .ok (passes.foldl (fun body r => insertAll r.site h.location [] body) body) := by
  induction passes generalizing body with
  | nil => rfl
  | cons r passes ih =>
    obtain ⟨hr, hpasses⟩ := List.forall_mem_cons.mp hpasses
    rw [List.foldlM_cons, replacedAbsolutePaths_eq h hr, run_ok_bind, ih hpasses, List.foldl_cons]

/-- The four passes in any order insert the location at every absolute reference. -/
theorem passes_eq {passes : List (Rule UInt8)} (hperm : passes.Perm references)
    (hquote : '"'.toUInt8 ∉ h.location) (hparen : '('.toUInt8 ∉ h.location) (body : Text) :
    passes.foldlM (fun body r => h.replacedAbsolutePaths body r.opening r.closing) body =
      .ok (rewritten h.location body) := by
  have hmem : ∀ r ∈ passes, r ∈ references := fun r hr => hperm.mem_iff.mp hr
  have hapart : passes.Pairwise Apart :=
    (hperm.pairwise_iff fun hab => ⟨hab.2, hab.1⟩).mpr pairwise_apart_references
  have hword : ∀ c ∈ h.location, isOpener c = false := by
    intro c hc
    simp only [isOpener, Bool.or_eq_false_iff, decide_eq_false_iff_not]
    exact ⟨fun heq => hquote (heq ▸ hc), fun heq => hparen (heq ▸ hc)⟩
  rw [foldlM_replacedAbsolutePaths h hmem,
    foldl_insertAll (fun r hr => wellFormed_of_mem_references (hmem r hr)) hapart hword,
    anySite_perm hperm]
  rfl

variable {B : Beast}

/-- A response is prepared by the four passes over its body. -/
theorem prepareProxiedResp_passes (io : ResponseIO B) (resp : Response B) :
    h.prepareProxiedResp io resp =
      preparePayload io { unchunked io resp with
        body := references.foldl (fun body r => insertAll r.site h.location [] body) resp.body } := by
  have hpasses := foldlM_replacedAbsolutePaths h (fun _ hr => hr) resp.body
  have hprepare : h.prepareProxiedResp io resp =
      references.foldlM (fun body r => h.replacedAbsolutePaths body r.opening r.closing)
        resp.body >>= fun body => preparePayload io { unchunked io resp with body } := by
    simp only [references, List.foldlM_cons, List.foldlM_nil, bind_assoc, pure_bind]
    rfl
  rw [hprepare, hpasses, run_ok_bind]

/-- The body is empty after the passes only if it was before. -/
theorem passes_eq_nil_iff {passes : List (Rule UInt8)} (hpasses : ∀ r ∈ passes, r ∈ references)
    (body : Text) :
    passes.foldl (fun body r => insertAll r.site h.location [] body) body = [] ↔ body = [] := by
  induction passes generalizing body with
  | nil => exact Iff.rfl
  | cons r passes ih =>
    obtain ⟨hr, hpasses⟩ := List.forall_mem_cons.mp hpasses
    rw [List.foldl_cons, ih hpasses]
    exact (wellFormed_of_mem_references hr).insertAll_eq_nil_iff h.location [] body

/-- The response that is prepared has the location at every absolute reference. -/
theorem prepareProxiedResp_eq (io : ResponseIO B) (hquote : '"'.toUInt8 ∉ h.location)
    (hparen : '('.toUInt8 ∉ h.location) (resp : Response B) :
    h.prepareProxiedResp io resp =
      preparePayload io { unchunked io resp with body := rewritten h.location resp.body } := by
  have hpasses := passes_eq h (List.Perm.refl references) hquote hparen resp.body
  rw [foldlM_replacedAbsolutePaths h fun _ hr => hr] at hpasses
  rw [prepareProxiedResp_passes, Except.ok.inj hpasses]

/-- Rewriting a body is one exact substitution: every pass ends and inserts the location at the
places of its rule, the passes in any order insert it at all absolute references of the body,
and that is joining the pieces of the body between these with the location. -/
theorem prepareProxiedResp_rewrites (io : ResponseIO B) (hquote : '"'.toUInt8 ∉ h.location)
    (hparen : '('.toUInt8 ∉ h.location) (resp : Response B) :
    h.prepareProxiedResp io resp =
        preparePayload io { unchunked io resp with body := rewritten h.location resp.body } ∧
      (∀ proxied, h.prepareProxiedResp io resp = .ok proxied →
        proxied.body = rewritten h.location resp.body) ∧
      (∀ r ∈ references, ∀ body, h.replacedAbsolutePaths body r.opening r.closing =
        .ok (insertAll r.site h.location [] body)) ∧
      (∀ passes : List (Rule UInt8), passes.Perm references →
        passes.foldlM (fun body r => h.replacedAbsolutePaths body r.opening r.closing) resp.body =
          .ok (rewritten h.location resp.body)) ∧
      (pieces (anySite references) [] resp.body).flatten = resp.body ∧
      h.location.intercalate (pieces (anySite references) [] resp.body) =
        rewritten h.location resp.body := by
  have heq := prepareProxiedResp_eq h io hquote hparen resp
  refine ⟨heq, ?_, fun r hr body => replacedAbsolutePaths_eq h hr body,
    fun passes hperm => passes_eq h hperm hquote hparen resp.body,
    flatten_pieces _ _ _, intercalate_pieces _ _ _ _⟩
  intro proxied hproxied
  rw [heq, preparePayload] at hproxied
  split_ifs at hproxied
  exact Except.ok.inj hproxied ▸ rfl

/-- A page with references of all kinds, one of them to another server. -/
def linkedPage : Text :=
  text "<a href=\"/a\"><a href=\"//b\"><img src=\"/\">url(\"/c)url(\\2f d)href=\"/"

/-- The references of a page are rewritten. -/
theorem prepareProxiedResp_rewrites_linkedPage :
    rewritten proxyHandler.location linkedPage = text ("<a href=\"/proxy/a\"><a href=\"//b\">" ++
        "<img src=\"/proxy/\">url(\"/proxy/c)url(/proxy\\2f d)href=\"/proxy/") ∧
      ∀ proxied, proxyHandler.prepareProxiedResp listsResponseIO { body := linkedPage } =
        .ok proxied → proxied.body = rewritten proxyHandler.location linkedPage :=
  ⟨by decide, (prepareProxiedResp_rewrites proxyHandler listsResponseIO (by decide) (by decide)
    { body := linkedPage }).2.1⟩

end Aite.Handlers
