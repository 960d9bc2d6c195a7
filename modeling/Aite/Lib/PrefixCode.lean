import Mathlib.Data.List.Infix

/-!
# Words that end by themselves

The words of a code are separated when each of them can be told from whatever is written behind it.
Words of one length are, and words up to a mark. So are two separated words in a row, and a list of
separated words up to an end that none of them begins like. A stream of separated words can be read
in one way only, and every beginning of it too.
-/

namespace PrefixCode

variable {A M N : Type*}

/-- The valid message that a sequence begins with is determined by the sequence. -/
def Separates (valid : M → Prop) (encode : M → List A) : Prop :=
  ∀ m n, valid m → valid n → ∀ rest more, encode m ++ rest = encode n ++ more → m = n

variable {valid : M → Prop} {encode : M → List A}

/-- Behind the same message, the same is left. -/
theorem Separates.append_inj (h : Separates valid encode) {m n : M} (hm : valid m) (hn : valid n)
    {rest more : List A} (heq : encode m ++ rest = encode n ++ more) : m = n ∧ rest = more := by
  obtain rfl := h m n hm hn rest more heq
  exact ⟨rfl, List.append_cancel_left heq⟩

/-- Sequences of one length are separated. -/
theorem separates_of_length {P : List A → Prop}
    (hlength : ∀ s t, P s → P t → s.length = t.length) : Separates P fun s => s := by
  intro s t hs ht rest more heq
  exact (List.append_inj heq (hlength s t hs ht)).1

/-- Sequences without a mark are separated by the mark. -/
theorem separates_until (mark : A) (behind : List A) :
    Separates (fun s => mark ∉ s) fun s => s ++ mark :: behind := by
  intro s t hs ht rest more heq
  induction s generalizing t with
  | nil =>
    cases t with
    | nil => rfl
    | cons b t =>
      obtain ⟨rfl, -⟩ := List.cons.inj heq
      exact absurd List.mem_cons_self ht
  | cons a s ih =>
    cases t with
    | nil =>
      obtain ⟨rfl, -⟩ := List.cons.inj heq
      exact absurd List.mem_cons_self hs
    | cons b t =>
      obtain ⟨rfl, hrest⟩ := List.cons.inj heq
      rw [ih t (fun h => hs (List.mem_cons_of_mem _ h)) (fun h => ht (List.mem_cons_of_mem _ h)) hrest]

/-- A word, and behind it one of a code that may depend on the first message. -/
theorem Separates.pair (h : Separates valid encode) {valid' : M → N → Prop} {encode' : N → List A}
    (h' : ∀ m, valid m → Separates (valid' m) encode') :
    Separates (fun p : M × N => valid p.1 ∧ valid' p.1 p.2) fun p => encode p.1 ++ encode' p.2 := by
  intro ⟨m, m'⟩ ⟨n, n'⟩ ⟨hm, hm'⟩ ⟨hn, hn'⟩ rest more heq
  rw [List.append_assoc, List.append_assoc] at heq
  obtain ⟨rfl, heq⟩ := h.append_inj hm hn heq
  rw [h' m hm m' n' hm' hn' rest more heq]

/-- Messages that are told from others by a part, which is what is written of them. -/
theorem Separates.of_part (h : Separates valid encode) {valid' : N → Prop} {encode' : N → List A}
    {part : N → M} (hpart : Function.Injective part) (hvalid : ∀ n, valid' n → valid (part n))
    (hencode : ∀ n, encode' n = encode (part n)) : Separates valid' encode' := by
  intro m n hm hn rest more heq
  rw [hencode, hencode] at heq
  exact hpart (h _ _ (hvalid m hm) (hvalid n hn) rest more heq)

/-- A list of messages up to an end that no message begins like. -/
theorem Separates.until (h : Separates valid encode) {stop : List A}
    (hstop : ∀ m, valid m → ∀ rest more, encode m ++ rest ≠ stop ++ more) :
    Separates (fun ms : List M => ∀ m ∈ ms, valid m) fun ms => ms.flatMap encode ++ stop := by
  intro ms ns hms hns rest more heq
  induction ms generalizing ns with
  | nil =>
    cases ns with
    | nil => rfl
    | cons n ns =>
      simp only [List.flatMap_nil, List.nil_append, List.flatMap_cons, List.append_assoc] at heq
      exact absurd heq.symm (hstop n (List.forall_mem_cons.mp hns).1 _ _)
  | cons m ms ih =>
    obtain ⟨hm, hms⟩ := List.forall_mem_cons.mp hms
    cases ns with
    | nil =>
      simp only [List.flatMap_nil, List.nil_append, List.flatMap_cons, List.append_assoc] at heq
      exact absurd heq (hstop m hm _ _)
    | cons n ns =>
      obtain ⟨hn, htail⟩ := List.forall_mem_cons.mp hns
      simp only [List.flatMap_cons, List.append_assoc] at heq
      obtain ⟨rfl, hrest⟩ := h.append_inj hm hn heq
      rw [ih ns hms htail (by simpa only [List.append_assoc] using hrest)]

/-- Whatever messages a beginning of a stream can be read as, the stream begins with them. -/
theorem Separates.prefix_of_prefix (h : Separates valid encode)
    (hne : ∀ m, valid m → encode m ≠ []) {ms ns : List M} (hms : ∀ m ∈ ms, valid m)
    (hns : ∀ n ∈ ns, valid n) (hpre : ms.flatMap encode <+: ns.flatMap encode) : ms <+: ns := by
  induction ms generalizing ns with
  | nil => exact List.nil_prefix
  | cons m ms ih =>
    obtain ⟨hm, hms⟩ := List.forall_mem_cons.mp hms
    obtain ⟨rest, heq⟩ := hpre
    cases ns with
    | nil =>
      rw [List.flatMap_cons, List.append_assoc] at heq
      exact absurd (List.append_eq_nil_iff.mp heq).1 (hne m hm)
    | cons n ns =>
      obtain ⟨hn, htail⟩ := List.forall_mem_cons.mp hns
      rw [List.flatMap_cons, List.flatMap_cons, List.append_assoc] at heq
      obtain ⟨rfl, hrest⟩ := h.append_inj hm hn heq
      exact List.cons_prefix_cons.mpr ⟨rfl, ih hms htail ⟨rest, hrest⟩⟩

end PrefixCode
