import Aite.Http.RequestHead
import Aite.Strings

/-!
# Numbers at the start of a text

The conversions of the standard library read blanks, a sign and digits at the start of a text
and ignore what follows. What they read is given once here, and texts are taken apart into the
sign, the digits and the rest.
-/

namespace Aite

open Http

/-- Whether the number at the start of a text has a minus sign, and its digits. -/
def signedDigits (value : Text) : Bool × Text :=
  let digits (rest : Text) : Text := rest.takeWhile fun c => isDigit (charToInt c)
  match value.dropWhile isSpace with
  | [] => (false, [])
  | c :: rest =>
    if c = '-'.toUInt8 then (true, digits rest)
    else if c = '+'.toUInt8 then (false, digits rest)
    else (false, digits (c :: rest))

/-- The number of digits behind a sign. -/
def signedValue (number : Bool × Text) : ℤ :=
  if number.1 then -digitsValue number.2 else digitsValue number.2

/-- The signs of a number. -/
def IsSign (sign : Text) (negative : Bool) : Prop :=
  sign = [] ∧ negative = false ∨ sign = text "+" ∧ negative = false ∨
    sign = text "-" ∧ negative = true

/-- Digits up to a byte that is none, or to the end. -/
structure IsLeadingDigits (digits rest : Text) : Prop where
  digit : ∀ c ∈ digits, IsDigit c
  longest : ∀ c ∈ rest.head?, ¬ IsDigit c

/-- The two signs differ. -/
private theorem plus_ne_minus : '+'.toUInt8 ≠ '-'.toUInt8 := by decide

/-- `std::stoi` converts the number at the start, unless it has no digits or does not fit. -/
theorem stoi_eq (value : Text) : stoi value =
    if (signedDigits value).2 = [] then none
    else if -2 ^ 31 ≤ signedValue (signedDigits value) ∧ signedValue (signedDigits value) < 2 ^ 31
      then some (signedValue (signedDigits value)) else none := by
  unfold stoi signedDigits
  cases value.dropWhile isSpace with
  | nil => rfl
  | cons c rest =>
    by_cases hminus : c = '-'.toUInt8
    · simp only [hminus, if_true, signedValue]
    · by_cases hplus : c = '+'.toUInt8
      · simp only [hplus, plus_ne_minus, if_true, if_false, signedValue, Bool.false_eq_true]
      · simp only [hminus, hplus, if_false, signedValue, Bool.false_eq_true]

/-- `std::atoi` starts from the number at the start of a text. -/
theorem leadingNumber_eq (value : Text) : leadingNumber value = signedValue (signedDigits value) := by
  unfold leadingNumber signedDigits
  cases value.dropWhile isSpace with
  | nil => rfl
  | cons c rest =>
    by_cases hminus : c = '-'.toUInt8
    · simp only [hminus, if_true, signedValue]
    · by_cases hplus : c = '+'.toUInt8
      · simp only [hplus, plus_ne_minus, if_true, if_false, signedValue, Bool.false_eq_true]
      · simp only [hminus, hplus, if_false, signedValue, Bool.false_eq_true]

/-- A digit is none of the bytes that may stand before a number. -/
theorem digit_not_space {c : UInt8} (h : IsDigit c) : isSpace c = false := by
  rw [isDigit_iff] at h
  simp only [isSpace, UInt8.le_iff_toNat_le, Bool.or_eq_false_iff, Bool.and_eq_false_imp,
    decide_eq_false_iff_not, decide_eq_true_eq]
  refine ⟨?_, fun _ => ?_⟩
  · rintro rfl
    revert h
    decide
  · change ¬ c.toNat ≤ 13
    omega

/-- A digit is not a sign. -/
theorem digit_not_sign {c : UInt8} (h : IsDigit c) : c ≠ '-'.toUInt8 ∧ c ≠ '+'.toUInt8 := by
  rw [isDigit_iff] at h
  constructor <;> rintro rfl <;> revert h <;> decide

/-- The digits at the start are determined. -/
private theorem takeWhile_digits {digits rest : Text} (h : IsLeadingDigits digits rest) :
    (digits ++ rest).takeWhile (fun c => isDigit (charToInt c)) = digits := by
  rw [List.takeWhile_append_of_pos h.digit]
  cases rest with
  | nil => simp
  | cons c rest =>
    have hc : ¬ isDigit (charToInt c) = true := h.longest c rfl
    rw [List.takeWhile_cons_of_neg (p := fun c => isDigit (charToInt c)) hc, List.append_nil]

/-- A sign and digits are read, whatever follows the digits. -/
theorem signedDigits_append {sign digits rest : Text} {negative : Bool} (hsign : IsSign sign negative)
    (hdigits : IsLeadingDigits digits rest) (hne : digits ≠ []) :
    signedDigits (sign ++ (digits ++ rest)) = (negative, digits) := by
  have htake := takeWhile_digits hdigits
  unfold signedDigits
  rcases hsign with ⟨rfl, rfl⟩ | ⟨rfl, rfl⟩ | ⟨rfl, rfl⟩
  · cases digits with
    | nil => exact absurd rfl hne
    | cons c digits =>
      have hc : IsDigit c := hdigits.digit c (by simp)
      rw [List.nil_append, List.cons_append,
        List.dropWhile_cons_of_neg (by simp [digit_not_space hc])]
      simp only [digit_not_sign hc, if_false]
      rw [← List.cons_append, htake]
  · change ((false, (digits ++ rest).takeWhile _) : Bool × Text) = _
    rw [htake]
  · change ((true, (digits ++ rest).takeWhile _) : Bool × Text) = _
    rw [htake]

/-- A text without blanks in front begins with the sign and the digits that are read. -/
theorem exists_of_signedDigits {value : Text} (h : ∀ c ∈ value.head?, isSpace c = false) :
    ∃ sign rest, value = sign ++ ((signedDigits value).2 ++ rest) ∧
      IsSign sign (signedDigits value).1 ∧ IsLeadingDigits (signedDigits value).2 rest := by
  have hsplit (t : Text) : t = t.takeWhile (fun c => isDigit (charToInt c)) ++
        t.dropWhile (fun c => isDigit (charToInt c)) ∧
      IsLeadingDigits (t.takeWhile fun c => isDigit (charToInt c))
        (t.dropWhile fun c => isDigit (charToInt c)) := by
    refine ⟨List.takeWhile_append_dropWhile.symm, ?_, ?_⟩
    · exact fun c hc => (List.all_eq_true.mp List.all_takeWhile) c hc
    · intro c hc
      have hnot := List.head?_dropWhile_not (fun c => isDigit (charToInt c)) t
      rw [hc] at hnot
      simpa [IsDigit] using hnot
  unfold signedDigits
  cases value with
  | nil => exact ⟨[], [], rfl, .inl ⟨rfl, rfl⟩, by simp, by simp⟩
  | cons c value =>
    have hc : ¬ isSpace c = true := by simpa using h
    rw [List.dropWhile_cons_of_neg hc]
    dsimp only
    split_ifs with hminus hplus
    · obtain ⟨heq, hdigits⟩ := hsplit value
      refine ⟨text "-", _, ?_, .inr (.inr ⟨rfl, rfl⟩), hdigits⟩
      rw [← heq, hminus]
      rfl
    · obtain ⟨heq, hdigits⟩ := hsplit value
      refine ⟨text "+", _, ?_, .inr (.inl ⟨rfl, rfl⟩), hdigits⟩
      rw [← heq, hplus]
      rfl
    · obtain ⟨heq, hdigits⟩ := hsplit (c :: value)
      exact ⟨[], _, heq, .inl ⟨rfl, rfl⟩, hdigits⟩

/-! ## Numbers that are written -/

/-- The character of a digit. -/
private theorem isDigit_digitChar {d : ℕ} (h : d < 10) : IsDigit (Nat.digitChar d).toUInt8 ∧
    (Nat.digitChar d).toUInt8.toNat - 48 = d := by
  rw [isDigit_iff]
  interval_cases d <;> decide

/-- A numeral is written with its last digit behind the numeral of the others. -/
private theorem text_toString (n : ℕ) : text (toString n) =
    (if n < 10 then [] else text (toString (n / 10))) ++ [(Nat.digitChar (n % 10)).toUInt8] := by
  simp only [text, Nat.toString_eq_repr, Nat.toList_repr]
  rw [Nat.toDigits_eq_if (by decide)]
  split_ifs with h
  · rw [Nat.mod_eq_of_lt h]
    rfl
  · rw [List.map_append]
    rfl

/-- One more digit at the end. -/
theorem digitsValue_append (digits : Text) (c : UInt8) :
    digitsValue (digits ++ [c]) = 10 * digitsValue digits + (c.toNat - 48) := by
  simp [digitsValue]

/-- A number is written in digits that denote it. -/
theorem digits_toString (n : ℕ) : text (toString n) ≠ [] ∧
    (∀ c ∈ text (toString n), IsDigit c) ∧ digitsValue (text (toString n)) = n := by
  induction n using Nat.strong_induction_on with
  | _ n ih =>
    obtain ⟨hdigit, hvalue⟩ := isDigit_digitChar (Nat.mod_lt n (by omega : 10 > 0))
    rw [text_toString, digitsValue_append, hvalue]
    by_cases hsmall : n < 10
    · rw [if_pos hsmall]
      refine ⟨List.cons_ne_nil _ _, by simpa using hdigit, ?_⟩
      change 10 * 0 + n % 10 = n
      omega
    · obtain ⟨-, hdigits, hrest⟩ := ih (n / 10) (by omega)
      rw [if_neg hsmall, hrest]
      refine ⟨List.append_ne_nil_of_right_ne_nil _ (List.cons_ne_nil _ _), ?_, by omega⟩
      intro c hc
      cases List.mem_append.mp hc with
      | inl hc => exact hdigits c hc
      | inr hc => exact List.mem_singleton.mp hc ▸ hdigit

end Aite
