import Mathlib.Data.List.Basic
import Mathlib.Data.Int.Notation
import Mathlib.Data.Nat.Notation

/-!
# Bytes, undefined behaviour and exceptions

Buffers and strings are lists of bytes. A computation of the program that runs into
undefined behaviour or throws has no result: it is an error of one of these kinds.
-/

namespace Aite

universe u

/-- The bytes of a `std::string`, a character buffer or a stream. -/
abbrev Text := List UInt8

/-- What is said of all bytes of a text is decided along the text, not over all values of a byte. -/
instance (priority := high) decidableForallMem (p : UInt8 → Prop) [DecidablePred p] (t : Text) :
    Decidable (∀ c ∈ t, p c) := List.decidableBAll p t

/-- Texts that are compared as equal are equal. -/
instance lawfulText : LawfulBEq Text := inferInstanceAs (LawfulBEq (List UInt8))

/-- What is said of a byte, if there is one, is decided for that byte. -/
instance (priority := high) decidableForallMemOption (p : UInt8 → Prop) [DecidablePred p]
    (c : Option UInt8) : Decidable (∀ d ∈ c, p d) := Option.decidableForallMem c

/-- The bytes of an ASCII literal. -/
def text (s : String) : Text := s.toList.map Char.toUInt8

/-- Operations whose behaviour the language leaves undefined. -/
inductive Fault where
  /-- `back()` of an empty vector. -/
  | backOfEmpty
  /-- `pop_back()` of an empty vector. -/
  | popBackOfEmpty
  /-- `pop()` of an empty stack. -/
  | popOfEmpty
  /-- `top()` of an empty stack. -/
  | topOfEmpty
  /-- Use of an object that was never given a value. -/
  | uninitialised
  /-- Use of a pointer whose object does not exist. -/
  | dangling
  /-- `operator[]` of a vector behind its last element. -/
  | indexOutOfRange
  /-- `delete` of an object by a base class whose destructor is not virtual. -/
  | destructorNotVirtual
  deriving DecidableEq, Repr

/-- Exceptions that leave a function. -/
inductive Exn where
  /-- `std::invalid_argument`. -/
  | invalidArgument
  /-- `std::out_of_range`. -/
  | outOfRange
  /-- `boost::system::system_error`. -/
  | systemError
  /-- A request handler that does not return, for a reason that is none of these. -/
  | handlerError
  deriving DecidableEq, Repr

/-- The ways in which a computation ends without a result. -/
inductive Abort where
  | fault (f : Fault)
  | thrown (e : Exn)
  /-- The model's bound on the iterations of a loop was too small. -/
  | outOfFuel
  deriving DecidableEq, Repr

/-- Computations of the program. -/
abbrev Run (A : Type*) := Except Abort A

/-- A computation that has a result goes on with it. -/
@[simp] theorem run_ok_bind {A C : Type u} (a : A) (f : A → Run C) :
    ((.ok a : Run A) >>= f) = f a := rfl

/-- A computation that has no result does not go on. -/
@[simp] theorem run_error_bind {A C : Type u} (e : Abort) (f : A → Run C) :
    ((.error e : Run A) >>= f) = .error e := rfl

/-- A computation has a result when its first part has one from which the rest has it. -/
theorem run_bind_eq_ok {A C : Type u} {x : Run A} {f : A → Run C} {b : C} :
    (x >>= f) = .ok b ↔ ∃ a, x = .ok a ∧ f a = .ok b := by
  cases x with
  | error e => simp
  | ok a => simp

/-- `boost::tribool`. -/
inductive Tribool where
  | true
  | false
  | indeterminate
  deriving DecidableEq, Repr

/-- The value of a `char` as an `int`, plain `char` being signed. -/
def charToInt (c : UInt8) : ℤ := c.toInt8.toInt

/-- Bytes below 128 keep their value, the others become negative. -/
theorem charToInt_eq (c : UInt8) :
    charToInt c = if c.toNat < 128 then (c.toNat : ℤ) else (c.toNat : ℤ) - 256 := by
  have hc : c.toNat < 256 := c.toNat_lt
  have h : charToInt c = c.toBitVec.toInt := by
    rw [charToInt, ← Int8.toInt_toBitVec, UInt8.toBitVec_toInt8]
  rw [h, BitVec.toInt_eq_toNat_cond, UInt8.toNat_toBitVec]
  split <;> split <;> omega

end Aite
