import Aite.Http.RequestParser
import Mathlib.Algebra.Group.Int.Defs

/-!
# String functions of the standard library
-/

namespace Aite

open Http

/-- The bytes that `std::stoi` skips. -/
def isSpace (c : UInt8) : Bool := c = 32 || (9 ≤ c && c ≤ 13)

/-- The number that a sequence of digits denotes. -/
def digitsValue (digits : Text) : ℕ := digits.foldl (fun n c => 10 * n + (c.toNat - 48)) 0

/-- `std::stoi`: leading blanks, a sign and the longest sequence of digits; none when it throws. -/
def stoi (value : Text) : Option ℤ :=
  let number (negative : Bool) (rest : Text) : Option ℤ :=
    let digits := rest.takeWhile fun c => isDigit (charToInt c)
    let n : ℤ := if negative then -digitsValue digits else digitsValue digits
    if digits = [] then none else if -2 ^ 31 ≤ n ∧ n < 2 ^ 31 then some n else none
  match value.dropWhile isSpace with
  | [] => none
  | c :: rest =>
    if c = '-'.toUInt8 then number true rest
    else if c = '+'.toUInt8 then number false rest
    else number false (c :: rest)

/-- The number that a text begins with behind blanks and a sign, 0 when there is none. -/
def leadingNumber (value : Text) : ℤ :=
  let number (rest : Text) : ℤ := digitsValue (rest.takeWhile fun c => isDigit (charToInt c))
  match value.dropWhile isSpace with
  | [] => 0
  | c :: rest =>
    if c = '-'.toUInt8 then -number rest
    else if c = '+'.toUInt8 then number rest
    else number (c :: rest)

/-- `std::atoi`: the number is limited to 64 bits, and wraps around as an `int`. -/
def atoi (value : Text) : ℤ :=
  let n := leadingNumber value
  let limited := if n < -2 ^ 63 then -2 ^ 63 else if 2 ^ 63 ≤ n then 2 ^ 63 - 1 else n
  limited.bmod 4294967296

/-- `boost::trim(s)` -/
def trimSpaces (s : Text) : Text := ((s.dropWhile isSpace).reverse.dropWhile isSpace).reverse

/-- The offset of the first occurrence of a text. -/
def indexOf (needle : Text) : Text → Option ℕ
  | [] => if needle = [] then some 0 else none
  | c :: rest =>
    if needle.isPrefixOf (c :: rest) then some 0 else (indexOf needle rest).map (· + 1)

/-- `s.find(needle, pos)`, with `none` for `npos`. -/
def find (s needle : Text) (pos : ℕ) : Option ℕ :=
  if pos ≤ s.length then (indexOf needle (s.drop pos)).map (· + pos) else none

end Aite
