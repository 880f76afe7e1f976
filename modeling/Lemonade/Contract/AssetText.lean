import Lemonade.Contract.Types
import Mathlib.Tactic

/-!
# Assets as text

How the vendored library writes an asset.  The decimal numeral is written from its
end; in the model a position is the number of characters that are still to be
written, and the text grows at the front.  The buffer of `to_string` has room for
every asset, so only the writing branch is modelled.
-/

namespace Lemonade

section Decimals

/-- `powers_of_base<10, uint64_t>` -/
def powersOfTen : List Nat := (List.range 20).map fun i => 10 ^ i

/-- `std::upper_bound` in the powers of ten: the number of digits, zero for zero -/
def numDigits (number : Nat) : Nat := powersOfTen.findIdx fun power => number < power

/-- `(number % 10) + '0'` -/
def lastDigit (number : Nat) : Char := Char.ofNat (number % 10 + '0'.toNat)

/-- `for( ; number > 0 && i > decimal_point_pos; --i )` -/
def writeFraction (decimalPointPos : Nat) : Nat → Nat → Text → Nat × Nat × Text
  | 0, number, text => (0, number, text)
  | i + 1, number, text =>
      if 0 < number ∧ decimalPointPos < i then
        writeFraction decimalPointPos i (number / 10) (lastDigit number :: text)
      else
        (i + 1, number, text)

/-- `for( ; i > decimal_point_pos; --i )` -/
def writeZeros (decimalPointPos : Nat) : Nat → Text → Nat × Text
  | 0, text => (0, text)
  | i + 1, text =>
      if decimalPointPos < i then writeZeros decimalPointPos i ('0' :: text) else (i + 1, text)

/-- `for( ; i >= after_minus_pos; --i )` -/
def writeWhole (afterMinusPos : Nat) : Nat → Nat → Text → Nat × Text
  | 0, _, text => (0, text)
  | i + 1, number, text =>
      if afterMinusPos ≤ i then
        writeWhole afterMinusPos i (number / 10) (lastDigit number :: text)
      else
        (i + 1, text)

/-- `write_decimal` -/
def writeDecimal (number numDecimalPlaces : Nat) (negative : Bool) : Text :=
  let digits := numDigits number
  let charactersNeeded := max digits numDecimalPlaces
  let (charactersNeeded, decimalPointPos) :=
    if digits ≤ numDecimalPlaces then (charactersNeeded + 1, 1)
    else (charactersNeeded, digits - numDecimalPlaces)
  let charactersNeeded := if 0 < numDecimalPlaces then charactersNeeded + 1 else charactersNeeded
  let (charactersNeeded, afterMinusPos, decimalPointPos) :=
    if negative then (charactersNeeded + 1, 1, decimalPointPos + 1)
    else (charactersNeeded, 0, decimalPointPos)
  let (left, number, text) := writeFraction decimalPointPos charactersNeeded number []
  let (left, text) := writeZeros decimalPointPos left text
  let (left, text) := if left = decimalPointPos + 1 then (left - 1, '.' :: text) else (left, text)
  let (left, text) := writeWhole afterMinusPos left number text
  if left = 1 then '-' :: text else text

end Decimals

section Text

/-- The loop of `symbol_code::write_as_string`. -/
def codeChars : Nat → Nat → Text
  | 0, _ => []
  | i + 1, v => if v = 0 then [] else Char.ofNat (v % 256) :: codeChars i (v / 256)

/-- `symbol_code::write_as_string` -/
def SymbolCode.writeAsString (code : SymbolCode) : Text := codeChars 7 code.raw.toNat

/-- `asset::write_as_string` -/
def Asset.writeAsString (a : Asset) : Text :=
  writeDecimal a.amount.toInt.natAbs a.symbol.precision.toNat (decide (a.amount < 0)) ++
    ' ' :: a.symbol.code.writeAsString

end Text

end Lemonade
