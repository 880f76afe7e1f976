import Lemonade.Contract.Types
import Lemonade.Kernel.Splitting
import Mathlib.Data.List.DropRight
import Mathlib.Tactic

/-!
# Memo texts

What the notification handler reads out of the memo of a transfer: the fields
between slashes, numbers, and amounts such as `1.0000 LED`.  The text functions
follow utils.hpp, their checked arithmetic follows safe.hpp.
-/

namespace Lemonade

open Kernel

section Fields

/-- `str.find(c, pos)`; `none` is `npos`. -/
def findChar (c : Char) (str : Text) (pos : Nat) : Option Nat :=
  ((str.drop pos).findIdx? fun x => x = c).map fun i => pos + i

theorem findChar_of_mem {c : Char} {str : Text} {pos : Nat} (h : c ∈ str.drop pos) :
    ∃ piece rest, str.drop pos = piece ++ c :: rest ∧ c ∉ piece ∧
      findChar c str pos = some (pos + piece.length) := by
  obtain ⟨piece, rest, hsplit, hpiece, hfind⟩ := exists_first_piece h
  refine ⟨piece, rest, hsplit, hpiece, ?_⟩
  rw [findChar, hfind]
  rfl

theorem findChar_of_not_mem {c : Char} {str : Text} {pos : Nat} (h : c ∉ str.drop pos) :
    findChar c str pos = none := by
  rw [findChar, findIdx?_eq_none_of_not_mem h]
  rfl

/-- `pos + 1`, which is zero for `npos`. -/
def afterPos : Option Nat → Nat
  | none => 0
  | some pos => pos + 1

/-- The loop of `memoParser`.  Before each round `pos` and `prev` are the same;
a round without end would need more separators than the memo has characters. -/
def memoParserLoop (memo : Text) : Nat → Option Nat → List Text → List Text
  | 0, _, result => result
  | fuel + 1, prev, result =>
      match findChar '/' memo (afterPos prev) with
      | none => result ++ [memo.drop (afterPos prev)]
      | some pos =>
          memoParserLoop memo fuel (some pos)
            (result ++ [(memo.drop (afterPos prev)).take (pos - afterPos prev)])

/-- `lemonade::memoParser` -/
def memoParser (memo : Text) : List Text :=
  let prev := findChar '/' memo 0
  memoParserLoop memo (memo.length + 1) prev [memo.take (prev.getD memo.length)]

end Fields

section Numbers

/-- `std::isspace` -/
def isSpace (c : Char) : Bool := c = ' ' || ('\t' ≤ c && c ≤ '\r')

/-- The sign that `stoull` reads. -/
def readSign : Text → Bool × Text
  | '-' :: rest => (true, rest)
  | '+' :: rest => (false, rest)
  | rest => (false, rest)

/-- Value of a string of decimal digits. -/
def digitsValue (digits : Text) : Nat :=
  digits.foldl (fun value c => value * 10 + (c.toNat - '0'.toNat)) 0

/-- `std::stoull` -/
def stoull (str : Text) : Result Nat := do
  let (negative, rest) := readSign (str.dropWhile isSpace)
  let digits := rest.takeWhile Char.isDigit
  demand (digits ≠ []) (.trap "std::invalid_argument")
  let value := digitsValue digits
  demand (value < 2 ^ 64) (.trap "std::out_of_range")
  return if negative then (2 ^ 64 - value) % 2 ^ 64 else value

/-- `operator+` of `safe<int64_t>` -/
def safeAdd (a b : Int64) : Result Int64 := do
  check (¬ (0 < b ∧ Int64.maxValue - b < a)) "overflow_exception, (a)(b)"
  check (¬ (b < 0 ∧ a < Int64.minValue - b)) "underflow_exception, (a)(b)"
  return a + b

/-- `operator-` of `safe<int64_t>` -/
def safeSub (a b : Int64) : Result Int64 := do
  check (¬ (0 < b ∧ a < Int64.minValue + b)) "underflow_exception, (a)(b)"
  check (¬ (b < 0 ∧ Int64.maxValue + b < a)) "overflow_exception, (a)(b)"
  return a - b

/-- `operator*` of `safe<int64_t>` -/
def safeMul (a b : Int64) : Result Int64 := do
  if 0 < a then
    if 0 < b then
      check (¬ Int64.maxValue / b < a) "overflow_exception, (a)(b)"
    else
      check (¬ b < Int64.minValue / a) "underflow_exception, (a)(b)"
  else
    if 0 < b then
      check (¬ a < Int64.minValue / b) "underflow_exception, (a)(b)"
    else
      check (¬ (a ≠ 0 ∧ b < Int64.maxValue / a)) "overflow_exception, (a)(b)"
  return a * b

/-- `operator/` of `safe<int64_t>` -/
def safeDiv (a b : Int64) : Result Int64 := do
  check (b ≠ 0) "divide_by_zero_exception, (a)(b)"
  check (¬ (a = Int64.minValue ∧ b = -1)) "overflow_exception, (a)(b)"
  return a / b

/-- `operator%` of `safe<int64_t>` -/
def safeMod (a b : Int64) : Result Int64 := do
  check (b ≠ 0) "divide_by_zero_exception, (a)(b)"
  check (¬ (a = Int64.minValue ∧ b = -1)) "overflow_exception, (a)(b)"
  return a % b

/-- Unary `operator-` of `safe<int64_t>` -/
def safeNeg (a : Int64) : Result Int64 := do
  check (¬ a = Int64.minValue) "overflow_exception, (*this)"
  return -a

end Numbers

section Amounts

/-- `trim` -/
def trim (sv : Text) : Text :=
  (sv.dropWhile fun c => c = ' ').rdropWhile fun c => c = ' '

/-- The loop of `to_int`, over the reversed string. -/
def toIntLoop : Text → Int64 → Int64 → Result Int64
  | [], res, _ => .ok res
  | c :: rest, res, p => do
      check (c ≤ '9' ∧ '0' ≤ c) "invalid character"
      let digit ← safeMul p (Int64.ofNat (c.toNat - '0'.toNat))
      let res ← safeAdd res digit
      let p ← safeMul p 10
      toIntLoop rest res p

/-- `to_int<safe<int64_t>>` -/
def parseInt (sv : Text) : Result Int64 := toIntLoop sv.reverse 0 1

/-- `while (p > 0) { p10 *= 10; --p; }` for an eight-bit `p` -/
def powerOfTen : Nat → Int64 → Result Int64
  | 0, p10 => .ok p10
  | n + 1, p10 => do
      let p10 ← safeMul p10 10
      powerOfTen n p10

/-- `precision_from_decimals<safe<int64_t>>` -/
def precisionFromDecimals (decimals : Int8) : Result Int64 := do
  check (decimals ≤ 18) "precision should be <= 18"
  powerOfTen decimals.toInt.toNat 1

/-- Integer and fraction digits of the amount as read by `asset_from_string`. -/
def parseParts (amountStr : Text) : Option Nat → Result (Int64 × Int64)
  | some dotPos => do
      let intPart ← parseInt (amountStr.take dotPos)
      let fractPart ← parseInt (amountStr.drop (dotPos + 1))
      if amountStr.head? = some '-' then
        let fractPart ← safeMul fractPart (-1)
        return (intPart, fractPart)
      else
        return (intPart, fractPart)
  | none => do
      let intPart ← parseInt amountStr
      return (intPart, 0)

/-- What `asset_from_string` does behind the split at the first space -/
def readAsset (amountStr symbolStr : Text) : Result Asset := do
  let dotPos := findChar '.' amountStr 0
  check (dotPos ≠ some (amountStr.length - 1)) "Missing decimal fraction after decimal point"
  let precisionDigit := dotPos.elim 0 fun dotPos => UInt8.ofNat (amountStr.length - dotPos - 1)
  let code ← SymbolCode.ofText symbolStr
  let sym := Symbol.ofCode code precisionDigit
  let (intPart, fractPart) ← parseParts amountStr dotPos
  let precision ← precisionFromDecimals sym.precision.toInt8
  let amount ← safeMul intPart precision
  let amount ← safeAdd amount fractPart
  Asset.make amount sym

/-- `asset_from_string` -/
def assetFromString (source : Text) : Result Asset := do
  let s := trim source
  let spacePos ← demandSome (findChar ' ' s 0)
    (.check "Asset's amount and symbol should be separated with space")
  readAsset (s.take spacePos) (trim (s.drop (spacePos + 1)))

end Amounts

end Lemonade
