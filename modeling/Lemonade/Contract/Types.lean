import Lemonade.Kernel.Fallible
import Lemonade.Kernel.Doubles
import Lemonade.Kernel.Rounding
import Mathlib.Tactic

/-!
# Names, symbols, assets

The value types of the contract, as the vendored eosio headers define them.
Amounts are 64-bit signed integers and wrap when they are computed; an asset is
checked only where the source checks it.  A double is a rational that each operation
rounds (`Kernel.Doubles`); stored into an integer it is cut off towards zero, and traps
outside the range.  A character string is a list of characters.
-/

namespace Lemonade

open Kernel

/-- Character strings. -/
abbrev Text := List Char

/-- Account and contract names. -/
structure Name where
  value : UInt64
deriving DecidableEq, Repr

/-- Ways in which an action stops. -/
inductive Failure where
  /-- `eosio::check` with its message -/
  | check (message : String)
  /-- `require_auth` -/
  | missingAuthority (account : Name)
  /-- a second row under one primary key -/
  | duplicateKey
  /-- a trapping instruction of the virtual machine -/
  | trap (what : String)
  /-- `operator[]` past the end of a vector -/
  | outOfBounds
deriving DecidableEq, Repr

/-- Results of contract code. -/
abbrev Result := Except Failure

/-- `eosio::check` -/
def check (p : Prop) [Decidable p] (message : String) : Result PUnit :=
  demand p (.check message)

@[simp] theorem check_eq_ok_iff
    {p : Prop} [Decidable p] {m : String} {x : PUnit} :
    check p m = .ok x ↔ p :=
  demand_eq_ok_iff

section Names

/-- `name::char_to_value` -/
def charToValue (c : Char) : Result Nat :=
  if c = '.' then
    .ok 0
  else if '1' ≤ c ∧ c ≤ '5' then
    .ok (c.toNat - '1'.toNat + 1)
  else if 'a' ≤ c ∧ c ≤ 'z' then
    .ok (c.toNat - 'a'.toNat + 6)
  else
    .error (.check "character is not in allowed character set for names")

/-- Base-32 digits of the first twelve characters. -/
def nameDigits : Text → Nat → Result Nat
  | [], value => .ok value
  | c :: rest, value => do
      let v ← charToValue c
      nameDigits rest (value * 32 + v)

/-- `name(std::string_view)` -/
def Name.ofText (str : Text) : Result Name := do
  check (str.length ≤ 13) "string is too long to be a valid name"
  let n := min str.length 12
  let digits ← nameDigits (str.take 12) 0
  let value := digits * 2 ^ (4 + 5 * (12 - n))
  match str[12]? with
  | none => return ⟨UInt64.ofNat value⟩
  | some c =>
      let v ← charToValue c
      check (v ≤ 15) "thirteenth character in name cannot be a letter that comes after j"
      return ⟨UInt64.ofNat (value + v)⟩

/-- The literal `"..."_n` -/
def nameLiteral (str : String) : Name :=
  match Name.ofText str.toList with
  | .ok n => n
  | .error _ => ⟨0⟩

end Names

section Symbols

/-- Token codes: up to seven letters, the first in the lowest byte. -/
structure SymbolCode where
  raw : UInt64
deriving DecidableEq, Repr

/-- Token symbols: a code and the number of decimals in the lowest byte. -/
structure Symbol where
  raw : UInt64
deriving DecidableEq, Repr

/-- The inner loop of `symbol_code::is_valid`: only zero bytes follow. -/
def onlyZeroBytes : Nat → Nat → Bool
  | 0, _ => true
  | n + 1, sym => decide (sym / 256 % 256 = 0) && onlyZeroBytes n (sym / 256)

/-- The outer loop of `symbol_code::is_valid`, with the bytes still to read. -/
def validBytes : Nat → Nat → Bool
  | 0, _ => true
  | n + 1, sym =>
      if 'A'.toNat ≤ sym % 256 ∧ sym % 256 ≤ 'Z'.toNat then
        if sym / 256 % 256 = 0 then onlyZeroBytes (n + 1) (sym / 256)
        else validBytes n (sym / 256)
      else false

/-- `symbol_code::is_valid` -/
def SymbolCode.isValid (c : SymbolCode) : Bool := validBytes 7 c.raw.toNat

/-- Bytes of a code, the first character lowest. -/
def packCode (str : Text) : Nat :=
  str.foldr (fun c value => value * 256 + c.toNat % 256) 0

/-- `symbol_code(std::string_view)` -/
def SymbolCode.ofText (str : Text) : Result SymbolCode := do
  check (str.length ≤ 7) "string is too long to be a valid symbol_code"
  check (str.all fun c => 'A' ≤ c ∧ c ≤ 'Z') "only uppercase letters allowed in symbol_code string"
  return ⟨UInt64.ofNat (packCode str)⟩

/-- `symbol::code` -/
def Symbol.code (s : Symbol) : SymbolCode := ⟨s.raw >>> 8⟩

/-- `symbol::precision` -/
def Symbol.precision (s : Symbol) : UInt8 := s.raw.toUInt8

/-- `symbol(symbol_code, uint8_t)` -/
def Symbol.ofCode (c : SymbolCode) (precision : UInt8) : Symbol :=
  ⟨c.raw <<< 8 ||| precision.toUInt64⟩

/-- `symbol::is_valid` -/
def Symbol.isValid (s : Symbol) : Bool := s.code.isValid

/-- `symbol("LED", 4)` -/
def ledSymbol : Symbol := Symbol.ofCode ⟨UInt64.ofNat (packCode "LED".toList)⟩ 4

/-- `symbol("LEM", 4)` -/
def lemSymbol : Symbol := Symbol.ofCode ⟨UInt64.ofNat (packCode "LEM".toList)⟩ 4

theorem ledSymbol_ne_lemSymbol : ledSymbol ≠ lemSymbol := by decide +kernel

/-- A symbol together with its token contract. -/
structure ExtendedSymbol where
  sym : Symbol
  contract : Name
deriving DecidableEq, Repr

end Symbols

section Amounts

/-- `asset::max_amount` -/
def maxAmount : Int := 2 ^ 62 - 1

/-- `asset::is_amount_within_range` -/
def AmountInRange (a : Int64) : Prop := -maxAmount ≤ a.toInt ∧ a.toInt ≤ maxAmount

instance (a : Int64) : Decidable (AmountInRange a) := inferInstanceAs (Decidable (_ ∧ _))

@[simp] theorem amountInRange_zero : AmountInRange 0 := by decide

/-- A sum that is found in range has not wrapped if its first summand is in range. -/
theorem toInt_add_of_inRange {x a : Int64}
    (hx : AmountInRange x) (h : AmountInRange (x + a)) :
    (x + a).toInt = x.toInt + a.toInt := by
  have h1 := a.toInt_lt
  have h2 := a.le_toInt
  unfold AmountInRange maxAmount at hx h
  rw [Int64.toInt_add] at h ⊢
  rw [Int.bmod_def] at h ⊢
  split_ifs at h ⊢ <;> omega

theorem toInt_add_of_inRange_right {x a : Int64}
    (ha : AmountInRange a) (h : AmountInRange (x + a)) :
    (x + a).toInt = x.toInt + a.toInt := by
  rw [Int64.add_comm] at h ⊢
  rw [toInt_add_of_inRange ha h, Int.add_comm]

/-- A sum of two amounts in range has not wrapped, in range or not. -/
theorem toInt_add_of_inRange_both {x a : Int64}
    (hx : AmountInRange x) (ha : AmountInRange a) :
    (x + a).toInt = x.toInt + a.toInt := by
  unfold AmountInRange maxAmount at hx ha
  rw [Int64.toInt_add, Int.bmod_def]
  split_ifs <;> omega

/-- A difference that is found in range has not wrapped if one side is in range. -/
theorem toInt_sub_of_inRange_right {x a : Int64}
    (ha : AmountInRange a) (h : AmountInRange (x - a)) :
    (x - a).toInt = x.toInt - a.toInt := by
  have h1 := x.toInt_lt
  have h2 := x.le_toInt
  unfold AmountInRange maxAmount at ha h
  rw [Int64.toInt_sub] at h ⊢
  rw [Int.bmod_def] at h ⊢
  split_ifs at h ⊢ <;> omega

theorem toInt_neg_of_inRange {x : Int64} (hx : AmountInRange x) :
    (-x).toInt = -x.toInt := by
  unfold AmountInRange maxAmount at hx
  rw [Int64.toInt_neg, Int.bmod_def]
  split_ifs <;> omega

/-- If a negated amount is in range, so is the amount. -/
theorem amountInRange_of_neg {x : Int64} (h : AmountInRange (-x)) : AmountInRange x := by
  have h1 := x.toInt_lt
  have h2 := x.le_toInt
  unfold AmountInRange maxAmount at *
  rw [Int64.toInt_neg, Int.bmod_def] at h
  split_ifs at h <;> omega

theorem amountInRange_neg {x : Int64} (h : AmountInRange x) : AmountInRange (-x) := by
  unfold AmountInRange at *
  rw [toInt_neg_of_inRange h]
  omega

/-- The conversion of a double to `int64_t`. -/
def toInt64 (q : ℚ) : Result Int64 :=
  if -2 ^ 63 ≤ trunc q ∧ trunc q < 2 ^ 63 then .ok (Int64.ofInt (trunc q))
  else .error (.trap "integer overflow")

@[simp] theorem toInt64_eq_ok_iff {q : ℚ} {a : Int64} :
    toInt64 q = .ok a ↔ a.toInt = trunc q := by
  unfold toInt64
  rw [ite_error_eq_ok_iff, Except.ok.injEq]
  constructor
  · rintro ⟨⟨h1, h2⟩, rfl⟩
    rw [Int64.toInt_ofInt]
    exact Int.bmod_eq_of_le (by norm_num [Int64.size]; omega) (by norm_num [Int64.size]; omega)
  · intro h
    have h1 := a.toInt_lt
    have h2 := a.le_toInt
    exact ⟨⟨by omega, by omega⟩, by rw [← h, Int64.ofInt_toInt]⟩

theorem succeeds_toInt64 {q : ℚ} (hlow : -2 ^ 63 ≤ trunc q) (hhigh : trunc q < 2 ^ 63) :
    Succeeds (toInt64 q) := by
  refine ⟨Int64.ofInt (trunc q), toInt64_eq_ok_iff.mpr ?_⟩
  exact Int64.toInt_ofInt_of_le hlow hhigh

end Amounts

section Assets

/-- An amount of a token. -/
structure Asset where
  amount : Int64
  symbol : Symbol
deriving DecidableEq, Repr

namespace Asset

/-- `asset::is_valid` -/
def IsValid (a : Asset) : Prop := AmountInRange a.amount ∧ a.symbol.isValid = true

instance (a : Asset) : Decidable a.IsValid := inferInstanceAs (Decidable (_ ∧ _))

/-- The constructor `asset(int64_t, symbol)` -/
def make (a : Int64) (s : Symbol) : Result Asset := do
  check (AmountInRange a) "magnitude of asset amount must be less than 2^62"
  check (s.isValid = true) "invalid symbol name"
  return ⟨a, s⟩

@[simp] theorem make_eq_ok_iff {a : Int64} {s : Symbol} {r : Asset} :
    make a s = .ok r ↔ AmountInRange a ∧ s.isValid = true ∧ r = ⟨a, s⟩ := by
  simp [make]

/-- `asset::operator-` with one operand -/
def neg (a : Asset) : Asset := { a with amount := -a.amount }

@[simp] theorem neg_amount (a : Asset) : a.neg.amount = -a.amount := rfl
@[simp] theorem neg_symbol (a : Asset) : a.neg.symbol = a.symbol := rfl

/-- `asset::operator+=` -/
def add (x a : Asset) : Result Asset := do
  check (a.symbol = x.symbol) "attempt to add asset with different symbol"
  let amount := x.amount + a.amount
  check (-maxAmount ≤ amount.toInt) "addition underflow"
  check (amount.toInt ≤ maxAmount) "addition overflow"
  return { x with amount := amount }

@[simp] theorem add_eq_ok_iff {x a r : Asset} :
    x.add a = .ok r ↔
      a.symbol = x.symbol ∧ AmountInRange (x.amount + a.amount) ∧
        r = ⟨x.amount + a.amount, x.symbol⟩ := by
  simp [add, AmountInRange, and_assoc]

/-- `asset::operator-=` -/
def sub (x a : Asset) : Result Asset := do
  check (a.symbol = x.symbol) "attempt to subtract asset with different symbol"
  let amount := x.amount - a.amount
  check (-maxAmount ≤ amount.toInt) "subtraction underflow"
  check (amount.toInt ≤ maxAmount) "subtraction overflow"
  return { x with amount := amount }

@[simp] theorem sub_eq_ok_iff {x a r : Asset} :
    x.sub a = .ok r ↔
      a.symbol = x.symbol ∧ AmountInRange (x.amount - a.amount) ∧
        r = ⟨x.amount - a.amount, x.symbol⟩ := by
  simp [sub, AmountInRange, and_assoc]

end Asset

/-- `asset(0, symbol("LED", 4))` -/
def zeroLed : Asset := ⟨0, ledSymbol⟩

/-- `asset(0, symbol("LEM", 4))` -/
def zeroLem : Asset := ⟨0, lemSymbol⟩

/-- An amount of a token of a given contract. -/
structure ExtendedAsset where
  quantity : Asset
  contract : Name
deriving DecidableEq, Repr

namespace ExtendedAsset

/-- `extended_asset::get_extended_symbol` -/
def extendedSymbol (x : ExtendedAsset) : ExtendedSymbol := ⟨x.quantity.symbol, x.contract⟩

/-- `extended_asset(int64_t, extended_symbol)` -/
def make (a : Int64) (s : ExtendedSymbol) : Result ExtendedAsset := do
  let quantity ← Asset.make a s.sym
  return ⟨quantity, s.contract⟩

@[simp] theorem make_eq_ok_iff {a : Int64} {s : ExtendedSymbol} {r : ExtendedAsset} :
    make a s = .ok r ↔
      AmountInRange a ∧ s.sym.isValid = true ∧ r = ⟨⟨a, s.sym⟩, s.contract⟩ := by
  simp [make]
  tauto

/-- `extended_asset::operator-` with one operand -/
def neg (x : ExtendedAsset) : ExtendedAsset := { x with quantity := x.quantity.neg }

@[simp] theorem neg_quantity (x : ExtendedAsset) : x.neg.quantity = x.quantity.neg := rfl
@[simp] theorem neg_contract (x : ExtendedAsset) : x.neg.contract = x.contract := rfl
@[simp] theorem neg_extendedSymbol (x : ExtendedAsset) :
    x.neg.extendedSymbol = x.extendedSymbol := rfl

/-- `operator+=` of extended assets -/
def add (x a : ExtendedAsset) : Result ExtendedAsset := do
  check (x.contract = a.contract) "type mismatch"
  let quantity ← x.quantity.add a.quantity
  return { x with quantity := quantity }

@[simp] theorem add_eq_ok_iff {x a r : ExtendedAsset} :
    x.add a = .ok r ↔
      a.extendedSymbol = x.extendedSymbol ∧
        AmountInRange (x.quantity.amount + a.quantity.amount) ∧
        r = ⟨⟨x.quantity.amount + a.quantity.amount, x.quantity.symbol⟩, x.contract⟩ := by
  simp only [add, bind_eq_ok_iff, check_eq_ok_iff, Asset.add_eq_ok_iff, pure_eq_ok_iff,
    extendedSymbol, ExtendedSymbol.mk.injEq]
  constructor
  · rintro ⟨_, hc, q, ⟨hs, hr, rfl⟩, rfl⟩
    exact ⟨⟨hs, hc.symm⟩, hr, rfl⟩
  · rintro ⟨⟨hs, hc⟩, hr, rfl⟩
    exact ⟨⟨⟩, hc.symm, _, ⟨hs, hr, rfl⟩, rfl⟩

end ExtendedAsset

end Assets

end Lemonade
