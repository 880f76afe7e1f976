import Lemonade.Contract.Actions
import Mathlib.Tactic

/-!
# How calls fail

Two kinds of failure are told apart: the access past the end of the fields of a memo, for the
statement about `transfer` in `MemoFields`, and the messages of the two limits of a product,
for the statement about `stake` in `StakeLimits`.  Each of them has one source: the helpers
that the handlers call do not fail like that (`Benign`), so a handler that does has done it
itself.
-/

namespace Lemonade

open Kernel

section Checks

/-- The message of the limit of an account -/
def accountLimit : String := "exceed amount per account limits"

/-- The message of the limit of a product -/
def productLimit : String := "exceed product total amount limits"

/-- A failure that is neither an access out of bounds nor due to a limit -/
def Failure.Benign : Failure → Prop
  | .check message => message ≠ accountLimit ∧ message ≠ productLimit
  | .outOfBounds => False
  | .missingAuthority _ => True
  | .duplicateKey => True
  | .trap _ => True

/-- If the call fails, the failure is benign. -/
abbrev Clean {α : Type} (r : Result α) : Prop := FailsOnly Failure.Benign r

variable {P : Failure → Prop} {p : Prop} [Decidable p]

@[simp] theorem failsOnly_check_iff
    {message : String} : FailsOnly P (check p message) ↔ p ∨ P (.check message) :=
  failsOnly_demand_iff

@[simp] theorem failsOnly_require_iff
    {ρ : Type} {row : Option ρ} {message : String} :
    FailsOnly P (require row message) ↔ row ≠ none ∨ P (.check message) :=
  failsOnly_demandSome_iff

@[simp] theorem clean_requireAuth
    (ctx : Ctx) (account : Name) : Clean (requireAuth ctx account) := by
  simp [requireAuth, Failure.Benign]

@[simp] theorem clean_emplace
    {κ ρ : Type} [DecidableEq κ] (t : Table κ ρ) (k : κ) (r : ρ) : Clean (emplace t k r) := by
  simp [emplace, Failure.Benign]

@[simp] theorem clean_availablePrimaryKey (keys : List ℕ) : Clean (availablePrimaryKey keys) := by
  simp [availablePrimaryKey, Failure.Benign, accountLimit, productLimit]

end Checks

section Values

@[simp] theorem clean_toInt64 (q : ℚ) : Clean (toInt64 q) := by
  simp [toInt64, Failure.Benign]

@[simp] theorem clean_make (a : Int64) (s : Symbol) : Clean (Asset.make a s) := by
  simp [Asset.make, Failure.Benign, accountLimit, productLimit]

@[simp] theorem clean_add (x a : Asset) : Clean (x.add a) := by
  simp [Asset.add, Failure.Benign, accountLimit, productLimit]

@[simp] theorem clean_sub (x a : Asset) : Clean (x.sub a) := by
  simp [Asset.sub, Failure.Benign, accountLimit, productLimit]

@[simp] theorem clean_extendedMake (a : Int64) (s : ExtendedSymbol) :
    Clean (ExtendedAsset.make a s) := by
  simp [ExtendedAsset.make]

@[simp] theorem clean_extendedAdd (x a : ExtendedAsset) : Clean (x.add a) := by
  simp [ExtendedAsset.add, Failure.Benign, accountLimit, productLimit]

@[simp] theorem clean_charToValue (c : Char) : Clean (charToValue c) := by
  simp [charToValue, Failure.Benign, accountLimit, productLimit]

@[simp] theorem clean_nameDigits (str : Text) (value : ℕ) : Clean (nameDigits str value) := by
  induction str generalizing value with
  | nil => simp [nameDigits]
  | cons c rest ih => simp [nameDigits, ih]

@[simp] theorem clean_nameOfText (str : Text) : Clean (Name.ofText str) := by
  unfold Name.ofText
  cases str[12]? with
  | none => simp [Failure.Benign, accountLimit, productLimit]
  | some c => simp [Failure.Benign, accountLimit, productLimit]

@[simp] theorem clean_codeOfText (str : Text) : Clean (SymbolCode.ofText str) := by
  simp [SymbolCode.ofText, Failure.Benign, accountLimit, productLimit]

end Values

section Memos

@[simp] theorem clean_stoull (str : Text) : Clean (stoull str) := by
  simp [stoull, Failure.Benign]

@[simp] theorem clean_safeAdd (a b : Int64) : Clean (safeAdd a b) := by
  simp [safeAdd, Failure.Benign, accountLimit, productLimit]

@[simp] theorem clean_safeMul (a b : Int64) : Clean (safeMul a b) := by
  simp [safeMul, Failure.Benign, accountLimit, productLimit]

@[simp] theorem clean_toIntLoop (str : Text) (res p : Int64) : Clean (toIntLoop str res p) := by
  induction str generalizing res p with
  | nil => simp [toIntLoop]
  | cons c rest ih => simp [toIntLoop, ih, Failure.Benign, accountLimit, productLimit]

@[simp] theorem clean_powerOfTen (n : ℕ) (p : Int64) : Clean (powerOfTen n p) := by
  induction n generalizing p with
  | zero => simp [powerOfTen]
  | succ n ih => simp [powerOfTen, ih]

@[simp] theorem clean_parseParts (str : Text) (dot : Option ℕ) : Clean (parseParts str dot) := by
  cases dot with
  | none => simp [parseParts, parseInt]
  | some pos => simp [parseParts, parseInt]

@[simp] theorem clean_assetFromString (source : Text) : Clean (assetFromString source) := by
  simp [assetFromString, readAsset, precisionFromDecimals, Failure.Benign, accountLimit,
    productLimit]

end Memos

section Helpers

@[simp] theorem clean_issueLem [Doubles]
    (env : Env) (ctx : Ctx) (s : State) : Clean (issueLem env ctx s) := by
  simp [issueLem, newToken, distribute, Failure.Benign, accountLimit, productLimit]

@[simp] theorem clean_ledReward [Doubles] (balance : Asset) (yield : ℚ) (secs : UInt32) :
    Clean (ledReward balance yield secs) := by
  simp [ledReward]

@[simp] theorem clean_lemSettlement [Doubles]
    (config : Config) (product : Product) (row : Staking) (current : UInt32) :
    Clean (lemSettlement config product row current) := by
  simp [lemSettlement, lemReward]

@[simp] theorem clean_choosePrediction
    (product : Product) (config2 : Config2) (pricePrediction : Option Name) :
    Clean (choosePrediction product config2 pricePrediction) := by
  cases pricePrediction with
  | none => simp [choosePrediction]
  | some prediction => simp [choosePrediction, Failure.Benign, accountLimit, productLimit]

@[simp] theorem clean_placeBet [Doubles]
    (game : Betting) (owner : Name) (quantity : Asset) (side : Position) :
    Clean (placeBet game owner quantity side) := by
  cases side with
  | short => simp [placeBet]
  | long => simp [placeBet]

@[simp] theorem clean_bet [Doubles]
    (ctx : Ctx) (s : State) (owner : Name) (quantity : Asset) (betId : ℕ) (position : Text) :
    Clean (bet ctx s owner quantity betId position) := by
  simp [bet, Failure.Benign, accountLimit, productLimit]

@[simp] theorem clean_addSignedExtBalance
    (s : State) (user : Name) (toAdd : ExtendedAsset) :
    Clean (addSignedExtBalance s user toAdd) := by
  unfold addSignedExtBalance
  cases findDexacnt s user toAdd.extendedSymbol with
  | none => simp [Failure.Benign, accountLimit, productLimit]
  | some found => simp [Failure.Benign, accountLimit, productLimit]

@[simp] theorem clean_memoexchange [Doubles]
    (env : Env) (s : State) (user : Name) (extAssetIn : ExtendedAsset) (pairToken : SymbolCode)
    (minExpected : Asset) : Clean (memoexchange env s user extAssetIn pairToken minExpected) := by
  simp [memoexchange, takeFee, accrue, netInput, processExch, compute, Failure.Benign, accountLimit,
    productLimit]

end Helpers

end Lemonade
