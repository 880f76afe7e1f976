import Lemonade.Kernel.Table
import Lemonade.Contract.Types
import Mathlib.Tactic

/-!
# Tables

The rows of the contract's tables and its environment.  A table of the source
that is scoped by an account or by a symbol code is one table here, with the
scope as first part of the key.  Tables whose rows hold one value (`account`,
`user_info`, `swap_list`, `dexaccount`) store that value under the row's key.
Memory billing and the recipients of notifications are left out.
-/

namespace Lemonade

open Kernel

section Constants

/-- `config::secondsPerYear`, 52 weeks -/
def secondsPerYear : UInt32 := 52 * 7 * 24 * 3600

/-- `config::secondsPerDay` -/
def secondsPerDay : UInt32 := 24 * 3600

/-- `config::secondsPerHour` -/
def secondsPerHour : UInt32 := 3600

/-- `lem_reward_rate`, per second -/
def lemRewardRate : ℚ := 1 / 1000

/-- `swap_fee` -/
def swapFee : ℚ := 3 / 1000

/-- `INIT_MAX` -/
def initMax : Int64 := 1000000000000000

/-- `DEX_LEM_REWARD` -/
def dexLemReward : UInt32 := 518400000

/-- `LEM_MAX` -/
def lemMax : Int64 := 2207520000000

/-- `led_token_contract` -/
def ledTokenContract : Name := nameLiteral "led.token"

/-- `lending_reward_account` -/
def lendingRewardAccount : Name := nameLiteral "le.lemonade"

/-- `marketing_account` -/
def marketingAccount : Name := nameLiteral "mk.lemonade"

/-- `team_account` -/
def teamAccount : Name := nameLiteral "tm.lemonade"

/-- `reserved_account` -/
def reservedAccount : Name := nameLiteral "rs.lemonade"

end Constants

section Rows

/-- Row of `configs`.  There is one such row, written by `init`; the vector of
halving times always has the four entries pushed there. -/
structure Config where
  lastLemBucketFill : UInt32
  lastHalfLifeUpdated : Fin 4 → UInt32
  halfLifeCount : Nat
  btcPrice : ℚ

/-- Row `led` of `configs2`. -/
structure Config2 where
  price : ℚ

/-- Row of `products`, under its id. -/
structure Product where
  name : Name
  duration : UInt32
  currentAmount : Asset
  amountPerAccount : Asset
  maximumAmountLimit : Asset
  minimumYield : ℚ
  maximumYield : ℚ
  hasLemRewards : Bool
  hasPrediction : Bool
  buyers : List Name

/-- Row of `stakings`, under its owner and its id. -/
structure Staking where
  balance : Asset
  productId : Nat
  currentYield : ℚ
  pricePrediction : Name
  basePrice : ℚ
  startedAt : UInt32
  endedAt : UInt32
  lastClaimLedReward : UInt32
  lastClaimLemReward : UInt32
  lemRewards : Asset
  ledRewards : Asset

/-- `Status` of a game. -/
inductive Status where
  | notStarted
  | isLive
  | bettingFinish
  | notClaimed
  | finished
  | noGame
deriving DecidableEq, Repr

/-- The byte of a status. -/
def Status.code : Status → UInt8
  | notStarted => 0
  | isLive => 1
  | bettingFinish => 2
  | notClaimed => 3
  | finished => 4
  | noGame => 5

theorem Status.code_injective : Function.Injective Status.code := by
  intro a b h
  cases a <;> cases b <;> first | rfl | exact absurd h (by decide)

/-- Row of `bettings`, under its id. -/
structure Betting where
  basePrice : ℚ
  finalPrice : ℚ
  shortBetters : List (Name × Asset)
  longBetters : List (Name × Asset)
  shortBettingAmount : Asset
  longBettingAmount : Asset
  shortDividend : ℚ
  longDividend : ℚ
  startedAt : UInt32
  bettingEndedAt : UInt32
  endedAt : UInt32
  status : Status

/-- Row of `stats`, under its symbol code. -/
structure CurrencyStats where
  supply : Asset
  maxSupply : Asset
  issuer : Name
  pool1 : ExtendedAsset
  pool2 : ExtendedAsset
  fee1 : ExtendedAsset
  fee2 : ExtendedAsset
  fee3 : ExtendedAsset

/-- Row of `poollists`, under the code of its LP symbol. -/
structure PoolList where
  lpSymbol : Symbol
  symbol1 : ExtendedSymbol
  symbol2 : ExtendedSymbol

/-- Four words of a `checksum256`. -/
abbrev Checksum256 := UInt64 × UInt64 × UInt64 × UInt64

/-- Row of `lemindexes`, under the code of its LP symbol. -/
structure IndexStruct where
  lpSymbol : Symbol
  id256 : Checksum256

/-- The tables of the contract. -/
structure State where
  config : Option Config
  config2 : Option Config2
  products : Table Nat Product
  stakings : Table (Name × Nat) Staking
  bettings : Table Nat Betting
  /-- scope owner, key symbol code -/
  accounts : Table (Name × SymbolCode) Asset
  stats : Table SymbolCode CurrencyStats
  /-- scope symbol code, key account -/
  userinfo : Table (SymbolCode × Name) Asset
  /-- scope and key are symbol codes -/
  swaplists : Table (SymbolCode × SymbolCode) Symbol
  poollists : Table SymbolCode PoolList
  /-- scope owner, key id -/
  dexacnts : Table (Name × Nat) ExtendedAsset
  lemindexes : Table SymbolCode IndexStruct
  frozens : Table Name Unit
  /-- time of the last reward under a symbol code -/
  poolrewards : Table SymbolCode UInt32

/-- The contract as deployed: all tables are empty. -/
def State.empty : State where
  config := none
  config2 := none
  products := .empty
  stakings := .empty
  bettings := .empty
  accounts := .empty
  stats := .empty
  userinfo := .empty
  swaplists := .empty
  poollists := .empty
  dexacnts := .empty
  lemindexes := .empty
  frozens := .empty
  poolrewards := .empty

end Rows

section Environment

/-- What the deployed code is run with: the account of the contract, the member
constant `is_dex_open`, and a function whose code is not part of the source, the
square root of a product of two initial reserves. -/
structure Env where
  self : Name
  isDexOpen : Bool
  geometricMean : Int64 → Int64 → Int64
  geometricMean_pos : ∀ a b : Int64, 0 < a → 0 < b → 1 ≤ (geometricMean a b).toInt

/-- Row of the table `stat` of led.token for LEM, as far as it is read. -/
structure LedTokenStat where
  supply : Asset
  issuer : Name

/-- Seconds since the epoch of the last block slot (half seconds counted in 32 bits
from the year 2000). -/
def lastBlockSecond : Nat := 946684800 + (2 ^ 32 - 1) / 2

/-- What one action sees of the chain. -/
structure Ctx where
  now : UInt32
  now_le : now.toNat ≤ lastBlockSecond
  auths : List Name
  isAccount : Name → Bool
  lemStat : Option LedTokenStat

/-- An inline action of the contract in its own name.  Only `issue` and `transfer`
of token contracts are sent. -/
inductive Inline where
  | issue (contract dest : Name) (quantity : Asset) (memo : Text)
  | transfer (contract dest : Name) (quantity : Asset) (memo : Text)

/-- `require_auth` -/
def requireAuth (ctx : Ctx) (account : Name) : Result PUnit :=
  demand (account ∈ ctx.auths) (.missingAuthority account)

@[simp] theorem requireAuth_eq_ok_iff
    {ctx : Ctx} {account : Name} {x : PUnit} :
    requireAuth ctx account = .ok x ↔ account ∈ ctx.auths :=
  demand_eq_ok_iff

end Environment

section Access

variable {κ : Type} {ρ : Type} [DecidableEq κ]

/-- `find` together with the check that a row is there -/
def require (row : Option ρ) (message : String) : Result ρ :=
  demandSome row (.check message)

@[simp] theorem require_eq_ok_iff
    {row : Option ρ} {message : String} {r : ρ} :
    require row message = .ok r ↔ row = some r :=
  demandSome_eq_ok_iff

/-- `multi_index::emplace` -/
def emplace (t : Table κ ρ) (k : κ) (r : ρ) : Result (Table κ ρ) := do
  demand (t.find? k = none) .duplicateKey
  return t.put k r

@[simp] theorem emplace_eq_ok_iff
    {t t' : Table κ ρ} {k : κ} {r : ρ} :
    emplace t k r = .ok t' ↔ t.find? k = none ∧ t' = t.put k r := by
  simp [emplace]

/-- `multi_index::available_primary_key` over the keys in scope -/
def availablePrimaryKey (keys : List Nat) : Result Nat := do
  let next := keys.foldl (fun next pk => max next (pk + 1)) 0
  check (next < 2 ^ 64 - 2) "next primary key in table is at autoincrement limit"
  return next

/-- A new key is above all keys in use. -/
theorem lt_of_availablePrimaryKey
    {keys : List Nat} {k : Nat}
    (h : availablePrimaryKey keys = .ok k) {pk : Nat} (hpk : pk ∈ keys) : pk < k := by
  have key : ∀ (l : List Nat) (n : Nat),
      n ≤ l.foldl (fun next pk => max next (pk + 1)) n ∧
        ∀ pk ∈ l, pk < l.foldl (fun next pk => max next (pk + 1)) n := by
    intro l
    induction l with
    | nil =>
        simp
    | cons a as ih =>
        intro n
        obtain ⟨h1, h2⟩ := ih (max n (a + 1))
        refine ⟨(le_max_left n (a + 1)).trans h1, ?_⟩
        intro pk hpk
        rcases List.mem_cons.mp hpk with rfl | hpk
        · exact lt_of_lt_of_le (Nat.lt_succ_self pk) ((le_max_right n (pk + 1)).trans h1)
        · exact h2 pk hpk
  simp only [availablePrimaryKey, bind_eq_ok_iff, check_eq_ok_iff, pure_eq_ok_iff] at h
  obtain ⟨_, _, rfl⟩ := h
  exact (key keys 0).2 pk hpk

end Access

end Lemonade
