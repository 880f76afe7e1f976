import Lemonade.Contract.AssetText
import Lemonade.Contract.Issue
import Lemonade.Contract.Token
import Mathlib.Data.List.Sort
import Mathlib.Tactic

/-!
# The exchange

Deposits of tokens of any contract (`dexacnts`), pools of two tokens each with an
LP token (`stats`), liquidity, swaps, and the registries of pools.  Signed amounts
run through one function per direction: a negative amount sells where a positive
one buys.
-/

namespace Lemonade

open Kernel

section Keys

/-- `make128key` -/
def make128key (a b : UInt64) : Nat := a.toNat * 2 ^ 64 + b.toNat

/-- `make256key` -/
def make256key (a b c d : UInt64) : Checksum256 :=
  if make128key a b < make128key c d then (a, b, c, d) else (c, d, a, b)

/-- `dexaccount::secondary_key`, as a function of the extended symbol -/
def ExtendedSymbol.key (x : ExtendedSymbol) : Nat := make128key x.contract.value x.sym.raw

theorem ExtendedSymbol.key_inj {x y : ExtendedSymbol} : x.key = y.key ↔ x = y := by
  obtain ⟨⟨a⟩, ⟨b⟩⟩ := x
  obtain ⟨⟨c⟩, ⟨d⟩⟩ := y
  have ha := a.toNat_lt
  have hc := c.toNat_lt
  simp only [ExtendedSymbol.key, make128key, ExtendedSymbol.mk.injEq, Symbol.mk.injEq,
    Name.mk.injEq, ← UInt64.toNat_inj]
  omega

end Keys

section Deposits

/-- `index.find(key)` in the scope of a user -/
def findDexacnt (s : State) (user : Name) (sym : ExtendedSymbol) :
    Option ((Name × Nat) × ExtendedAsset) :=
  s.dexacnts.findBy fun k balance =>
    decide (k.1 = user ∧ balance.extendedSymbol.key = sym.key)

/-- Ids of the rows in the scope of a user. -/
def dexacntIds (s : State) (user : Name) : List Nat :=
  (s.dexacnts.rows.filter fun e => e.1.1 = user).map fun e => e.1.2

/-- `add_signed_ext_balance` -/
def addSignedExtBalance (s : State) (user : Name) (toAdd : ExtendedAsset) :
    Result State := do
  check toAdd.quantity.IsValid "invalid asset"
  match findDexacnt s user toAdd.extendedSymbol with
  | none => do
      check (0 ≤ toAdd.quantity.amount) "to_add must be positive"
      let id ← availablePrimaryKey (dexacntIds s user)
      let dexacnts ← emplace s.dexacnts (user, id) toAdd
      return { s with dexacnts := dexacnts }
  | some (key, balance) => do
      let balance ← balance.add toAdd
      check (0 ≤ balance.quantity.amount) "insufficient funds"
      return { s with dexacnts := s.dexacnts.put key balance }

theorem findDexacnt_eq_some
    {s : State} {user : Name} {sym : ExtendedSymbol} {key : Name × Nat} {b : ExtendedAsset}
    (h : findDexacnt s user sym = some (key, b)) :
    s.dexacnts.find? key = some b ∧ key.1 = user ∧ b.extendedSymbol = sym := by
  have hkey := Table.prop_of_findBy h
  rw [decide_eq_true_eq, ExtendedSymbol.key_inj] at hkey
  exact ⟨Table.find?_of_findBy h, hkey⟩

theorem findDexacnt_eq_none
    {s : State} {user : Name} {sym : ExtendedSymbol}
    (h : findDexacnt s user sym = none) {i : Nat} {b : ExtendedAsset}
    (hb : s.dexacnts.find? (user, i) = some b) : b.extendedSymbol ≠ sym := by
  have hkey := Table.findBy_eq_none_iff.mp h (user, i) b hb
  rw [decide_eq_false_iff_not, ExtendedSymbol.key_inj] at hkey
  exact fun hsym => hkey ⟨rfl, hsym⟩

theorem addSignedExtBalance_eq_ok
    {s s' : State} {user : Name} {toAdd : ExtendedAsset}
    (h : addSignedExtBalance s user toAdd = .ok s') :
    toAdd.quantity.IsValid ∧
      ((∃ id, findDexacnt s user toAdd.extendedSymbol = none ∧ 0 ≤ toAdd.quantity.amount ∧
          s.dexacnts.find? (user, id) = none ∧
          s' = { s with dexacnts := s.dexacnts.put (user, id) toAdd }) ∨
        ∃ key balance balance',
          findDexacnt s user toAdd.extendedSymbol = some (key, balance) ∧
          balance.add toAdd = .ok balance' ∧ 0 ≤ balance'.quantity.amount ∧
          s' = { s with dexacnts := s.dexacnts.put key balance' }) := by
  simp only [addSignedExtBalance, bind_eq_ok_iff, check_eq_ok_iff] at h
  obtain ⟨_, hvalid, h⟩ := h
  refine ⟨hvalid, ?_⟩
  cases hrow : findDexacnt s user toAdd.extendedSymbol with
  | none =>
      simp only [hrow, bind_eq_ok_iff, check_eq_ok_iff, emplace_eq_ok_iff, pure_eq_ok_iff] at h
      obtain ⟨_, hnonneg, id, -, _, ⟨hfresh, rfl⟩, rfl⟩ := h
      exact Or.inl ⟨id, rfl, hnonneg, hfresh, rfl⟩
  | some found =>
      obtain ⟨key, balance⟩ := found
      simp only [hrow, bind_eq_ok_iff, check_eq_ok_iff, pure_eq_ok_iff] at h
      obtain ⟨balance', hadd, _, hnonneg, rfl⟩ := h
      exact Or.inr ⟨key, balance, balance', rfl, hadd, hnonneg, rfl⟩

/-- `openext` -/
def openext (env : Env) (ctx : Ctx) (s : State) (user : Name) (extSymbol : ExtendedSymbol) :
    Result State := do
  check (env.isDexOpen = true) "DEX is not open"
  requireAuth ctx user
  match findDexacnt s user extSymbol with
  | none => do
      let balance ← ExtendedAsset.make 0 extSymbol
      let id ← availablePrimaryKey (dexacntIds s user)
      let dexacnts ← emplace s.dexacnts (user, id) balance
      return { s with dexacnts := dexacnts }
  | some _ => return s

theorem openext_eq_ok
    {env : Env} {ctx : Ctx} {s s' : State} {user : Name} {extSymbol : ExtendedSymbol}
    (h : openext env ctx s user extSymbol = .ok s') :
    s' = s ∨
      ∃ id, findDexacnt s user extSymbol = none ∧ s.dexacnts.find? (user, id) = none ∧
        s' = { s with
          dexacnts := s.dexacnts.put (user, id) ⟨⟨0, extSymbol.sym⟩, extSymbol.contract⟩ } := by
  simp only [openext, bind_eq_ok_iff, requireAuth_eq_ok_iff, check_eq_ok_iff] at h
  obtain ⟨_, -, _, -, h⟩ := h
  cases hrow : findDexacnt s user extSymbol with
  | some found =>
      simp only [hrow, pure_eq_ok_iff] at h
      exact Or.inl h
  | none =>
      simp only [hrow, bind_eq_ok_iff, ExtendedAsset.make_eq_ok_iff, emplace_eq_ok_iff,
        pure_eq_ok_iff] at h
      obtain ⟨_, ⟨-, -, rfl⟩, id, -, _, ⟨hfresh, rfl⟩, rfl⟩ := h
      exact Or.inr ⟨id, rfl, hfresh, rfl⟩

/-- `closeext` -/
def closeext (env : Env) (ctx : Ctx) (s : State) (user dest : Name)
    (extSymbol : ExtendedSymbol) (memo : Text) : Result (State × List Inline) := do
  check (env.isDexOpen = true) "DEX is not open"
  requireAuth ctx user
  let (key, balance) ← require (findDexacnt s user extSymbol) "User does not have such token"
  return ({ s with dexacnts := s.dexacnts.erase key },
    if 0 < balance.quantity.amount then
      [.transfer balance.contract dest balance.quantity memo] else [])

/-- `withdraw` -/
def withdraw (env : Env) (ctx : Ctx) (s : State) (user dest : Name)
    (toWithdraw : ExtendedAsset) (memo : Text) : Result (State × List Inline) := do
  check (env.isDexOpen = true) "DEX is not open"
  requireAuth ctx user
  check (0 < toWithdraw.quantity.amount) "quantity must be positive"
  let s ← addSignedExtBalance s user toWithdraw.neg
  return (s, [.transfer toWithdraw.contract dest toWithdraw.quantity memo])

theorem closeext_eq_ok
    {env : Env} {ctx : Ctx} {s s' : State} {user dest : Name} {extSymbol : ExtendedSymbol}
    {memo : Text} {sent : List Inline}
    (h : closeext env ctx s user dest extSymbol memo = .ok (s', sent)) :
    ∃ key balance,
      user ∈ ctx.auths ∧
      findDexacnt s user extSymbol = some (key, balance) ∧
      s' = { s with dexacnts := s.dexacnts.erase key } ∧
      sent = if 0 < balance.quantity.amount then
        [.transfer balance.contract dest balance.quantity memo] else [] := by
  simp only [closeext, bind_eq_ok_iff, requireAuth_eq_ok_iff, check_eq_ok_iff,
    require_eq_ok_iff, pure_eq_ok_iff, Prod.mk.injEq] at h
  obtain ⟨_, -, _, hauth, ⟨key, balance⟩, hrow, rfl, rfl⟩ := h
  exact ⟨key, balance, hauth, hrow, rfl, rfl⟩

theorem withdraw_eq_ok
    {env : Env} {ctx : Ctx} {s s' : State} {user dest : Name} {toWithdraw : ExtendedAsset}
    {memo : Text} {sent : List Inline}
    (h : withdraw env ctx s user dest toWithdraw memo = .ok (s', sent)) :
    user ∈ ctx.auths ∧ 0 < toWithdraw.quantity.amount ∧
      addSignedExtBalance s user toWithdraw.neg = .ok s' ∧
      sent = [.transfer toWithdraw.contract dest toWithdraw.quantity memo] := by
  simp only [withdraw, bind_eq_ok_iff, requireAuth_eq_ok_iff, check_eq_ok_iff,
    pure_eq_ok_iff, Prod.mk.injEq] at h
  obtain ⟨_, -, _, hauth, _, hpos, s₁, hadd, rfl, rfl⟩ := h
  exact ⟨hauth, hpos, hadd, rfl⟩

end Deposits

section Liquidity

/-- `compute`: `x * y / z` rounded up.  Products of two 64-bit numbers fit into the
128 bits they are taken in. -/
def compute (x y z : Int64) : Result Int64 := do
  check (x ≠ 0 ∧ 0 < y ∧ 0 < z) "invalid parameters"
  let prod := x.toInt * y.toInt
  if 0 < x then do
    let tmp := 1 + (prod - 1).tdiv z.toInt
    check (tmp ≤ maxAmount) "computation overflow"
    return Int64.ofInt tmp
  else do
    let tmp := prod.tdiv z.toInt
    check (-maxAmount ≤ tmp) "computation underflow"
    return Int64.ofInt tmp

/-- What a reserve is changed by when `toAdd` shares are bought. -/
def toPay (toAdd supply : Int64) (pool : ExtendedAsset) : Result ExtendedAsset := do
  let amount ← compute toAdd pool.quantity.amount supply
  let quantity ← Asset.make amount pool.quantity.symbol
  return ⟨quantity, pool.contract⟩

/-- `(to_add.amount > 0) ? add_balance(user, to_add, user) : sub_balance(user, -to_add)` -/
def moveShares (s : State) (user : Name) (toAdd : Asset) : Result State :=
  if 0 < toAdd.amount then addBalance s user toAdd else subBalance s user toAdd.neg

/-- `add_signed_liq` -/
def addSignedLiq (s : State) (user : Name) (toAdd maxAsset1 maxAsset2 : Asset) :
    Result State := do
  check toAdd.IsValid "invalid asset"
  let code := toAdd.symbol.code
  let token ← require (s.stats.find? code) "pair token does not exist"
  let toPay1 ← toPay toAdd.amount token.supply.amount token.pool1
  let toPay2 ← toPay toAdd.amount token.supply.amount token.pool2
  check (toPay1.quantity.symbol = maxAsset1.symbol ∧ toPay2.quantity.symbol = maxAsset2.symbol)
    "incorrect symbol"
  check (toPay1.quantity.amount ≤ maxAsset1.amount ∧ toPay2.quantity.amount ≤ maxAsset2.amount)
    "available is less than expected"
  let s ← addSignedExtBalance s user toPay1.neg
  let s ← addSignedExtBalance s user toPay2.neg
  let s ← moveShares s user toAdd
  let supply ← token.supply.add toAdd
  let pool1 ← token.pool1.add toPay1
  let pool2 ← token.pool2.add toPay2
  check (supply.amount ≠ 0) "the pool cannot be left empty"
  return { s with stats := s.stats.put code { token with
    supply := supply
    pool1 := pool1
    pool2 := pool2 } }

/-- `addliquidity` -/
def addliquidity (env : Env) (ctx : Ctx) (s : State) (user : Name)
    (toBuy maxAsset1 maxAsset2 : Asset) : Result State := do
  check (env.isDexOpen = true) "DEX is not open"
  requireAuth ctx user
  let _ ← require (s.stats.find? toBuy.symbol.code) "pair token does not exist"
  check (0 < toBuy.amount) "to_buy amount must be positive"
  check (0 ≤ maxAsset1.amount ∧ 0 ≤ maxAsset2.amount) "assets must be nonnegative"
  addSignedLiq s user toBuy maxAsset1 maxAsset2

/-- `rmliquidity` -/
def rmliquidity (env : Env) (ctx : Ctx) (s : State) (user : Name)
    (toSell minAsset1 minAsset2 : Asset) : Result State := do
  check (env.isDexOpen = true) "DEX is not open"
  requireAuth ctx user
  check (0 < toSell.amount) "to_sell amount must be positive"
  check (0 ≤ minAsset1.amount ∧ 0 ≤ minAsset2.amount) "assets must be nonnegative"
  addSignedLiq s user toSell.neg minAsset1.neg minAsset2.neg

theorem compute_eq_ok
    {x y z r : Int64}
    (h : compute x y z = .ok r) :
    x ≠ 0 ∧ 0 < y ∧ 0 < z ∧ AmountInRange r ∧
      IsCeilDiv r.toInt (x.toInt * y.toInt) z.toInt := by
  simp only [compute, bind_eq_ok_iff, check_eq_ok_iff] at h
  obtain ⟨_, ⟨hx, hy, hz⟩, h⟩ := h
  have hy' : 0 < y.toInt := Int64.lt_iff_toInt_lt.mp hy
  have hz' : 0 < z.toInt := Int64.lt_iff_toInt_lt.mp hz
  have hofInt : ∀ n : Int, -maxAmount ≤ n → n ≤ maxAmount → (Int64.ofInt n).toInt = n := by
    intro n h1 h2
    unfold maxAmount at h1 h2
    rw [Int64.toInt_ofInt]
    exact Int.bmod_eq_of_le (by norm_num [Int64.size]; omega) (by norm_num [Int64.size]; omega)
  split_ifs at h with hpos
  · have hx' : 0 < x.toInt := Int64.lt_iff_toInt_lt.mp hpos
    have hceil := isCeilDiv_of_pos (mul_pos hx' hy') hz'
    have hq := hceil.pos hz' (mul_pos hx' hy')
    simp only [bind_eq_ok_iff, check_eq_ok_iff, pure_eq_ok_iff] at h
    obtain ⟨_, hle, rfl⟩ := h
    have hlow : -maxAmount ≤ 1 + (x.toInt * y.toInt - 1).tdiv z.toInt := by
      unfold maxAmount
      omega
    have heq := hofInt _ hlow hle
    refine ⟨hx, hy, hz, ?_, by rwa [heq]⟩
    rw [AmountInRange, heq]
    exact ⟨hlow, hle⟩
  · have hx' : x.toInt ≤ 0 := by
      rw [Int64.lt_iff_toInt_lt] at hpos
      simpa using hpos
    have hprod : x.toInt * y.toInt ≤ 0 := mul_nonpos_of_nonpos_of_nonneg hx' hy'.le
    have hceil := isCeilDiv_of_nonpos hprod hz'
    have hq := hceil.nonpos hz' hprod
    simp only [bind_eq_ok_iff, check_eq_ok_iff, pure_eq_ok_iff] at h
    obtain ⟨_, hle, rfl⟩ := h
    have hhigh : (x.toInt * y.toInt).tdiv z.toInt ≤ maxAmount := by
      unfold maxAmount
      omega
    have heq := hofInt _ hle hhigh
    refine ⟨hx, hy, hz, ?_, by rwa [heq]⟩
    rw [AmountInRange, heq]
    exact ⟨hle, hhigh⟩

theorem toPay_eq_ok
    {toAdd supply : Int64} {pool paying : ExtendedAsset}
    (h : toPay toAdd supply pool = .ok paying) :
    compute toAdd pool.quantity.amount supply = .ok paying.quantity.amount ∧
      paying.extendedSymbol = pool.extendedSymbol := by
  simp only [toPay, bind_eq_ok_iff, Asset.make_eq_ok_iff, pure_eq_ok_iff] at h
  obtain ⟨amount, hcompute, _, ⟨-, -, rfl⟩, rfl⟩ := h
  exact ⟨hcompute, rfl⟩

theorem addSignedLiq_eq_ok
    {s s' : State} {user : Name} {toAdd maxAsset1 maxAsset2 : Asset}
    (h : addSignedLiq s user toAdd maxAsset1 maxAsset2 = .ok s') :
    ∃ token toPay1 toPay2 s₁ s₂ s₃ supply pool1 pool2,
      toAdd.IsValid ∧
      s.stats.find? toAdd.symbol.code = some token ∧
      toPay toAdd.amount token.supply.amount token.pool1 = .ok toPay1 ∧
      toPay toAdd.amount token.supply.amount token.pool2 = .ok toPay2 ∧
      addSignedExtBalance s user toPay1.neg = .ok s₁ ∧
      addSignedExtBalance s₁ user toPay2.neg = .ok s₂ ∧
      moveShares s₂ user toAdd = .ok s₃ ∧
      token.supply.add toAdd = .ok supply ∧
      token.pool1.add toPay1 = .ok pool1 ∧
      token.pool2.add toPay2 = .ok pool2 ∧
      supply.amount ≠ 0 ∧
      s' = { s₃ with stats := s₃.stats.put toAdd.symbol.code { token with
        supply := supply
        pool1 := pool1
        pool2 := pool2 } } := by
  simp only [addSignedLiq, bind_eq_ok_iff, check_eq_ok_iff, require_eq_ok_iff,
    pure_eq_ok_iff] at h
  obtain ⟨_, hvalid, token, htoken, toPay1, hpay1, toPay2, hpay2, _, -, _, -, s₁, h1, s₂, h2,
    s₃, h3, supply, hsupply, pool1, hpool1, pool2, hpool2, _, hne, rfl⟩ := h
  exact ⟨token, toPay1, toPay2, s₁, s₂, s₃, supply, pool1, pool2, hvalid, htoken, hpay1, hpay2,
    h1, h2, h3, hsupply, hpool1, hpool2, hne, rfl⟩

/-- Neither payment exceeds its bound. -/
theorem addSignedLiq_bounds
    {s s' : State} {user : Name} {toAdd maxAsset1 maxAsset2 : Asset} {token : CurrencyStats}
    {toPay1 toPay2 : ExtendedAsset}
    (h : addSignedLiq s user toAdd maxAsset1 maxAsset2 = .ok s')
    (htoken : s.stats.find? toAdd.symbol.code = some token)
    (hpay1 : toPay toAdd.amount token.supply.amount token.pool1 = .ok toPay1)
    (hpay2 : toPay toAdd.amount token.supply.amount token.pool2 = .ok toPay2) :
    toPay1.quantity.amount ≤ maxAsset1.amount ∧ toPay2.quantity.amount ≤ maxAsset2.amount := by
  simp only [addSignedLiq, bind_eq_ok_iff, check_eq_ok_iff, require_eq_ok_iff, htoken,
    Option.some.injEq, exists_eq_left', hpay1, hpay2, Except.ok.injEq] at h
  obtain ⟨_, -, _, -, _, hbounds, -⟩ := h
  exact hbounds

theorem addliquidity_eq_ok
    {env : Env} {ctx : Ctx} {s s' : State} {user : Name} {toBuy maxAsset1 maxAsset2 : Asset}
    (h : addliquidity env ctx s user toBuy maxAsset1 maxAsset2 = .ok s') :
    user ∈ ctx.auths ∧ 0 < toBuy.amount ∧
      addSignedLiq s user toBuy maxAsset1 maxAsset2 = .ok s' := by
  simp only [addliquidity, bind_eq_ok_iff, requireAuth_eq_ok_iff, check_eq_ok_iff,
    require_eq_ok_iff] at h
  obtain ⟨_, -, _, hauth, _, -, _, hpos, _, -, h⟩ := h
  exact ⟨hauth, hpos, h⟩

theorem rmliquidity_eq_ok
    {env : Env} {ctx : Ctx} {s s' : State} {user : Name} {toSell minAsset1 minAsset2 : Asset}
    (h : rmliquidity env ctx s user toSell minAsset1 minAsset2 = .ok s') :
    user ∈ ctx.auths ∧ 0 < toSell.amount ∧
      addSignedLiq s user toSell.neg minAsset1.neg minAsset2.neg = .ok s' := by
  simp only [rmliquidity, bind_eq_ok_iff, requireAuth_eq_ok_iff, check_eq_ok_iff] at h
  obtain ⟨_, -, _, hauth, _, hpos, _, -, h⟩ := h
  exact ⟨hauth, hpos, h⟩

end Liquidity

section Swaps

/-- `fee`, as a double -/
def feeOf [Doubles] (amountIn : ℤ) : ℚ := rnd (rnd amountIn * rnd swapFee)

/-- Half of the fee on the amount `amountIn`, added to an accrued fee -/
def accrue [Doubles] (accrued : ExtendedAsset) (amountIn : Int64) : Result ExtendedAsset := do
  let amount ← toInt64
    (rnd (rnd accrued.quantity.amount.toInt + rnd (feeOf amountIn.toInt / 2)))
  return { accrued with quantity := { accrued.quantity with amount := amount } }

/-- The accrued fees after a swap with input `assetIn`; the side is chosen by the
symbol alone. -/
def takeFee [Doubles] (token : CurrencyStats) (assetIn : Asset) : Result CurrencyStats :=
  if assetIn.symbol = token.fee1.quantity.symbol then do
    let fee1 ← accrue token.fee1 assetIn.amount
    return { token with fee1 := fee1 }
  else if assetIn.symbol = token.fee2.quantity.symbol then do
    let fee2 ← accrue token.fee2 assetIn.amount
    return { token with fee2 := fee2 }
  else
    return token

/-- The input of a swap after the fee -/
def netInput [Doubles] (extAssetIn : ExtendedAsset) : Result ExtendedAsset := do
  let amountIn := extAssetIn.quantity.amount
  let amount ← toInt64 (rnd (rnd amountIn.toInt - feeOf amountIn.toInt))
  return { extAssetIn with quantity := { extAssetIn.quantity with amount := amount } }

/-- Which reserve takes the input of a swap: the first iff the result is true. -/
def inFirst (token : CurrencyStats) (sym : ExtendedSymbol) (expected : Symbol) : Option Bool :=
  if token.pool1.extendedSymbol = sym ∧ token.pool2.quantity.symbol = expected then some true
  else if token.pool1.quantity.symbol = expected ∧ token.pool2.extendedSymbol = sym then
    some false
  else none

/-- `process_exch` -/
def processExch (s : State) (pairToken : SymbolCode) (extAssetIn : ExtendedAsset)
    (minExpected : Asset) : Result (State × ExtendedAsset) := do
  let token ← require (s.stats.find? pairToken) "pair token does not exist"
  let first ← require (inFirst token extAssetIn.extendedSymbol minExpected.symbol)
    "extended_symbol mismatch"
  let poolIn := if first then token.pool1 else token.pool2
  let poolOut := if first then token.pool2 else token.pool1
  let amountIn := extAssetIn.quantity.amount
  let amountOut ← compute (-amountIn) poolOut.quantity.amount (poolIn.quantity.amount + amountIn)
  check (minExpected.amount ≤ -amountOut) "available is less than expected"
  let extAsset ← ExtendedAsset.make amountOut poolOut.extendedSymbol
  let pool1 ← token.pool1.add (if first then extAssetIn else extAsset)
  let pool2 ← token.pool2.add (if first then extAsset else extAssetIn)
  let token := { token with
    pool1 := pool1
    pool2 := pool2 }
  return ({ s with stats := s.stats.put pairToken token }, extAsset.neg)

/-- `exchange` -/
def exchange [Doubles] (env : Env) (ctx : Ctx) (s : State) (user : Name) (pairToken : SymbolCode)
    (extAssetIn : ExtendedAsset) (minExpected : Asset) : Result State := do
  check (env.isDexOpen = true) "DEX is not open"
  requireAuth ctx user
  let token ← require (s.stats.find? pairToken) "pair token does not exist"
  check ((0 < extAssetIn.quantity.amount ∧ 0 ≤ minExpected.amount) ∨
      (extAssetIn.quantity.amount < 0 ∧ minExpected.amount ≤ 0))
    "ext_asset_in must be nonzero and min_expected must have same sign or be zero"
  let token ← takeFee token extAssetIn.quantity
  let extAssetIn ← netInput extAssetIn
  let s := { s with stats := s.stats.put pairToken token }
  let (s, extAssetOut) ← processExch s pairToken extAssetIn minExpected
  let s ← addSignedExtBalance s user extAssetIn.neg
  addSignedExtBalance s user extAssetOut

/-- `exchangeall`.  The expected amount is the second reserve in both branches. -/
def exchangeall [Doubles] (env : Env) (ctx : Ctx) (s : State) (user : Name) (pairToken : SymbolCode)
    (assetIn : ExtendedSymbol) : Result State := do
  check (env.isDexOpen = true) "DEX is not open"
  requireAuth ctx user
  let token ← require (s.stats.find? pairToken) "pair token does not exist"
  check (token.pool1.extendedSymbol = assetIn ∨ token.pool2.extendedSymbol = assetIn)
    "doesn't have such asset in dexacnts"
  let minExpected := token.pool2.quantity
  let (_, balance) ← require (findDexacnt s user assetIn) "User does not have such token"
  exchange env ctx s user pairToken balance minExpected

/-- `memoexchange` -/
def memoexchange [Doubles] (env : Env) (s : State) (user : Name) (extAssetIn : ExtendedAsset)
    (pairToken : SymbolCode) (minExpected : Asset) : Result (State × List Inline) := do
  check (env.isDexOpen = true) "DEX is not open"
  check (0 ≤ minExpected.amount) "min_expected must be expressed with a positive amount"
  let token ← require (s.stats.find? pairToken) "pair token does not exist"
  let token ← takeFee token extAssetIn.quantity
  let extAssetIn ← netInput extAssetIn
  let s := { s with stats := s.stats.put pairToken token }
  let (s, extAssetOut) ← processExch s pairToken extAssetIn minExpected
  return (s, [.transfer extAssetOut.contract user extAssetOut.quantity
    ("exchange ".toList ++ extAssetIn.quantity.writeAsString ++ " to ".toList ++
      extAssetOut.quantity.writeAsString)])

theorem accrue_eq_ok [Doubles]
    {accrued accrued' : ExtendedAsset} {amountIn : Int64}
    (h : accrue accrued amountIn = .ok accrued') :
    accrued'.quantity.amount.toInt =
        trunc (rnd (rnd accrued.quantity.amount.toInt + rnd (feeOf amountIn.toInt / 2))) ∧
      accrued'.extendedSymbol = accrued.extendedSymbol := by
  simp only [accrue, bind_eq_ok_iff, toInt64_eq_ok_iff, pure_eq_ok_iff] at h
  obtain ⟨amount, hamount, rfl⟩ := h
  exact ⟨hamount, rfl⟩

theorem netInput_eq_ok [Doubles]
    {x net : ExtendedAsset}
    (h : netInput x = .ok net) :
    net.quantity.amount.toInt =
        trunc (rnd (rnd x.quantity.amount.toInt - feeOf x.quantity.amount.toInt)) ∧
      net.extendedSymbol = x.extendedSymbol := by
  simp only [netInput, bind_eq_ok_iff, toInt64_eq_ok_iff, pure_eq_ok_iff] at h
  obtain ⟨amount, hamount, rfl⟩ := h
  exact ⟨hamount, rfl⟩

/-- The fee of a swap touches the accrued fees and nothing else. -/
theorem takeFee_eq_ok [Doubles]
    {token token' : CurrencyStats} {assetIn : Asset}
    (h : takeFee token assetIn = .ok token') :
    ∃ fee1 fee2, token' = { token with fee1 := fee1, fee2 := fee2 } ∧
      (if assetIn.symbol = token.fee1.quantity.symbol then
        accrue token.fee1 assetIn.amount = .ok fee1 ∧ fee2 = token.fee2
      else if assetIn.symbol = token.fee2.quantity.symbol then
        accrue token.fee2 assetIn.amount = .ok fee2 ∧ fee1 = token.fee1
      else fee1 = token.fee1 ∧ fee2 = token.fee2) := by
  unfold takeFee at h
  split_ifs at h with h1 h2
  · simp only [bind_eq_ok_iff, pure_eq_ok_iff] at h
    obtain ⟨fee1, hfee1, rfl⟩ := h
    exact ⟨fee1, token.fee2, rfl, by simp [h1, hfee1]⟩
  · simp only [bind_eq_ok_iff, pure_eq_ok_iff] at h
    obtain ⟨fee2, hfee2, rfl⟩ := h
    exact ⟨token.fee1, fee2, rfl, by simp only [if_neg h1, if_pos h2, hfee2, and_self]⟩
  · simp only [pure_eq_ok_iff] at h
    exact ⟨token.fee1, token.fee2, h, by simp only [if_neg h1, if_neg h2, and_self]⟩

theorem processExch_eq_ok
    {s s' : State} {pairToken : SymbolCode} {extAssetIn extAssetOut : ExtendedAsset}
    {minExpected : Asset}
    (h : processExch s pairToken extAssetIn minExpected = .ok (s', extAssetOut)) :
    ∃ token first extAsset pool1 pool2,
      s.stats.find? pairToken = some token ∧
      inFirst token extAssetIn.extendedSymbol minExpected.symbol = some first ∧
      compute (-extAssetIn.quantity.amount)
        (if first then token.pool2 else token.pool1).quantity.amount
        ((if first then token.pool1 else token.pool2).quantity.amount +
          extAssetIn.quantity.amount) = .ok extAsset.quantity.amount ∧
      extAsset.extendedSymbol =
        (if first then token.pool2 else token.pool1).extendedSymbol ∧
      minExpected.amount ≤ -extAsset.quantity.amount ∧
      token.pool1.add (if first then extAssetIn else extAsset) = .ok pool1 ∧
      token.pool2.add (if first then extAsset else extAssetIn) = .ok pool2 ∧
      s' = { s with stats := s.stats.put pairToken { token with
        pool1 := pool1
        pool2 := pool2 } } ∧
      extAssetOut = extAsset.neg := by
  simp only [processExch, bind_eq_ok_iff, check_eq_ok_iff, require_eq_ok_iff,
    ExtendedAsset.make_eq_ok_iff, pure_eq_ok_iff, Prod.mk.injEq] at h
  obtain ⟨token, htoken, first, hfirst, amountOut, hcompute, _, hmin, _, ⟨-, -, rfl⟩, pool1,
    hpool1, pool2, hpool2, rfl, rfl⟩ := h
  exact ⟨token, first, ⟨⟨amountOut, _⟩, _⟩, pool1, pool2, htoken, hfirst, hcompute, rfl, hmin,
    hpool1, hpool2, rfl, rfl⟩

/-- The common part of both swaps: the fee is taken, then the net input is swapped. -/
def Swapped [Doubles] (s : State) (pairToken : SymbolCode) (extAssetIn : ExtendedAsset)
    (minExpected : Asset) (net extAssetOut : ExtendedAsset) (s' : State) : Prop :=
  ∃ token token',
    s.stats.find? pairToken = some token ∧
    takeFee token extAssetIn.quantity = .ok token' ∧
    netInput extAssetIn = .ok net ∧
    processExch { s with stats := s.stats.put pairToken token' } pairToken net minExpected =
      .ok (s', extAssetOut)

theorem exchange_eq_ok [Doubles]
    {env : Env} {ctx : Ctx} {s s' : State} {user : Name} {pairToken : SymbolCode}
    {extAssetIn : ExtendedAsset} {minExpected : Asset}
    (h : exchange env ctx s user pairToken extAssetIn minExpected = .ok s') :
    ∃ net extAssetOut s₁ s₂,
      user ∈ ctx.auths ∧
      (0 < extAssetIn.quantity.amount ∨ extAssetIn.quantity.amount < 0) ∧
      Swapped s pairToken extAssetIn minExpected net extAssetOut s₁ ∧
      addSignedExtBalance s₁ user net.neg = .ok s₂ ∧
      addSignedExtBalance s₂ user extAssetOut = .ok s' := by
  simp only [exchange, bind_eq_ok_iff, requireAuth_eq_ok_iff, check_eq_ok_iff,
    require_eq_ok_iff] at h
  obtain ⟨_, -, _, hauth, token, htoken, _, hsign, token', hfee, net, hnet, ⟨s₁, out⟩, hswap,
    s₂, hpay, hget⟩ := h
  refine ⟨net, out, s₁, s₂, hauth, ?_, ⟨token, token', htoken, hfee, hnet, hswap⟩, hpay, hget⟩
  rcases hsign with hsign | hsign
  · exact Or.inl hsign.1
  · exact Or.inr hsign.1

theorem exchangeall_eq_ok [Doubles]
    {env : Env} {ctx : Ctx} {s s' : State} {user : Name} {pairToken : SymbolCode}
    {assetIn : ExtendedSymbol}
    (h : exchangeall env ctx s user pairToken assetIn = .ok s') :
    ∃ token key balance,
      s.stats.find? pairToken = some token ∧
      findDexacnt s user assetIn = some (key, balance) ∧
      exchange env ctx s user pairToken balance token.pool2.quantity = .ok s' := by
  simp only [exchangeall, bind_eq_ok_iff, requireAuth_eq_ok_iff, check_eq_ok_iff,
    require_eq_ok_iff] at h
  obtain ⟨_, -, _, -, token, htoken, _, -, ⟨key, balance⟩, hrow, h⟩ := h
  exact ⟨token, key, balance, htoken, hrow, h⟩

theorem memoexchange_eq_ok [Doubles]
    {env : Env} {s s' : State} {user : Name} {extAssetIn : ExtendedAsset}
    {pairToken : SymbolCode} {minExpected : Asset} {sent : List Inline}
    (h : memoexchange env s user extAssetIn pairToken minExpected = .ok (s', sent)) :
    ∃ net extAssetOut memo,
      0 ≤ minExpected.amount ∧
      Swapped s pairToken extAssetIn minExpected net extAssetOut s' ∧
      sent = [.transfer extAssetOut.contract user extAssetOut.quantity memo] := by
  simp only [memoexchange, bind_eq_ok_iff, check_eq_ok_iff, require_eq_ok_iff,
    pure_eq_ok_iff, Prod.mk.injEq] at h
  obtain ⟨_, -, _, hmin, token, htoken, token', hfee, net, hnet, ⟨s₁, out⟩, hswap, rfl,
    rfl⟩ := h
  exact ⟨net, out, _, hmin, ⟨token, token', htoken, hfee, hnet, hswap⟩, rfl⟩

end Swaps

end Lemonade
