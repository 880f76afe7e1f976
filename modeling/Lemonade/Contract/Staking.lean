import Lemonade.Contract.Issue
import Mathlib.Tactic

/-!
# Products and stakes

`addproduct`, `rmproduct`, `stake`, `unstake`, the two claims and `changeyield`.
The row of an owner for a product is found through the index by product id.

The interest formula of the source is written three times, with different ends
of the interest period: now (`stake`), the maturity of a fixed term (`unstake`),
and the earlier of the two (`claimled`).
-/

namespace Lemonade

open Kernel

section Lookup

/-- `productIdx.find(name)` -/
def findProduct (s : State) (name : Name) : Option (Nat × Product) :=
  s.products.findBy fun _ p => decide (p.name = name)

/-- `stakingIdx.find(product_id)` in the scope of an owner -/
def findStaking (s : State) (owner : Name) (productId : Nat) :
    Option ((Name × Nat) × Staking) :=
  s.stakings.findBy fun k r => decide (k.1 = owner ∧ r.productId = productId)

/-- Ids of the rows in the scope of an owner. -/
def stakingIds (s : State) (owner : Name) : List Nat :=
  (s.stakings.rows.filter fun e => e.1.1 = owner).map fun e => e.1.2

theorem findProduct_eq_some
    {s : State} {name : Name} {id : Nat} {p : Product}
    (h : findProduct s name = some (id, p)) :
    s.products.find? id = some p ∧ p.name = name := by
  have hname := Table.prop_of_findBy h
  exact ⟨Table.find?_of_findBy h, by simpa using hname⟩

theorem findProduct_eq_none
    {s : State} {name : Name}
    (h : findProduct s name = none) {id : Nat} {p : Product}
    (hp : s.products.find? id = some p) : p.name ≠ name := by
  have := Table.findBy_eq_none_iff.mp h id p hp
  simpa using this

theorem findStaking_eq_some
    {s : State} {owner : Name} {productId : Nat} {key : Name × Nat} {row : Staking}
    (h : findStaking s owner productId = some (key, row)) :
    s.stakings.find? key = some row ∧ key.1 = owner ∧ row.productId = productId := by
  have hkey := Table.prop_of_findBy h
  exact ⟨Table.find?_of_findBy h, by simpa using hkey⟩

theorem findStaking_eq_none
    {s : State} {owner : Name} {productId : Nat}
    (h : findStaking s owner productId = none) {i : Nat} {row : Staking}
    (hrow : s.stakings.find? (owner, i) = some row) : row.productId ≠ productId := by
  have := Table.findBy_eq_none_iff.mp h (owner, i) row hrow
  simpa using this

end Lookup

section Rewards

/-- `yield_per_sec` -/
def yieldPerSec [Doubles] (yield : ℚ) : ℚ := rnd (rnd (yield - 1) / secondsPerYear.toNat)

/-- `asset(balance * yield_per_sec * secs)`, the interest of a period -/
def ledReward [Doubles] (balance : Asset) (yield : ℚ) (secs : UInt32) : Result Asset := do
  let amount ← toInt64
    (rnd (rnd (rnd balance.amount.toInt * yieldPerSec yield) * secs.toNat))
  Asset.make amount balance.symbol

/-- One round of the loop that weighs reward time: the start of the interval and
the weighted seconds so far. -/
def rewardStep (h : Fin 4 → UInt32) (rewardsEndTime : UInt32)
    (acc : UInt32 × UInt32) (i : Fin 3) : UInt32 × UInt32 :=
  if h i.castSucc ≤ acc.1 ∧ acc.1 < h i.succ then
    let lastReward := if h i.succ < rewardsEndTime then h i.succ else acc.1
    (lastReward, acc.2 + (rewardsEndTime - lastReward) / halvings i)
  else acc

/-- The loop that weighs the reward time from `lastReward` on. -/
def rewardSecs (h : Fin 4 → UInt32) (lastReward rewardsEndTime : UInt32) : UInt32 :=
  ((List.finRange 3).foldl (rewardStep h rewardsEndTime) (lastReward, 0)).2

/-- `asset(balance * weighted_secs * lem_reward_rate / secondsPerHour, LEM)` -/
def lemReward [Doubles] (balance : Asset) (secs : Int64) : Result Asset := do
  let amount ← toInt64 (rnd
    (rnd (rnd (balance.amount * secs).toInt * rnd lemRewardRate) / secondsPerHour.toNat))
  Asset.make amount lemSymbol

/-- `rewards_end_time` -/
def rewardsEnd (row : Staking) (current : UInt32) : UInt32 :=
  if row.endedAt ≤ current then row.endedAt else current

/-- LEM still owed on the whole period of a stake: `stake` and `unstake`. -/
def lemSettlement [Doubles] (config : Config) (product : Product) (row : Staking)
    (current : UInt32) : Result Asset :=
  if product.hasLemRewards = true then do
    let secs := rewardSecs config.lastHalfLifeUpdated row.startedAt (rewardsEnd row current)
    let total ← lemReward row.balance (Int64.ofNat secs.toNat)
    total.sub row.lemRewards
  else
    return zeroLem

theorem lemReward_eq_ok [Doubles]
    {balance r : Asset} {secs : Int64} (h : lemReward balance secs = .ok r) :
    r.amount.toInt =
        trunc (rnd
          (rnd (rnd (balance.amount * secs).toInt * rnd lemRewardRate) /
            secondsPerHour.toNat)) ∧
      AmountInRange r.amount ∧ r.symbol = lemSymbol := by
  simp only [lemReward, bind_eq_ok_iff, toInt64_eq_ok_iff, Asset.make_eq_ok_iff] at h
  obtain ⟨amount, hamount, hrange, -, rfl⟩ := h
  exact ⟨hamount, hrange, rfl⟩

end Rewards

section Products

/-- `addproduct` -/
def addproduct (env : Env) (ctx : Ctx) (s : State) (productName : Name)
    (minimumYield maximumYield : ℚ) (hasLemRewards hasPrediction : Bool)
    (amountPerAccount : Asset) (maximumAmountLimit : Option Asset)
    (duration : Option UInt32) : Result State := do
  requireAuth ctx env.self
  check (findProduct s productName = none) "product name already exist"
  check (minimumYield ≤ maximumYield)
    "maximum yield must be same or bigger then minimum yield"
  let zero ← Asset.make 0 amountPerAccount.symbol
  check (∀ limit ∈ maximumAmountLimit, amountPerAccount.amount ≤ limit.amount)
    "account limit must be smaller than total limit"
  check (∀ limit ∈ maximumAmountLimit, amountPerAccount.symbol = limit.symbol)
    "must be same amount_per_account and maximum_amount_limit symbol"
  let id ← availablePrimaryKey (s.products.rows.map Prod.fst)
  let products ← emplace s.products id {
    name := productName
    duration := duration.getD 0
    currentAmount := zero
    amountPerAccount := amountPerAccount
    maximumAmountLimit := maximumAmountLimit.getD zero
    minimumYield := minimumYield
    maximumYield := maximumYield
    hasLemRewards := hasLemRewards
    hasPrediction := hasPrediction
    buyers := [] }
  return { s with products := products }

/-- `rmproduct` -/
def rmproduct (env : Env) (ctx : Ctx) (s : State) (productName : Name) :
    Result State := do
  requireAuth ctx env.self
  let (id, product) ← require (findProduct s productName) "product does not exists"
  check (product.currentAmount.amount = 0) "this product already sold for other users"
  return { s with products := s.products.erase id }

theorem addproduct_eq_ok
    {env : Env} {ctx : Ctx} {s s' : State} {productName : Name}
    {minimumYield maximumYield : ℚ} {hasLemRewards hasPrediction : Bool}
    {amountPerAccount : Asset} {maximumAmountLimit : Option Asset} {duration : Option UInt32}
    (h : addproduct env ctx s productName minimumYield maximumYield hasLemRewards
      hasPrediction amountPerAccount maximumAmountLimit duration = .ok s') :
    ∃ id p, findProduct s productName = none ∧ s.products.find? id = none ∧
      p.name = productName ∧ p.currentAmount = ⟨0, amountPerAccount.symbol⟩ ∧
      p.amountPerAccount = amountPerAccount ∧ p.buyers = [] ∧
      p.minimumYield ≤ p.maximumYield ∧
      (p.maximumAmountLimit = p.currentAmount ∨
        p.amountPerAccount.amount ≤ p.maximumAmountLimit.amount ∧
          p.amountPerAccount.symbol = p.maximumAmountLimit.symbol) ∧
      s' = { s with products := s.products.put id p } := by
  simp only [addproduct, bind_eq_ok_iff, requireAuth_eq_ok_iff, check_eq_ok_iff,
    Asset.make_eq_ok_iff, emplace_eq_ok_iff, pure_eq_ok_iff] at h
  obtain ⟨_, -, _, hname, _, hyield, zero, ⟨-, -, rfl⟩, _, hle, _, hsym, id, -, _,
    ⟨hfresh, rfl⟩, rfl⟩ := h
  refine ⟨id, _, hname, hfresh, rfl, rfl, rfl, rfl, hyield, ?_, rfl⟩
  cases maximumAmountLimit with
  | none => exact Or.inl rfl
  | some limit => exact Or.inr ⟨hle limit rfl, hsym limit rfl⟩

theorem rmproduct_eq_ok
    {env : Env} {ctx : Ctx} {s s' : State} {productName : Name}
    (h : rmproduct env ctx s productName = .ok s') :
    ∃ id p, s.products.find? id = some p ∧ p.currentAmount.amount = 0 ∧
      env.self ∈ ctx.auths ∧ s' = { s with products := s.products.erase id } := by
  simp only [rmproduct, bind_eq_ok_iff, requireAuth_eq_ok_iff, check_eq_ok_iff,
    require_eq_ok_iff, pure_eq_ok_iff] at h
  obtain ⟨_, hauth, ⟨id, p⟩, hfind, _, hzero, rfl⟩ := h
  exact ⟨id, p, (findProduct_eq_some hfind).1, hzero, hauth, rfl⟩

end Products

section Stake

/-- `"none"_n` -/
def noneName : Name := nameLiteral "none"

/-- `started_at + duration` of a new period, zero for a product without term -/
def periodEnd (ctx : Ctx) (product : Product) : UInt32 :=
  if product.duration ≠ 0 then ctx.now + secondsPerDay * product.duration else 0

/-- `last_lem_reward` of a new period -/
def lastLemReward (ctx : Ctx) (product : Product) : UInt32 :=
  if product.hasLemRewards = true then ctx.now else 0

/-- Prediction and base price that a new row is stored with. -/
def choosePrediction (product : Product) (config2 : Config2) (pricePrediction : Option Name) :
    Result (Name × ℚ) :=
  match pricePrediction with
  | none => return (noneName, 0)
  | some prediction =>
      if prediction ≠ noneName then do
        check (product.hasPrediction = true) "Product doesn't accept price prediction"
        return (prediction, config2.price)
      else
        return (noneName, 0)

/-- The row of a new stake -/
def newStaking (ctx : Ctx) (quantity : Asset) (productId : Nat) (product : Product)
    (prediction : Name) (base : ℚ) : Staking where
  balance := quantity
  productId := productId
  currentYield := product.minimumYield
  pricePrediction := prediction
  startedAt := ctx.now
  basePrice := base
  endedAt := periodEnd ctx product
  lemRewards := zeroLem
  ledRewards := zeroLed
  lastClaimLedReward := ctx.now
  lastClaimLemReward := lastLemReward ctx product

/-- The row of a stake that starts a new period with another balance -/
def renewStaking (ctx : Ctx) (product : Product) (config2 : Config2) (row : Staking)
    (balance : Asset) : Staking :=
  { row with
    balance := balance
    startedAt := ctx.now
    endedAt := periodEnd ctx product
    basePrice := if product.hasPrediction = true then config2.price else 0
    lemRewards := zeroLem
    ledRewards := zeroLed
    lastClaimLedReward := ctx.now
    lastClaimLemReward := lastLemReward ctx product }

/-- `stake` by an owner without a row of the product -/
def stakeNew (ctx : Ctx) (s : State) (owner : Name) (quantity : Asset)
    (pricePrediction : Option Name) (productId : Nat) (product : Product)
    (config2 : Config2) : Result State := do
  check (product.amountPerAccount.amount ≠ 0 →
      quantity.amount ≤ product.amountPerAccount.amount)
    "exceed amount per account limits"
  check (product.maximumAmountLimit.amount ≠ 0 →
      product.currentAmount.amount + quantity.amount ≤ product.maximumAmountLimit.amount)
    "exceed product total amount limits"
  let (prediction, base) ← choosePrediction product config2 pricePrediction
  let id ← availablePrimaryKey (stakingIds s owner)
  let stakings ← emplace s.stakings (owner, id)
    (newStaking ctx quantity productId product prediction base)
  let currentAmount ← product.currentAmount.add quantity
  let products := s.products.put productId { product with
    currentAmount := currentAmount
    buyers := product.buyers ++ [owner] }
  return { s with stakings := stakings, products := products }

/-- `stake` by an owner who has a row: the reward of the old period is paid out
and the row starts a new period with the larger balance. -/
def stakeMore [Doubles] (env : Env) (ctx : Ctx) (s : State) (owner : Name) (quantity : Asset)
    (productId : Nat) (product : Product) (config : Config) (config2 : Config2)
    (key : Name × Nat) (row : Staking) : Result (State × List Inline) := do
  check (product.amountPerAccount.amount ≠ 0 →
      row.balance.amount + quantity.amount ≤ product.amountPerAccount.amount)
    "exceed amount per account limits"
  check (product.maximumAmountLimit.amount ≠ 0 →
      product.currentAmount.amount + quantity.amount + row.balance.amount ≤
        product.maximumAmountLimit.amount)
    "exceed product total amount limits"
  let (s, issued) ← issueLem env ctx s
  let totalLedReward ← ledReward row.balance row.currentYield (ctx.now - row.startedAt)
  let toOwnerLed ← totalLedReward.sub row.ledRewards
  let toOwnerLem ← lemSettlement config product row ctx.now
  let balance ← row.balance.add quantity
  let currentAmount ← product.currentAmount.add quantity
  let stakings := s.stakings.put key (renewStaking ctx product config2 row balance)
  let products := s.products.put productId { product with currentAmount := currentAmount }
  return ({ s with stakings := stakings, products := products },
    issued ++ sendPositive owner toOwnerLed "stake reward" ++
      sendPositive owner toOwnerLem "stake reward")

/-- `stake` -/
def stake [Doubles] (env : Env) (ctx : Ctx) (s : State) (owner : Name) (quantity : Asset)
    (productName : Name) (pricePrediction : Option Name) :
    Result (State × List Inline) := do
  requireAuth ctx owner
  check quantity.IsValid "invalid quantity"
  check (0 < quantity.amount) "must transfer positive quantity"
  let (productId, product) ← require (findProduct s productName) "product does not exist"
  let config ← require s.config "contract not initialized"
  let config2 ← require s.config2 "led price not exist"
  match findStaking s owner productId with
  | none =>
      let s ← stakeNew ctx s owner quantity pricePrediction productId product config2
      return (s, [])
  | some (key, row) =>
      stakeMore env ctx s owner quantity productId product config config2 key row

theorem stakeNew_eq_ok
    {ctx : Ctx} {s s' : State} {owner : Name} {quantity : Asset}
    {pricePrediction : Option Name} {productId : Nat} {product : Product}
    {config2 : Config2}
    (h : stakeNew ctx s owner quantity pricePrediction productId product config2 = .ok s') :
    ∃ prediction base id currentAmount,
      (product.amountPerAccount.amount ≠ 0 →
        quantity.amount ≤ product.amountPerAccount.amount) ∧
      (product.maximumAmountLimit.amount ≠ 0 →
        product.currentAmount.amount + quantity.amount ≤ product.maximumAmountLimit.amount) ∧
      s.stakings.find? (owner, id) = none ∧
      product.currentAmount.add quantity = .ok currentAmount ∧
      s' = { s with
        stakings := s.stakings.put (owner, id)
          (newStaking ctx quantity productId product prediction base)
        products := s.products.put productId { product with
          currentAmount := currentAmount
          buyers := product.buyers ++ [owner] } } := by
  simp only [stakeNew, bind_eq_ok_iff, check_eq_ok_iff, emplace_eq_ok_iff,
    pure_eq_ok_iff] at h
  obtain ⟨_, hper, _, hmax, ⟨prediction, base⟩, -, id, -, _, ⟨hfresh, rfl⟩, currentAmount,
    hadd, rfl⟩ := h
  exact ⟨prediction, base, id, currentAmount, hper, hmax, hfresh, hadd, rfl⟩

theorem stakeMore_eq_ok [Doubles]
    {env : Env} {ctx : Ctx} {s s' : State} {owner : Name} {quantity : Asset}
    {productId : Nat} {product : Product} {config : Config} {config2 : Config2}
    {key : Name × Nat} {row : Staking} {sent : List Inline}
    (h : stakeMore env ctx s owner quantity productId product config config2 key row =
      .ok (s', sent)) :
    ∃ config' issued totalLedReward toOwnerLed toOwnerLem balance currentAmount,
      issueLem env ctx s = .ok ({ s with config := config' }, issued) ∧
      lemSettlement config product row ctx.now = .ok toOwnerLem ∧
      (product.amountPerAccount.amount ≠ 0 →
        row.balance.amount + quantity.amount ≤ product.amountPerAccount.amount) ∧
      (product.maximumAmountLimit.amount ≠ 0 →
        product.currentAmount.amount + quantity.amount + row.balance.amount ≤
          product.maximumAmountLimit.amount) ∧
      ledReward row.balance row.currentYield (ctx.now - row.startedAt) = .ok totalLedReward ∧
      totalLedReward.sub row.ledRewards = .ok toOwnerLed ∧
      row.balance.add quantity = .ok balance ∧
      product.currentAmount.add quantity = .ok currentAmount ∧
      s' = { s with
        config := config'
        stakings := s.stakings.put key (renewStaking ctx product config2 row balance)
        products := s.products.put productId { product with
          currentAmount := currentAmount } } ∧
      sent = issued ++ sendPositive owner toOwnerLed "stake reward" ++
        sendPositive owner toOwnerLem "stake reward" := by
  simp only [stakeMore, bind_eq_ok_iff, check_eq_ok_iff, pure_eq_ok_iff, Prod.mk.injEq] at h
  obtain ⟨_, hper, _, hmax, ⟨s₁, issued⟩, hissue, total, htotal, toOwnerLed, hled, toOwnerLem,
    hlem, balance, hbalance, currentAmount, hcurrent, rfl, rfl⟩ := h
  obtain ⟨_, config', -, rfl, -, -⟩ := issueLem_frame hissue
  exact ⟨some config', issued, total, toOwnerLed, toOwnerLem, balance, currentAmount, hissue,
    hlem, hper, hmax, htotal, hled, hbalance, hcurrent, rfl, rfl⟩

/-- What a stake of more does to the tables. -/
theorem stakeMore_tables [Doubles]
    {env : Env} {ctx : Ctx} {s s' : State} {owner : Name} {quantity : Asset}
    {productId : Nat} {product : Product} {config : Config} {config2 : Config2}
    {key : Name × Nat} {row : Staking} {sent : List Inline}
    (h : stakeMore env ctx s owner quantity productId product config config2 key row =
      .ok (s', sent)) :
    ∃ config' balance currentAmount,
      row.balance.add quantity = .ok balance ∧
      product.currentAmount.add quantity = .ok currentAmount ∧
      s' = { s with
        config := config'
        stakings := s.stakings.put key (renewStaking ctx product config2 row balance)
        products := s.products.put productId { product with
          currentAmount := currentAmount } } := by
  obtain ⟨config', _, _, _, _, balance, currentAmount, -, -, -, -, -, -, hbalance, hcurrent,
    hstate, -⟩ := stakeMore_eq_ok h
  exact ⟨config', balance, currentAmount, hbalance, hcurrent, hstate⟩

theorem stake_eq_ok [Doubles]
    {env : Env} {ctx : Ctx} {s s' : State} {owner : Name} {quantity : Asset}
    {productName : Name} {pricePrediction : Option Name} {sent : List Inline}
    (h : stake env ctx s owner quantity productName pricePrediction = .ok (s', sent)) :
    ∃ productId product config config2,
      owner ∈ ctx.auths ∧ quantity.IsValid ∧ 0 < quantity.amount ∧
      findProduct s productName = some (productId, product) ∧
      s.config = some config ∧ s.config2 = some config2 ∧
      (findStaking s owner productId = none ∧ sent = [] ∧
          stakeNew ctx s owner quantity pricePrediction productId product config2 = .ok s' ∨
        ∃ key row, findStaking s owner productId = some (key, row) ∧
          stakeMore env ctx s owner quantity productId product config config2 key row =
            .ok (s', sent)) := by
  simp only [stake, bind_eq_ok_iff, requireAuth_eq_ok_iff, check_eq_ok_iff,
    require_eq_ok_iff] at h
  obtain ⟨_, hauth, _, hvalid, _, hpos, ⟨productId, product⟩, hproduct, config, hconfig, config2,
    hconfig2, h⟩ := h
  refine ⟨productId, product, config, config2, hauth, hvalid, hpos, hproduct, hconfig, hconfig2,
    ?_⟩
  cases hrow : findStaking s owner productId with
  | none =>
      simp only [hrow, bind_eq_ok_iff, pure_eq_ok_iff, Prod.mk.injEq] at h
      obtain ⟨_, hnew, rfl, rfl⟩ := h
      exact Or.inl ⟨rfl, rfl, hnew⟩
  | some found =>
      obtain ⟨key, row⟩ := found
      simp only [hrow] at h
      exact Or.inr ⟨key, row, rfl, h⟩

end Stake

section Unstake

/-- The yield that `unstake` pays: the one of the row, or the one the prediction
has earned. -/
def finalYield (product : Product) (config2 : Config2) (row : Staking) : ℚ :=
  if product.hasPrediction = true then
    if row.pricePrediction = nameLiteral "long" then
      if row.basePrice < config2.price then product.maximumYield else product.minimumYield
    else if row.pricePrediction = nameLiteral "short" then
      if row.basePrice < config2.price then product.minimumYield else product.maximumYield
    else row.currentYield
  else row.currentYield

/-- End of the interest period for `unstake`. -/
def settlementTime (ctx : Ctx) (product : Product) (row : Staking) : UInt32 :=
  if product.duration ≠ 0 then row.endedAt else ctx.now

/-- `unstake` -/
def unstake [Doubles] (env : Env) (ctx : Ctx) (s : State) (owner productName : Name) :
    Result (State × List Inline) := do
  requireAuth ctx owner
  let config ← require s.config "contract not initialized"
  let config2 ← require s.config2 "led price not exist"
  let (productId, product) ← require (findProduct s productName) "product does not exist"
  let (key, row) ← require (findStaking s owner productId) "owner does not has product"
  check (row.endedAt ≠ 0 → row.endedAt ≤ ctx.now) "account end time is not over"
  check (row.endedAt = 0 → row.startedAt + secondsPerDay ≤ ctx.now)
    "account end time is not over"
  let (s, issued) ← issueLem env ctx s
  let current := settlementTime ctx product row
  let totalLedReward ← ledReward row.balance (finalYield product config2 row)
    (current - row.startedAt)
  let withReward ← row.balance.add totalLedReward
  let toOwnerLed ← withReward.sub row.ledRewards
  let toOwnerLem ← lemSettlement config product row current
  check (0 < toOwnerLed.amount) "unstake amount must not be zero"
  let currentAmount ← product.currentAmount.sub row.balance
  let products := s.products.put productId { product with
    currentAmount := currentAmount
    buyers := product.buyers.filter fun buyer => buyer ≠ owner }
  return ({ s with products := products, stakings := s.stakings.erase key },
    issued ++ .transfer ledTokenContract owner toOwnerLed "unstake".toList ::
      sendPositive owner toOwnerLem "unstake")

theorem unstake_eq_ok_iff [Doubles]
    {env : Env} {ctx : Ctx} {s s' : State} {owner productName : Name} {sent : List Inline} :
    unstake env ctx s owner productName = .ok (s', sent) ↔
    ∃ config config2 productId product key row t issued totalLedReward withReward
        toOwnerLed toOwnerLem currentAmount,
      owner ∈ ctx.auths ∧
      s.config = some config ∧
      s.config2 = some config2 ∧
      findProduct s productName = some (productId, product) ∧
      findStaking s owner productId = some (key, row) ∧
      (row.endedAt ≠ 0 → row.endedAt ≤ ctx.now) ∧
      (row.endedAt = 0 → row.startedAt + secondsPerDay ≤ ctx.now) ∧
      issueLem env ctx s = .ok (t, issued) ∧
      ledReward row.balance (finalYield product config2 row)
        (settlementTime ctx product row - row.startedAt) = .ok totalLedReward ∧
      row.balance.add totalLedReward = .ok withReward ∧
      withReward.sub row.ledRewards = .ok toOwnerLed ∧
      lemSettlement config product row (settlementTime ctx product row) = .ok toOwnerLem ∧
      0 < toOwnerLed.amount ∧
      product.currentAmount.sub row.balance = .ok currentAmount ∧
      s' = { t with
        products := t.products.put productId { product with
          currentAmount := currentAmount
          buyers := product.buyers.filter fun buyer => buyer ≠ owner }
        stakings := t.stakings.erase key } ∧
      sent = issued ++ .transfer ledTokenContract owner toOwnerLed "unstake".toList ::
        sendPositive owner toOwnerLem "unstake" := by
  simp only [unstake, bind_eq_ok_iff, requireAuth_eq_ok_iff, check_eq_ok_iff,
    require_eq_ok_iff, pure_eq_ok_iff, Prod.mk.injEq]
  constructor
  · rintro ⟨_, hauth, config, hconfig, config2, hconfig2, ⟨productId, product⟩, hproduct,
      ⟨key, row⟩, hrow, _, hended, _, hday, ⟨t, issued⟩, hissue, total, htotal, withReward, hwith,
      toOwnerLed, hled, toOwnerLem, hlem, _, hpos, currentAmount, hcurrent, rfl, rfl⟩
    exact ⟨config, config2, productId, product, key, row, t, issued, total, withReward,
      toOwnerLed, toOwnerLem, currentAmount, hauth, hconfig, hconfig2, hproduct, hrow, hended,
      hday, hissue, htotal, hwith, hled, hlem, hpos, hcurrent, rfl, rfl⟩
  · rintro ⟨config, config2, productId, product, key, row, t, issued, total, withReward,
      toOwnerLed, toOwnerLem, currentAmount, hauth, hconfig, hconfig2, hproduct, hrow, hended,
      hday, hissue, htotal, hwith, hled, hlem, hpos, hcurrent, rfl, rfl⟩
    exact ⟨⟨⟩, hauth, config, hconfig, config2, hconfig2, (productId, product), hproduct,
      (key, row), hrow, ⟨⟩, hended, ⟨⟩, hday, (t, issued), hissue, total, htotal, withReward,
      hwith, toOwnerLed, hled, toOwnerLem, hlem, ⟨⟩, hpos, currentAmount, hcurrent, rfl, rfl⟩

theorem unstake_eq_ok [Doubles]
    {env : Env} {ctx : Ctx} {s s' : State} {owner productName : Name} {sent : List Inline}
    (h : unstake env ctx s owner productName = .ok (s', sent)) :
    ∃ config config2 productId product key row config' issued totalLedReward withReward
        toOwnerLed toOwnerLem currentAmount,
      owner ∈ ctx.auths ∧
      s.config = some config ∧
      s.config2 = some config2 ∧
      issueLem env ctx s = .ok ({ s with config := config' }, issued) ∧
      lemSettlement config product row (settlementTime ctx product row) = .ok toOwnerLem ∧
      findProduct s productName = some (productId, product) ∧
      findStaking s owner productId = some (key, row) ∧
      (row.endedAt ≠ 0 → row.endedAt ≤ ctx.now) ∧
      ledReward row.balance (finalYield product config2 row)
        (settlementTime ctx product row - row.startedAt) = .ok totalLedReward ∧
      row.balance.add totalLedReward = .ok withReward ∧
      withReward.sub row.ledRewards = .ok toOwnerLed ∧
      product.currentAmount.sub row.balance = .ok currentAmount ∧
      s' = { s with
        config := config'
        products := s.products.put productId { product with
          currentAmount := currentAmount
          buyers := product.buyers.filter fun buyer => buyer ≠ owner }
        stakings := s.stakings.erase key } ∧
      sent = issued ++ .transfer ledTokenContract owner toOwnerLed "unstake".toList ::
        sendPositive owner toOwnerLem "unstake" := by
  obtain ⟨config, config2, productId, product, key, row, t, issued, total, withReward,
    toOwnerLed, toOwnerLem, currentAmount, hauth, hconfig, hconfig2, hproduct, hrow, hended, -,
    hissue, htotal, hwith, hled, hlem, -, hcurrent, rfl, rfl⟩ := unstake_eq_ok_iff.mp h
  obtain ⟨_, config', -, rfl, -, -⟩ := issueLem_frame hissue
  exact ⟨config, config2, productId, product, key, row, some config', issued, total, withReward,
    toOwnerLed, toOwnerLem, currentAmount, hauth, hconfig, hconfig2, hissue, hlem, hproduct, hrow,
    hended, htotal, hwith, hled, hcurrent, rfl, rfl⟩

/-- What `unstake` does to the tables: the row is gone, and its balance is off the total of
the product. -/
theorem unstake_tables [Doubles]
    {env : Env} {ctx : Ctx} {s s' : State} {owner productName : Name} {sent : List Inline}
    (h : unstake env ctx s owner productName = .ok (s', sent)) :
    ∃ productId product key row config' currentAmount,
      owner ∈ ctx.auths ∧
      findProduct s productName = some (productId, product) ∧
      findStaking s owner productId = some (key, row) ∧
      product.currentAmount.sub row.balance = .ok currentAmount ∧
      s' = { s with
        config := config'
        products := s.products.put productId { product with
          currentAmount := currentAmount
          buyers := product.buyers.filter fun buyer => buyer ≠ owner }
        stakings := s.stakings.erase key } := by
  obtain ⟨_, _, productId, product, key, row, config', _, _, _, _, _, currentAmount, hauth, -, -,
    -, -, hproduct, hrow, -, -, -, -, hcurrent, hstate, -⟩ := unstake_eq_ok h
  exact ⟨productId, product, key, row, config', currentAmount, hauth, hproduct, hrow, hcurrent,
    hstate⟩

end Unstake

section Claims

/-- End of the interest period for `claimled`. -/
def claimTime (ctx : Ctx) (product : Product) (row : Staking) : UInt32 :=
  if product.duration ≠ 0 then
    if row.endedAt ≤ ctx.now then row.endedAt else ctx.now
  else ctx.now

/-- The interest that `claimled` pays.  The product of balance and seconds is taken
in 64 bits. -/
def claimAmount [Doubles] (row : Staking) (secs : UInt32) : Result Int64 :=
  toInt64 (rnd (rnd (row.balance.amount * Int64.ofNat secs.toNat).toInt *
    yieldPerSec row.currentYield))

/-- `claimled` -/
def claimled [Doubles] (ctx : Ctx) (s : State) (owner productName : Name) :
    Result (State × List Inline) := do
  requireAuth ctx owner
  let (productId, product) ← require (findProduct s productName) "product does not exist"
  let (key, row) ← require (findStaking s owner productId) "owner does not has product"
  let current := claimTime ctx product row
  let amount ← claimAmount row (current - row.lastClaimLedReward)
  let toOwnerLed : Asset := { zeroLed with amount := amount }
  if 0 < toOwnerLed.amount then
    let ledRewards ← row.ledRewards.add toOwnerLed
    let stakings := s.stakings.put key { row with
      lastClaimLedReward := current
      ledRewards := ledRewards }
    return ({ s with stakings := stakings },
      [.transfer ledTokenContract owner toOwnerLed "claim led".toList])
  else
    return (s, [])

/-- `claimlem` -/
def claimlem [Doubles] (env : Env) (ctx : Ctx) (s : State) (owner productName : Name) :
    Result (State × List Inline) := do
  requireAuth ctx owner
  let (s, issued) ← issueLem env ctx s
  let config ← require s.config "contract not initialized"
  let (productId, product) ← require (findProduct s productName) "product does not exist"
  let (key, row) ← require (findStaking s owner productId) "owner does not has product"
  check (product.hasLemRewards = true) "there are no LEM rewards for this product "
  let rewardsEndTime := rewardsEnd row ctx.now
  -- `amount` of the source is a signed int that the loop adds to modulo 2 ^ 32
  let amount := (rewardSecs config.lastHalfLifeUpdated row.lastClaimLemReward
    rewardsEndTime).toInt32
  let toOwnerLem ← lemReward row.balance amount.toInt64
  if 0 < toOwnerLem.amount then
    let lemRewards ← row.lemRewards.add toOwnerLem
    let stakings := s.stakings.put key { row with
      lastClaimLemReward := rewardsEndTime
      lemRewards := lemRewards }
    return ({ s with stakings := stakings },
      issued ++ [.transfer ledTokenContract owner toOwnerLem "claim lem".toList])
  else
    return (s, issued)

/-- `changeyield` -/
def changeyield (env : Env) (ctx : Ctx) (s : State) (owner productName : Name)
    (yield : ℚ) : Result State := do
  requireAuth ctx env.self
  let (productId, product) ← require (findProduct s productName) "product does not exist"
  let (key, row) ← require (findStaking s owner productId) "owner does not has product"
  check (product.minimumYield ≤ yield ∧ yield ≤ product.maximumYield)
    "exceed product yield range"
  return { s with stakings := s.stakings.put key { row with currentYield := yield } }

theorem claimled_eq_ok [Doubles]
    {ctx : Ctx} {s s' : State} {owner productName : Name} {sent : List Inline}
    (h : claimled ctx s owner productName = .ok (s', sent)) :
    ∃ productId product key row amount,
      owner ∈ ctx.auths ∧
      findProduct s productName = some (productId, product) ∧
      findStaking s owner productId = some (key, row) ∧
      claimAmount row (claimTime ctx product row - row.lastClaimLedReward) = .ok amount ∧
      (¬ 0 < amount ∧ s' = s ∧ sent = [] ∨
        ∃ ledRewards, 0 < amount ∧
          row.ledRewards.add ⟨amount, ledSymbol⟩ = .ok ledRewards ∧
          s' = { s with stakings := s.stakings.put key { row with
            lastClaimLedReward := claimTime ctx product row
            ledRewards := ledRewards } } ∧
          sent = [.transfer ledTokenContract owner ⟨amount, ledSymbol⟩ "claim led".toList]) := by
  simp only [claimled, bind_eq_ok_iff, requireAuth_eq_ok_iff, require_eq_ok_iff] at h
  obtain ⟨_, hauth, ⟨productId, product⟩, hproduct, ⟨key, row⟩, hrow, amount, hamount, h⟩ := h
  refine ⟨productId, product, key, row, amount, hauth, hproduct, hrow, hamount, ?_⟩
  split_ifs at h with hpos
  · simp only [bind_eq_ok_iff, pure_eq_ok_iff, Prod.mk.injEq] at h
    obtain ⟨ledRewards, hadd, rfl, rfl⟩ := h
    exact Or.inr ⟨ledRewards, hpos, hadd, rfl, rfl⟩
  · simp only [pure_eq_ok_iff, Prod.mk.injEq] at h
    obtain ⟨rfl, rfl⟩ := h
    exact Or.inl ⟨hpos, rfl, rfl⟩

theorem claimlem_eq_ok [Doubles]
    {env : Env} {ctx : Ctx} {s s' : State} {owner productName : Name} {sent : List Inline}
    (h : claimlem env ctx s owner productName = .ok (s', sent)) :
    ∃ config config' issued productId product key row toOwnerLem,
      owner ∈ ctx.auths ∧
      s.config = some config ∧
      issueLem env ctx s = .ok ({ s with config := config' }, issued) ∧
      findProduct s productName = some (productId, product) ∧
      findStaking s owner productId = some (key, row) ∧
      product.hasLemRewards = true ∧
      lemReward row.balance (rewardSecs config.lastHalfLifeUpdated row.lastClaimLemReward
        (rewardsEnd row ctx.now)).toInt32.toInt64 = .ok toOwnerLem ∧
      (¬ 0 < toOwnerLem.amount ∧ s' = { s with config := config' } ∧ sent = issued ∨
        ∃ lemRewards, 0 < toOwnerLem.amount ∧
          row.lemRewards.add toOwnerLem = .ok lemRewards ∧
          s' = { s with
            config := config'
            stakings := s.stakings.put key { row with
              lastClaimLemReward := rewardsEnd row ctx.now
              lemRewards := lemRewards } } ∧
          sent = issued ++
            [.transfer ledTokenContract owner toOwnerLem "claim lem".toList]) := by
  simp only [claimlem, bind_eq_ok_iff, requireAuth_eq_ok_iff, check_eq_ok_iff,
    require_eq_ok_iff] at h
  obtain ⟨_, hauth, ⟨s₁, issued⟩, hissue, config₁, hconfig₁, ⟨productId, product⟩, hproduct,
    ⟨key, row⟩, hrow, _, hrewards, toOwnerLem, hlem, h⟩ := h
  obtain ⟨config, config', hconfig, rfl, htable, -⟩ := issueLem_frame hissue
  obtain rfl := Option.some.inj hconfig₁
  rw [htable] at hlem
  refine ⟨config, some config', issued, productId, product, key, row, toOwnerLem, hauth, hconfig,
    hissue, hproduct, hrow, hrewards, hlem, ?_⟩
  split_ifs at h with hpos
  · simp only [bind_eq_ok_iff, pure_eq_ok_iff, Prod.mk.injEq] at h
    obtain ⟨lemRewards, hadd, rfl, rfl⟩ := h
    exact Or.inr ⟨lemRewards, hpos, hadd, rfl, rfl⟩
  · simp only [pure_eq_ok_iff, Prod.mk.injEq] at h
    obtain ⟨rfl, rfl⟩ := h
    exact Or.inl ⟨hpos, rfl, rfl⟩

theorem changeyield_eq_ok
    {env : Env} {ctx : Ctx} {s s' : State} {owner productName : Name} {yield : ℚ}
    (h : changeyield env ctx s owner productName yield = .ok s') :
    ∃ productId product key row,
      findProduct s productName = some (productId, product) ∧
      findStaking s owner productId = some (key, row) ∧
      product.minimumYield ≤ yield ∧ yield ≤ product.maximumYield ∧
      s' = { s with stakings := s.stakings.put key { row with currentYield := yield } } := by
  simp only [changeyield, bind_eq_ok_iff, requireAuth_eq_ok_iff, check_eq_ok_iff,
    require_eq_ok_iff, pure_eq_ok_iff] at h
  obtain ⟨_, -, ⟨productId, product⟩, hproduct, ⟨key, row⟩, hrow, _, ⟨hmin, hmax⟩, rfl⟩ := h
  exact ⟨productId, product, key, row, hproduct, hrow, hmin, hmax, rfl⟩

/-- What does not move during a period. -/
structure SameStake (row row' : Staking) : Prop where
  balance : row'.balance = row.balance
  pricePrediction : row'.pricePrediction = row.pricePrediction
  basePrice : row'.basePrice = row.basePrice
  startedAt : row'.startedAt = row.startedAt
  endedAt : row'.endedAt = row.endedAt

theorem SameStake.refl (row : Staking) : SameStake row row := ⟨rfl, rfl, rfl, rfl, rfl⟩

theorem SameStake.symm
    {row row' : Staking} (h : SameStake row row') : SameStake row' row :=
  ⟨h.balance.symm, h.pricePrediction.symm, h.basePrice.symm, h.startedAt.symm, h.endedAt.symm⟩

theorem SameStake.trans
    {row row' row'' : Staking} (h : SameStake row row') (h' : SameStake row' row'') :
    SameStake row row'' :=
  ⟨h'.balance.trans h.balance, h'.pricePrediction.trans h.pricePrediction,
    h'.basePrice.trans h.basePrice, h'.startedAt.trans h.startedAt, h'.endedAt.trans h.endedAt⟩

/-- One row at most is rewritten, with a yield in the range of its product. -/
inductive Rewritten (s s' : State) : Prop
  | idle (products : s'.products = s.products) (stakings : s'.stakings = s.stakings)
  | row {key : Name × Nat} {p : Product} {row row' : Staking}
      (find : s.stakings.find? key = some row)
      (product : s.products.find? row.productId = some p)
      (productId : row'.productId = row.productId) (same : SameStake row row')
      (yield : row'.currentYield = row.currentYield ∨
        p.minimumYield ≤ row'.currentYield ∧ row'.currentYield ≤ p.maximumYield)
      (products : s'.products = s.products) (stakings : s'.stakings = s.stakings.put key row')

theorem Rewritten.products {s s' : State} (h : Rewritten s s') : s'.products = s.products := by
  cases h with
  | idle products _ => exact products
  | row _ _ _ _ _ products _ => exact products

theorem claimled_rewritten [Doubles]
    {ctx : Ctx} {s s' : State} {owner productName : Name} {sent : List Inline}
    (h : claimled ctx s owner productName = .ok (s', sent)) : Rewritten s s' := by
  obtain ⟨_, _, _, _, _, -, hproduct, hrow, -, ⟨-, rfl, -⟩ | ⟨_, -, -, rfl, -⟩⟩ :=
    claimled_eq_ok h
  · exact .idle rfl rfl
  · obtain ⟨hp, -⟩ := findProduct_eq_some hproduct
    obtain ⟨hfind, -, rfl⟩ := findStaking_eq_some hrow
    refine .row hfind hp ?_ ?_ (Or.inl ?_) rfl rfl
    · rfl
    · exact ⟨rfl, rfl, rfl, rfl, rfl⟩
    · rfl

theorem claimlem_rewritten [Doubles]
    {env : Env} {ctx : Ctx} {s s' : State} {owner productName : Name} {sent : List Inline}
    (h : claimlem env ctx s owner productName = .ok (s', sent)) : Rewritten s s' := by
  obtain ⟨_, _, _, _, _, _, _, _, -, -, -, hproduct, hrow, -, -, ⟨-, rfl, -⟩ | ⟨_, -, -, rfl, -⟩⟩ :=
    claimlem_eq_ok h
  · exact .idle rfl rfl
  · obtain ⟨hp, -⟩ := findProduct_eq_some hproduct
    obtain ⟨hfind, -, rfl⟩ := findStaking_eq_some hrow
    refine .row hfind hp ?_ ?_ (Or.inl ?_) rfl rfl
    · rfl
    · exact ⟨rfl, rfl, rfl, rfl, rfl⟩
    · rfl

theorem changeyield_rewritten
    {env : Env} {ctx : Ctx} {s s' : State} {owner productName : Name} {yield : ℚ}
    (h : changeyield env ctx s owner productName yield = .ok s') : Rewritten s s' := by
  obtain ⟨_, _, _, _, hproduct, hrow, hmin, hmax, rfl⟩ := changeyield_eq_ok h
  obtain ⟨hp, -⟩ := findProduct_eq_some hproduct
  obtain ⟨hfind, -, rfl⟩ := findStaking_eq_some hrow
  refine .row hfind hp ?_ ?_ (Or.inr ?_) rfl rfl
  · rfl
  · exact ⟨rfl, rfl, rfl, rfl, rfl⟩
  · exact ⟨hmin, hmax⟩

end Claims

end Lemonade
