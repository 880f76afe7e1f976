import Lemonade.Contract.Dex
import Mathlib.Tactic

/-!
# Creation, removal and rewards of pools

A pool has a row in `stats`, `poollists` and `lemindexes` under its LP code, and
an entry in `swaplists` for each order of its two token codes.
-/

namespace Lemonade

open Kernel

section Creation

/-- `placeindex` -/
def placeindex (s : State) (lpSymbol : Symbol) (pool1 pool2 : ExtendedAsset) :
    Result State := do
  let id256 := make256key pool1.contract.value pool1.quantity.symbol.raw
    pool2.contract.value pool2.quantity.symbol.raw
  check (s.lemindexes.findBy (fun _ row => decide (row.id256 = id256)) = none)
    "the pool is already indexed"
  let lemindexes ← emplace s.lemindexes lpSymbol.code { lpSymbol := lpSymbol, id256 := id256 }
  return { s with lemindexes := lemindexes }

/-- `indexpair` -/
def indexpair (env : Env) (s : State) (lpSymbol : Symbol) : Result State := do
  check (env.isDexOpen = true) "DEX is not open"
  let token ← require (s.stats.find? lpSymbol.code) "token symbol does not exist"
  placeindex s lpSymbol token.pool1 token.pool2

/-- `create_pool_fee` -/
def createPoolFee : ExtendedAsset := ⟨⟨2000000, lemSymbol⟩, ledTokenContract⟩

/-- Payment of `create_pool_fee`, by every account but `lemonade.c` -/
def payPoolFee (s : State) (user : Name) : Result State :=
  if user ≠ nameLiteral "lemonade.c" then addSignedExtBalance s user createPoolFee.neg
  else .ok s

/-- The row of a new pool in `stats` -/
def newPool (user : Name) (newSymbol : Symbol) (supply : Asset)
    (initialPool1 initialPool2 : ExtendedAsset) : CurrencyStats where
  supply := supply
  maxSupply := ⟨Int64.ofInt maxAmount, newSymbol⟩
  issuer := user
  pool1 := initialPool1
  pool2 := initialPool2
  fee1 := { initialPool1 with quantity := { initialPool1.quantity with amount := 0 } }
  fee2 := { initialPool2 with quantity := { initialPool2.quantity with amount := 0 } }
  fee3 := ⟨zeroLem, ledTokenContract⟩

/-- The entries of a new pool in `swaplists`, `poollists` and `lemindexes` -/
def registerPool (s : State) (newSymbol : Symbol) (initialPool1 initialPool2 : ExtendedAsset) :
    Result State := do
  let token1 := initialPool1.quantity.symbol
  let token2 := initialPool2.quantity.symbol
  check (s.swaplists.find? (token1.code, token2.code) = none) "token symbol already exists"
  let swaplists := s.swaplists.put (token1.code, token2.code) token2
  check (swaplists.find? (token2.code, token1.code) = none) "token symbol already exists"
  let swaplists := swaplists.put (token2.code, token1.code) token1
  check (s.poollists.find? newSymbol.code = none) "token symbol already exists"
  let poollists := s.poollists.put newSymbol.code {
    lpSymbol := newSymbol
    symbol1 := initialPool1.extendedSymbol
    symbol2 := initialPool2.extendedSymbol }
  placeindex { s with swaplists := swaplists, poollists := poollists } newSymbol
    initialPool1 initialPool2

/-- `inittoken` -/
def inittoken (env : Env) (ctx : Ctx) (s : State) (user : Name) (newSymbol : Symbol)
    (initialPool1 initialPool2 : ExtendedAsset) : Result State := do
  check (env.isDexOpen = true) "DEX is not open"
  requireAuth ctx user
  check (0 < initialPool1.quantity.amount ∧ 0 < initialPool2.quantity.amount)
    "Both assets must be positive"
  check (initialPool1.quantity.amount < initMax ∧ initialPool2.quantity.amount < initMax)
    "Initial amounts must be less than 10^15"
  check (newSymbol.precision.toNat =
      (initialPool1.quantity.symbol.precision.toNat +
        initialPool2.quantity.symbol.precision.toNat) / 2)
    "new_symbol precision must be (precision1 + precision2) / 2"
  let newToken ← Asset.make
    (env.geometricMean initialPool1.quantity.amount initialPool2.quantity.amount) newSymbol
  check (initialPool1.extendedSymbol ≠ initialPool2.extendedSymbol)
    "extended symbols must be different"
  let s ← payPoolFee s user
  check (s.stats.find? newSymbol.code = none) "token symbol already exists"
  let s := { s with
    stats := s.stats.put newSymbol.code
      (newPool user newSymbol newToken initialPool1 initialPool2) }
  let s ← registerPool s newSymbol initialPool1 initialPool2
  let s ← addBalance s user newToken
  let s ← addSignedExtBalance s user initialPool1.neg
  addSignedExtBalance s user initialPool2.neg

theorem placeindex_eq_ok
    {s s' : State} {lpSymbol : Symbol} {pool1 pool2 : ExtendedAsset}
    (h : placeindex s lpSymbol pool1 pool2 = .ok s') :
    ∃ lemindexes, s' = { s with lemindexes := lemindexes } := by
  simp only [placeindex, bind_eq_ok_iff, pure_eq_ok_iff] at h
  obtain ⟨_, -, lemindexes, -, rfl⟩ := h
  exact ⟨lemindexes, rfl⟩

theorem indexpair_eq_ok
    {env : Env} {s s' : State} {lpSymbol : Symbol}
    (h : indexpair env s lpSymbol = .ok s') :
    ∃ lemindexes, s' = { s with lemindexes := lemindexes } := by
  simp only [indexpair, bind_eq_ok_iff] at h
  obtain ⟨_, -, token, -, h⟩ := h
  exact placeindex_eq_ok h

/-- A pool is only registered for two different token codes. -/
theorem registerPool_eq_ok
    {s s' : State} {newSymbol : Symbol} {pool1 pool2 : ExtendedAsset}
    (h : registerPool s newSymbol pool1 pool2 = .ok s') :
    ∃ swaplists poollists lemindexes,
      pool1.quantity.symbol.code ≠ pool2.quantity.symbol.code ∧
      s' = { s with
        swaplists := swaplists
        poollists := poollists
        lemindexes := lemindexes } := by
  simp only [registerPool, bind_eq_ok_iff, check_eq_ok_iff] at h
  obtain ⟨_, -, _, hpair, _, -, h⟩ := h
  obtain ⟨lemindexes, rfl⟩ := placeindex_eq_ok h
  refine ⟨_, _, lemindexes, ?_, rfl⟩
  intro hcode
  rw [hcode] at hpair
  simp at hpair

theorem inittoken_eq_ok
    {env : Env} {ctx : Ctx} {s s' : State} {user : Name} {newSymbol : Symbol}
    {initialPool1 initialPool2 : ExtendedAsset}
    (h : inittoken env ctx s user newSymbol initialPool1 initialPool2 = .ok s') :
    ∃ newToken s₁ swaplists poollists lemindexes s₂ s₃,
      user ∈ ctx.auths ∧
      0 < initialPool1.quantity.amount ∧ 0 < initialPool2.quantity.amount ∧
      initialPool1.quantity.amount < initMax ∧ initialPool2.quantity.amount < initMax ∧
      newToken.symbol = newSymbol ∧ AmountInRange newToken.amount ∧
      1 ≤ newToken.amount.toInt ∧
      initialPool1.quantity.symbol.code ≠ initialPool2.quantity.symbol.code ∧
      payPoolFee s user = .ok s₁ ∧
      s₁.stats.find? newSymbol.code = none ∧
      addBalance { s₁ with
        stats := s₁.stats.put newSymbol.code
          (newPool user newSymbol newToken initialPool1 initialPool2)
        swaplists := swaplists
        poollists := poollists
        lemindexes := lemindexes } user newToken = .ok s₂ ∧
      addSignedExtBalance s₂ user initialPool1.neg = .ok s₃ ∧
      addSignedExtBalance s₃ user initialPool2.neg = .ok s' := by
  simp only [inittoken, bind_eq_ok_iff, requireAuth_eq_ok_iff, check_eq_ok_iff,
    Asset.make_eq_ok_iff] at h
  obtain ⟨_, -, _, hauth, _, ⟨hpos1, hpos2⟩, _, ⟨hmax1, hmax2⟩, _, -, _, ⟨hrange, -, rfl⟩, _, -, s₁,
    hfee, _, hfresh, _, hregister, s₂, hshares, s₃, hpay1, hpay2⟩ := h
  obtain ⟨swaplists, poollists, lemindexes, hcodes, rfl⟩ := registerPool_eq_ok hregister
  exact ⟨_, s₁, swaplists, poollists, lemindexes, s₂, s₃, hauth, hpos1, hpos2, hmax1, hmax2,
    rfl, hrange, env.geometricMean_pos _ _ hpos1 hpos2, hcodes, hfee, hfresh, hshares, hpay1, hpay2⟩

end Creation

section Holders

/-- Rows in the scope of a symbol code in `userinfo`, in the order of the table. -/
def holders (s : State) (code : SymbolCode) : List (Name × Asset) :=
  ((s.userinfo.rows.filter fun e => e.1.1 = code).map fun e => (e.1.2, e.2)).insertionSort
    fun a b => a.1.value ≤ b.1.value

theorem mem_holders_iff
    {s : State} {code : SymbolCode} {account : Name} {balance : Asset} :
    (account, balance) ∈ holders s code ↔ s.userinfo.find? (code, account) = some balance := by
  simp only [holders, List.mem_insertionSort, List.mem_map, List.mem_filter,
    decide_eq_true_eq]
  constructor
  · rintro ⟨⟨⟨c, a⟩, b⟩, ⟨hmem, rfl⟩, he⟩
    obtain ⟨rfl, rfl⟩ := Prod.mk.inj he
    exact Table.mem_rows_iff.mp hmem
  · intro h
    exact ⟨_, ⟨Table.mem_rows_iff.mpr h, rfl⟩, rfl⟩

/-- No account has two rows. -/
theorem holders_nodup (s : State) (code : SymbolCode) :
    ((holders s code).map Prod.fst).Nodup := by
  have hperm := (List.perm_insertionSort (fun a b : Name × Asset => a.1.value ≤ b.1.value)
    ((s.userinfo.rows.filter fun e => e.1.1 = code).map fun e => (e.1.2, e.2))).map Prod.fst
  have hkeys : ((s.userinfo.rows.filter fun e => e.1.1 = code).map Prod.fst).Nodup :=
    s.userinfo.nodup.sublist (List.filter_sublist.map _)
  have hinj : ∀ x ∈ (s.userinfo.rows.filter fun e => e.1.1 = code).map Prod.fst,
      ∀ y ∈ (s.userinfo.rows.filter fun e => e.1.1 = code).map Prod.fst,
        x.2 = y.2 → x = y := by
    intro x hx y hy heq
    obtain ⟨e, he, rfl⟩ := List.mem_map.mp hx
    obtain ⟨f, hf, rfl⟩ := List.mem_map.mp hy
    rw [List.mem_filter, decide_eq_true_eq] at he hf
    exact Prod.ext (he.2.trans hf.2.symm) heq
  have haccounts := List.Nodup.map_on hinj hkeys
  rw [List.map_map] at haccounts hperm
  exact hperm.nodup_iff.mpr haccounts

end Holders

section Removal

/-- The loop of `rmpool` over the holders of the LP token. -/
def eraseAccounts (code : SymbolCode) :
    List (Name × Asset) → Table (Name × SymbolCode) Asset →
      Result (Table (Name × SymbolCode) Asset)
  | [], accounts => return accounts
  | k :: rest, accounts => do
      let _ ← require (accounts.find? (k.1, code)) "1 not exists"
      eraseAccounts code rest (accounts.erase (k.1, code))

/-- `rmpool` -/
def rmpool (env : Env) (ctx : Ctx) (s : State) (user : Name) (lpSymbol : Symbol) :
    Result State := do
  check (env.isDexOpen = true) "DEX is not open"
  requireAuth ctx user
  let code := lpSymbol.code
  let token ← require (s.stats.find? code) "token symbol not exists"
  let _ ← require (s.poollists.find? code) "token symbol not exists"
  let _ ← require (s.lemindexes.find? code) "the pool is not indexed"
  let token0 := token.pool1.quantity.symbol.code
  let token1 := token.pool2.quantity.symbol.code
  let _ ← require (s.swaplists.find? (token0, token1)) "token symbol not exists"
  let _ ← require (s.swaplists.find? (token1, token0)) "token symbol not exists"
  let accounts ← eraseAccounts code (holders s code) s.accounts
  return { s with
    stats := s.stats.erase code
    poollists := s.poollists.erase code
    lemindexes := s.lemindexes.erase code
    swaplists := (s.swaplists.erase (token0, token1)).erase (token1, token0)
    accounts := accounts
    userinfo := s.userinfo.eraseWhere fun k _ => decide (k.1 = code) }

/-- `rmpool` removes the balances of the holders and leaves the others alone. -/
theorem eraseAccounts_eq_ok
    {code : SymbolCode} {l : List (Name × Asset)}
    {accounts accounts' : Table (Name × SymbolCode) Asset}
    (h : eraseAccounts code l accounts = .ok accounts') (k : Name × SymbolCode) :
    accounts'.find? k =
      if k.2 = code ∧ k.1 ∈ l.map Prod.fst then none else accounts.find? k := by
  induction l generalizing accounts with
  | nil =>
      simp only [eraseAccounts, pure_eq_ok_iff] at h
      simp [h]
  | cons e rest ih =>
      obtain ⟨owner, c⟩ := k
      simp only [eraseAccounts, bind_eq_ok_iff, require_eq_ok_iff] at h
      obtain ⟨_, -, h⟩ := h
      rw [ih h, Table.find?_erase]
      by_cases hc : c = code
      · subst hc
        by_cases ho : owner = e.1
        · simp [ho]
        · have hne : ¬ (e.1, c) = (owner, c) := fun he => ho (Prod.mk.inj he).1.symm
          have hmem : owner ∈ (e :: rest).map Prod.fst ↔ owner ∈ rest.map Prod.fst := by
            simp [ho]
          simp only [if_neg hne, hmem]
      · have hne : ¬ (e.1, code) = (owner, c) := fun he => hc (Prod.mk.inj he).2.symm
        simp only [hc, false_and, if_false, if_neg hne]

theorem sum_eraseAccounts
    {code : SymbolCode} {l : List (Name × Asset)}
    {accounts accounts' : Table (Name × SymbolCode) Asset}
    (h : eraseAccounts code l accounts = .ok accounts') {f : Name × SymbolCode → Asset → ℤ}
    (hf : ∀ owner b, f (owner, code) b = 0) : accounts'.sum f = accounts.sum f := by
  induction l generalizing accounts with
  | nil =>
      simp only [eraseAccounts, pure_eq_ok_iff] at h
      rw [h]
  | cons e rest ih =>
      simp only [eraseAccounts, bind_eq_ok_iff, require_eq_ok_iff] at h
      obtain ⟨b, hb, h⟩ := h
      rw [ih h, Table.sum_erase, Table.weight_of_find? hb, hf, sub_zero]

/-- The accounts left by `rmpool`. -/
theorem find?_eraseAccounts_holders
    {s : State} {code : SymbolCode} {accounts : Table (Name × SymbolCode) Asset}
    (h : eraseAccounts code (holders s code) s.accounts = .ok accounts)
    (k : Name × SymbolCode) :
    accounts.find? k =
      if k.2 = code ∧ s.userinfo.find? (code, k.1) ≠ none then none else s.accounts.find? k := by
  have hmem : k.1 ∈ (holders s code).map Prod.fst ↔ s.userinfo.find? (code, k.1) ≠ none := by
    rw [Option.ne_none_iff_exists', List.mem_map]
    constructor
    · rintro ⟨⟨account, info⟩, hinfo, rfl⟩
      exact ⟨info, mem_holders_iff.mp hinfo⟩
    · rintro ⟨info, hinfo⟩
      exact ⟨(k.1, info), mem_holders_iff.mpr hinfo, rfl⟩
  rw [eraseAccounts_eq_ok h k]
  simp only [hmem]

/-- The rows of `userinfo` left by `rmpool`. -/
theorem find?_eraseInfos (s : State) (code : SymbolCode) (k : SymbolCode × Name) :
    (s.userinfo.eraseWhere fun k _ => decide (k.1 = code)).find? k =
      if k.1 = code then none else s.userinfo.find? k := by
  rw [Table.find?_eraseWhere]
  cases s.userinfo.find? k with
  | none => simp
  | some info =>
      by_cases hcode : k.1 = code
      · simp [hcode]
      · simp [hcode]

theorem rmpool_eq_ok
    {env : Env} {ctx : Ctx} {s s' : State} {user : Name} {lpSymbol : Symbol}
    (h : rmpool env ctx s user lpSymbol = .ok s') :
    ∃ token poollists lemindexes swaplists accounts,
      user ∈ ctx.auths ∧
      s.stats.find? lpSymbol.code = some token ∧
      eraseAccounts lpSymbol.code (holders s lpSymbol.code) s.accounts = .ok accounts ∧
      s' = { s with
        stats := s.stats.erase lpSymbol.code
        poollists := poollists
        lemindexes := lemindexes
        swaplists := swaplists
        accounts := accounts
        userinfo := s.userinfo.eraseWhere fun k _ => decide (k.1 = lpSymbol.code) } := by
  simp only [rmpool, bind_eq_ok_iff, requireAuth_eq_ok_iff, check_eq_ok_iff,
    require_eq_ok_iff, pure_eq_ok_iff] at h
  obtain ⟨_, -, _, hauth, token, htoken, _, -, _, -, _, -, _, -, accounts, haccounts, rfl⟩ := h
  exact ⟨token, _, _, _, accounts, hauth, htoken, haccounts, rfl⟩

end Removal

section Rewards

variable [Doubles]

/-- `asset(amount * user_ratio, symbol)` -/
def rewardShare (amount : ℚ) (userRatio : Int) (symbol : Symbol) : Result Asset := do
  let amount ← toInt64 (rnd (amount * rnd userRatio))
  Asset.make amount symbol

/-- What `clmpoolreward` sends to one holder.  The ratio of the balance to the
supply is an integer quotient; a zero `total` makes the LEM reward infinite or no
number, which no integer can be made of. -/
def holderRewards (config : Config) (token : CurrencyStats) (total pool : ℚ)
    (account : Name) (balance : Asset) : Result (List Inline) := do
  if balance.amount = 0 then
    return []
  else
    demand (token.supply.amount ≠ 0) (.trap "integer divide by zero")
    let userRatio := balance.amount.toInt.tdiv token.supply.amount.toInt
    let fee1Reward ← rewardShare (rnd token.fee1.quantity.amount.toInt) userRatio
      token.fee1.quantity.symbol
    let fee2Reward ← rewardShare (rnd token.fee2.quantity.amount.toInt) userRatio
      token.fee2.quantity.symbol
    demand (total ≠ 0) (.trap "invalid conversion to integer")
    let lemReward := (dexLemReward / halvings config.halfLifeCount).toNat
    let fee3Reward ← rewardShare (rnd (lemReward * rnd (pool / total))) userRatio
      token.fee3.quantity.symbol
    let memo := "Pool rewards for providing liquidity"
    return sendPositive account fee1Reward memo ++ sendPositive account fee2Reward memo ++
      sendPositive account fee3Reward memo

/-- The loop of `clmpoolreward`. -/
def poolRewards (config : Config) (token : CurrencyStats) (total pool : ℚ) :
    List (Name × Asset) → Result (List Inline)
  | [] => return []
  | k :: rest => do
      let sent ← holderRewards config token total pool k.1 k.2
      let later ← poolRewards config token total pool rest
      return sent ++ later

/-- `clmpoolreward` -/
def clmpoolreward (env : Env) (ctx : Ctx) (s : State) (pairTokenSymbol : Text)
    (total pool : ℚ) : Result (State × List Inline) := do
  requireAuth ctx env.self
  let (s, issued) ← issueLem env ctx s
  let code ← SymbolCode.ofText pairTokenSymbol
  let config ← require s.config "contract not initialized"
  let token ← require (s.stats.find? code) "pair token does not exist"
  check ((s.poolrewards.find? code).all fun lastReward =>
      secondsPerDay - 3600 ≤ ctx.now - lastReward)
    "today reward already claimed"
  let sent ← poolRewards config token total pool (holders s code)
  let fee1 := { token.pool1 with quantity := { token.pool1.quantity with amount := 0 } }
  let fee2 := { token.pool2 with quantity := { token.pool2.quantity with amount := 0 } }
  return ({ s with
      stats := s.stats.put code { token with fee1 := fee1, fee2 := fee2 }
      poolrewards := s.poolrewards.put code ctx.now },
    issued ++ sent)

theorem clmpoolreward_eq_ok
    {env : Env} {ctx : Ctx} {s s' : State} {pairTokenSymbol : Text} {total pool : ℚ}
    {sent : List Inline}
    (h : clmpoolreward env ctx s pairTokenSymbol total pool = .ok (s', sent)) :
    ∃ config' code token fee1 fee2 poolrewards,
      env.self ∈ ctx.auths ∧
      s.stats.find? code = some token ∧
      fee1.extendedSymbol = token.pool1.extendedSymbol ∧
      fee2.extendedSymbol = token.pool2.extendedSymbol ∧
      (fee1.quantity.amount = 0 ∧ fee2.quantity.amount = 0) ∧
      s' = { s with
        config := config'
        stats := s.stats.put code { token with fee1 := fee1, fee2 := fee2 }
        poolrewards := poolrewards } := by
  simp only [clmpoolreward, bind_eq_ok_iff, requireAuth_eq_ok_iff, check_eq_ok_iff,
    require_eq_ok_iff, pure_eq_ok_iff, Prod.mk.injEq] at h
  obtain ⟨_, hauth, ⟨s₁, issued⟩, hissue, code, -, config, -, token, htoken, _, -, _, -, rfl,
    -⟩ := h
  obtain ⟨_, config', -, rfl, -, -⟩ := issueLem_frame hissue
  exact ⟨some config', code, token,
    { token.pool1 with quantity := { token.pool1.quantity with amount := 0 } },
    { token.pool2 with quantity := { token.pool2.quantity with amount := 0 } },
    s.poolrewards.put code ctx.now, hauth, htoken, rfl, rfl, ⟨rfl, rfl⟩, rfl⟩

theorem onlyTransfers_poolRewards
    {config : Config} {token : CurrencyStats} {total pool : ℚ} {accounts : List (Name × Asset)}
    {sent : List Inline}
    (h : poolRewards config token total pool accounts = .ok sent) : OnlyTransfers sent := by
  induction accounts generalizing sent with
  | nil =>
      obtain rfl := pure_eq_ok_iff.mp h
      exact onlyTransfers_nil
  | cons k rest ih =>
      simp only [poolRewards, bind_eq_ok_iff, pure_eq_ok_iff] at h
      obtain ⟨now, hnow, later, hlater, rfl⟩ := h
      refine OnlyTransfers.append ?_ (ih hlater)
      unfold holderRewards at hnow
      split_ifs at hnow
      · obtain rfl := pure_eq_ok_iff.mp hnow
        exact onlyTransfers_nil
      · simp only [bind_eq_ok_iff, pure_eq_ok_iff] at hnow
        obtain ⟨_, -, _, -, _, -, _, -, _, -, rfl⟩ := hnow
        exact ((onlyTransfers_sendPositive _ _ _).append (onlyTransfers_sendPositive _ _ _)).append
          (onlyTransfers_sendPositive _ _ _)

/-- The call of `issue_lem` in `clmpoolreward` -/
theorem issueLem_of_clmpoolreward
    {env : Env} {ctx : Ctx} {s s' : State} {pairTokenSymbol : Text} {total pool : ℚ}
    {sent : List Inline}
    (h : clmpoolreward env ctx s pairTokenSymbol total pool = .ok (s', sent)) :
    ∃ t issued rewards, issueLem env ctx s = .ok (t, issued) ∧ s'.config = t.config ∧
      OnlyTransfers rewards ∧ sent = issued ++ rewards := by
  simp only [clmpoolreward, bind_eq_ok_iff, requireAuth_eq_ok_iff, check_eq_ok_iff,
    require_eq_ok_iff, pure_eq_ok_iff, Prod.mk.injEq] at h
  obtain ⟨_, -, ⟨t, issued⟩, hissue, _, -, _, -, _, -, _, -, rewards, hrewards, rfl, rfl⟩ := h
  exact ⟨t, issued, rewards, hissue, rfl, onlyTransfers_poolRewards hrewards, rfl⟩

end Rewards

end Lemonade
