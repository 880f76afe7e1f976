import Lemonade.Safety.PoolUpdates
import Mathlib.Tactic

/-!
# The LP ledger

The balance of an LP token is stored in `accounts` and in `userinfo`, its supply in
`stats`.  `LpLedger` says that the three agree, that all pools are in order and that
the deposits are.  Every change of balances is a credit or a debit of one owner in
both tables (`Credited`), an empty row that comes or goes, or the removal of a pool.
-/

namespace Lemonade

open Kernel

section Balances

/-- Balance of an owner in `accounts`, zero if there is no row. -/
def lpBalance (s : State) (code : SymbolCode) (owner : Name) : ℤ :=
  s.accounts.weight (fun _ balance => balance.amount.toInt) (owner, code)

/-- Balance of an owner in `userinfo`, zero if there is no row. -/
def lpInfo (s : State) (code : SymbolCode) (owner : Name) : ℤ :=
  s.userinfo.weight (fun _ balance => balance.amount.toInt) (code, owner)

/-- What a row of `accounts` adds to the total of a token. -/
def lpAmount (code : SymbolCode) (key : Name × SymbolCode) (balance : Asset) : ℤ :=
  if key.2 = code then balance.amount.toInt else 0

/-- Sum of the balances of all owners. -/
def lpTotal (s : State) (code : SymbolCode) : ℤ := s.accounts.sum (lpAmount code)

/-- Supply of a token, zero if there is no pool. -/
def lpSupply (s : State) (code : SymbolCode) : ℤ :=
  s.stats.weight (fun _ token => token.supply.amount.toInt) code

/-- The two tables of balances agree. -/
structure SharesOk (s : State) : Prop where
  account : ∀ key balance, s.accounts.find? key = some balance → Holdable balance.amount
  info : ∀ key balance, s.userinfo.find? key = some balance → Holdable balance.amount
  agree : ∀ code owner, lpBalance s code owner = lpInfo s code owner

structure LpLedger (s : State) : Prop where
  shares : SharesOk s
  total : ∀ code, lpTotal s code = lpSupply s code
  pools : ∀ code token, s.stats.find? code = some token → PoolOk token
  deposits : DepositsOk s.dexacnts

variable {s s' : State}

theorem SharesOk.lpBalance_nonneg
    (ok : SharesOk s) (code : SymbolCode) (owner : Name) : 0 ≤ lpBalance s code owner := by
  unfold lpBalance Table.weight
  cases hrow : s.accounts.find? (owner, code) with
  | none => exact le_refl _
  | some balance => exact (ok.account _ balance hrow).nonneg

/-- An owner holds at most the total. -/
theorem SharesOk.lpBalance_le_total
    (ok : SharesOk s) (code : SymbolCode) (owner : Name) :
    lpBalance s code owner ≤ lpTotal s code := by
  have hle : s.accounts.weight (lpAmount code) (owner, code) ≤ lpTotal s code := by
    refine Table.weight_le_sum ?_ (owner, code)
    intro key balance hrow
    unfold lpAmount
    split_ifs
    · exact (ok.account key balance hrow).nonneg
    · exact le_refl _
  have heq : s.accounts.weight (lpAmount code) (owner, code) = lpBalance s code owner := by
    unfold lpBalance Table.weight
    cases s.accounts.find? (owner, code) with
    | none => rfl
    | some balance => simp [lpAmount]
  rw [← heq]
  exact hle

/-- Without a pool, nobody holds a share. -/
theorem LpLedger.lpBalance_eq_zero
    (inv : LpLedger s) {code : SymbolCode} (hnone : s.stats.find? code = none) (owner : Name) :
    lpBalance s code owner = 0 := by
  have hnonneg := inv.shares.lpBalance_nonneg code owner
  have hle := inv.shares.lpBalance_le_total code owner
  rw [inv.total, lpSupply, Table.weight_of_find?_none hnone] at hle
  omega

end Balances

section Credits

variable {s s' : State} {owner : Name} {code : SymbolCode} {n : ℤ}

/-- The balance of `owner` has moved by `n` in both tables. -/
structure Credited (s s' : State) (owner : Name) (code : SymbolCode) (n : ℤ) : Prop where
  account : ∃ balance, s'.accounts = s.accounts.put (owner, code) balance ∧
    Holdable balance.amount ∧ balance.amount.toInt = lpBalance s code owner + n
  info : ∃ balance, s'.userinfo = s.userinfo.put (code, owner) balance ∧
    Holdable balance.amount ∧ balance.amount.toInt = lpInfo s code owner + n
  stats : s'.stats = s.stats
  dexacnts : s'.dexacnts = s.dexacnts

theorem Credited.lpBalance
    (h : Credited s s' owner code n) (code' : SymbolCode) (owner' : Name) :
    lpBalance s' code' owner' =
      lpBalance s code' owner' + if code = code' ∧ owner = owner' then n else 0 := by
  obtain ⟨balance, haccounts, -, hamount⟩ := h.account
  unfold Lemonade.lpBalance at *
  rw [haccounts, Table.weight_put]
  by_cases hkey : code = code' ∧ owner = owner'
  · obtain ⟨rfl, rfl⟩ := hkey
    simp [hamount]
  · have hne : ¬ (owner, code) = (owner', code') := by
      rw [Prod.mk.injEq]
      exact fun he => hkey ⟨he.2, he.1⟩
    simp [hkey, hne]

theorem Credited.lpInfo
    (h : Credited s s' owner code n) (code' : SymbolCode) (owner' : Name) :
    lpInfo s' code' owner' =
      lpInfo s code' owner' + if code = code' ∧ owner = owner' then n else 0 := by
  obtain ⟨balance, huserinfo, -, hamount⟩ := h.info
  unfold Lemonade.lpInfo at *
  rw [huserinfo, Table.weight_put]
  by_cases hkey : code = code' ∧ owner = owner'
  · obtain ⟨rfl, rfl⟩ := hkey
    simp [hamount]
  · have hne : ¬ (code, owner) = (code', owner') := by
      rw [Prod.mk.injEq]
      exact hkey
    simp [hkey, hne]

theorem Credited.lpTotal
    (h : Credited s s' owner code n) (code' : SymbolCode) :
    lpTotal s' code' = lpTotal s code' + if code = code' then n else 0 := by
  obtain ⟨balance, haccounts, -, hamount⟩ := h.account
  unfold Lemonade.lpTotal
  rw [haccounts, Table.sum_put]
  by_cases hcode : code = code'
  · subst hcode
    have hweight : s.accounts.weight (lpAmount code) (owner, code) =
        Lemonade.lpBalance s code owner := by
      unfold Lemonade.lpBalance Table.weight
      cases s.accounts.find? (owner, code) with
      | none => rfl
      | some balance => simp [lpAmount]
    rw [hweight]
    simp only [lpAmount, if_true, hamount]
    omega
  · have hweight : s.accounts.weight (lpAmount code') (owner, code) = 0 := by
      unfold Table.weight
      cases s.accounts.find? (owner, code) with
      | none => rfl
      | some balance => simp [lpAmount, hcode]
    rw [hweight]
    simp [lpAmount, hcode]

theorem Credited.sharesOk
    (h : Credited s s' owner code n) (ok : SharesOk s) : SharesOk s' where
  account := by
    obtain ⟨balance, haccounts, hhold, -⟩ := h.account
    intro key b hb
    rw [haccounts, Table.find?_put] at hb
    split_ifs at hb
    · obtain rfl := Option.some.inj hb
      exact hhold
    · exact ok.account key b hb
  info := by
    obtain ⟨balance, huserinfo, hhold, -⟩ := h.info
    intro key b hb
    rw [huserinfo, Table.find?_put] at hb
    split_ifs at hb
    · obtain rfl := Option.some.inj hb
      exact hhold
    · exact ok.info key b hb
  agree := by
    intro code' owner'
    rw [h.lpBalance, h.lpInfo, ok.agree]

theorem creditRow_eq_ok
    {row : Option Asset} {value balance : Asset}
    (hrow : ∀ b, row = some b → Holdable b.amount) (hvalue : Holdable value.amount)
    (h : creditRow row value = .ok balance) :
    Holdable balance.amount ∧
      balance.amount.toInt = row.elim 0 (fun b => b.amount.toInt) + value.amount.toInt := by
  cases row with
  | none =>
      obtain rfl := pure_eq_ok_iff.mp h
      exact ⟨hvalue, (zero_add _).symm⟩
  | some b =>
      have hb := hrow b rfl
      obtain ⟨-, hrange, rfl⟩ := Asset.add_eq_ok_iff.mp h
      have hsum := toInt_add_of_inRange hb.inRange hrange
      refine ⟨⟨?_, hrange⟩, hsum⟩
      have h1 := hb.nonneg
      have h2 := hvalue.nonneg
      simp only [hsum]
      omega

theorem addBalance_credited
    {value : Asset} (h : addBalance s owner value = .ok s') (ok : SharesOk s)
    (hvalue : Holdable value.amount) :
    Credited s s' owner value.symbol.code value.amount.toInt := by
  obtain ⟨balance, info, hbalance, hinfo, rfl⟩ := addBalance_eq_ok h
  have h1 := creditRow_eq_ok (fun b hb => ok.account _ b hb) hvalue hbalance
  have h2 := creditRow_eq_ok (fun b hb => ok.info _ b hb) hvalue hinfo
  exact ⟨⟨balance, rfl, h1⟩, ⟨info, rfl, h2⟩, rfl, rfl⟩

theorem debitRow_eq_ok
    {row value balance : Asset} (hvalue : AmountInRange value.amount)
    (hle : value.amount ≤ row.amount) (h : row.sub value = .ok balance) :
    Holdable balance.amount ∧
      balance.amount.toInt = row.amount.toInt + -value.amount.toInt := by
  obtain ⟨-, hrange, rfl⟩ := Asset.sub_eq_ok_iff.mp h
  have hdiff := toInt_sub_of_inRange_right hvalue hrange
  have hle' := Int64.le_iff_toInt_le.mp hle
  exact ⟨⟨by simp only [hdiff]; omega, hrange⟩, hdiff⟩

theorem subBalance_credited
    {value : Asset} (h : subBalance s owner value = .ok s')
    (hvalue : AmountInRange value.amount) :
    Credited s s' owner value.symbol.code (-value.amount.toInt) := by
  obtain ⟨row, info, row', info', hrow, hinfo, hle, hle', hsub, hsub', rfl⟩ := subBalance_eq_ok h
  have h1 := debitRow_eq_ok hvalue hle hsub
  have h2 := debitRow_eq_ok hvalue hle' hsub'
  refine ⟨⟨row', rfl, h1.1, ?_⟩, ⟨info', rfl, h2.1, ?_⟩, rfl, rfl⟩
  · rw [lpBalance, Table.weight_of_find? hrow]
    exact h1.2
  · rw [lpInfo, Table.weight_of_find? hinfo]
    exact h2.2

/-- Shares that are bought or sold. -/
theorem moveShares_credited
    {toAdd : Asset} (ok : SharesOk s) (hrange : AmountInRange toAdd.amount)
    (h : moveShares s owner toAdd = .ok s') :
    Credited s s' owner toAdd.symbol.code toAdd.amount.toInt := by
  unfold moveShares at h
  split_ifs at h with hpos
  · have hpos' : 0 < toAdd.amount.toInt := Int64.lt_iff_toInt_lt.mp hpos
    exact addBalance_credited h ok ⟨hpos'.le, hrange⟩
  · have hneg : (-toAdd.amount).toInt = -toAdd.amount.toInt := toInt_neg_of_inRange hrange
    have hcredit := subBalance_credited h (amountInRange_neg hrange)
    simpa [hneg] using hcredit

end Credits

section Steps

variable {s s' : State} {user : Name}

theorem SharesOk.of_same
    (ok : SharesOk s) (haccounts : s'.accounts = s.accounts)
    (huserinfo : s'.userinfo = s.userinfo) : SharesOk s' where
  account := by
    rw [haccounts]
    exact ok.account
  info := by
    rw [huserinfo]
    exact ok.info
  agree := by
    intro code owner
    unfold lpBalance lpInfo
    rw [haccounts, huserinfo]
    exact ok.agree code owner

/-- Steps that keep balances, and pools up to what a swap or a reward changes. -/
theorem LpLedger.of_stats
    (inv : LpLedger s) (haccounts : s'.accounts = s.accounts)
    (huserinfo : s'.userinfo = s.userinfo) (hdeposits : DepositsOk s'.dexacnts)
    (hsupply : ∀ code, lpSupply s' code = lpSupply s code)
    (hpools : ∀ code token, s'.stats.find? code = some token → PoolOk token) :
    LpLedger s' where
  shares := inv.shares.of_same haccounts huserinfo
  total := by
    intro code
    rw [hsupply, ← inv.total, lpTotal, lpTotal, haccounts]
  pools := hpools
  deposits := hdeposits

theorem LpLedger.of_keepsShares
    (inv : LpLedger s) (h : KeepsShares s s') (hdeposits : DepositsOk s'.dexacnts) :
    LpLedger s' := by
  refine inv.of_stats h.accounts h.userinfo hdeposits ?_ ?_
  · intro code
    rw [lpSupply, lpSupply, h.stats]
  · rw [h.stats]
    exact inv.pools

theorem LpLedger.deposit
    {toAdd : ExtendedAsset} (inv : LpLedger s)
    (h : addSignedExtBalance s user toAdd = .ok s') : LpLedger s' :=
  inv.of_keepsShares (addSignedExtBalance_keepsShares h) (inv.deposits.add h)

/-- An empty row of `accounts` comes or goes. -/
theorem LpLedger.of_emptyRow
    {accounts : Table (Name × SymbolCode) Asset} (inv : LpLedger s)
    (hhold : ∀ key balance, accounts.find? key = some balance → Holdable balance.amount)
    (hbalance : ∀ key, accounts.weight (fun _ b => b.amount.toInt) key =
      s.accounts.weight (fun _ b => b.amount.toInt) key)
    (htotal : ∀ code, accounts.sum (lpAmount code) = s.accounts.sum (lpAmount code)) :
    LpLedger { s with accounts := accounts } where
  shares := by
    refine ⟨hhold, inv.shares.info, ?_⟩
    intro code owner
    rw [lpBalance, hbalance]
    exact inv.shares.agree code owner
  total := by
    intro code
    rw [lpTotal, htotal]
    exact inv.total code
  pools := inv.pools
  deposits := inv.deposits

/-- A new row starts with nothing. -/
theorem weight_openRow
    {key : Name × SymbolCode} (symbol : Symbol) (hnone : s.accounts.find? key = none)
    (k : Name × SymbolCode) :
    (s.accounts.put key ⟨0, symbol⟩).weight (fun _ b => b.amount.toInt) k =
      s.accounts.weight (fun _ b => b.amount.toInt) k := by
  rw [Table.weight_put]
  split_ifs with hk
  · subst hk
    rw [Table.weight_of_find?_none hnone]
    rfl
  · rfl

/-- A row that is closed has nothing left. -/
theorem weight_closeRow
    {key : Name × SymbolCode} {balance : Asset} (hrow : s.accounts.find? key = some balance)
    (hzero : balance.amount = 0) (k : Name × SymbolCode) :
    (s.accounts.erase key).weight (fun _ b => b.amount.toInt) k =
      s.accounts.weight (fun _ b => b.amount.toInt) k := by
  rw [Table.weight_erase]
  split_ifs with hk
  · subst hk
    rw [Table.weight_of_find? hrow, hzero]
    rfl
  · rfl

theorem LpLedger.openRow
    {key : Name × SymbolCode} {symbol : Symbol} (inv : LpLedger s)
    (hnone : s.accounts.find? key = none) :
    LpLedger { s with accounts := s.accounts.put key ⟨0, symbol⟩ } := by
  refine inv.of_emptyRow ?_ (weight_openRow symbol hnone) ?_
  · intro k b hb
    rw [Table.find?_put] at hb
    split_ifs at hb
    · obtain rfl := Option.some.inj hb
      exact holdable_zero
    · exact inv.shares.account k b hb
  · intro code
    rw [Table.sum_put, Table.weight_of_find?_none hnone, lpAmount]
    simp

theorem LpLedger.closeRow
    {key : Name × SymbolCode} {balance : Asset} (inv : LpLedger s)
    (hrow : s.accounts.find? key = some balance) (hzero : balance.amount = 0) :
    LpLedger { s with accounts := s.accounts.erase key } := by
  refine inv.of_emptyRow ?_ (weight_closeRow hrow hzero) ?_
  · intro k b hb
    rw [Table.find?_erase] at hb
    split_ifs at hb
    exact inv.shares.account k b hb
  · intro code
    rw [Table.sum_erase, Table.weight_of_find? hrow, lpAmount, hzero]
    simp

/-- A transfer takes tokens from the row of one owner and gives them to another. -/
theorem transfer_credited
    {ctx : Ctx} {source dest : Name} {quantity : Asset} {memo : Text} (ok : SharesOk s)
    (h : transfer ctx s source dest quantity memo = .ok s') :
    source ∈ ctx.auths ∧ 0 < quantity.amount.toInt ∧
      ∃ s₁, Credited s s₁ source quantity.symbol.code (-quantity.amount.toInt) ∧ SharesOk s₁ ∧
        Credited s₁ s' dest quantity.symbol.code quantity.amount.toInt := by
  obtain ⟨_, s₁, -, hauth, -, hvalid, hpos, hsub, hadd⟩ := transfer_eq_ok h
  have hpos' : 0 < quantity.amount.toInt := Int64.lt_iff_toInt_lt.mp hpos
  have h1 := subBalance_credited hsub hvalid.1
  have ok1 := h1.sharesOk ok
  exact ⟨hauth, hpos', s₁, h1, ok1, addBalance_credited hadd ok1 ⟨hpos'.le, hvalid.1⟩⟩

/-- Tokens move from one owner to another. -/
theorem LpLedger.transfer
    {ctx : Ctx} {source dest : Name} {quantity : Asset} {memo : Text} (inv : LpLedger s)
    (h : transfer ctx s source dest quantity memo = .ok s') : LpLedger s' := by
  obtain ⟨-, -, s₁, h1, ok1, h2⟩ := transfer_credited inv.shares h
  have hstats : s'.stats = s.stats := h2.stats.trans h1.stats
  refine ⟨h2.sharesOk ok1, ?_, ?_, ?_⟩
  · intro code
    rw [h2.lpTotal, h1.lpTotal, inv.total, lpSupply, lpSupply, hstats]
    split_ifs <;> omega
  · rw [hstats]
    exact inv.pools
  · rw [h2.dexacnts, h1.dexacnts]
    exact inv.deposits

theorem stats_put_pools
    {t : Table SymbolCode CurrencyStats} {code : SymbolCode} {token : CurrencyStats}
    (hpools : ∀ c token, t.find? c = some token → PoolOk token) (hok : PoolOk token) :
    ∀ c token', (t.put code token).find? c = some token' → PoolOk token' := by
  intro c token' htoken
  rw [Table.find?_put] at htoken
  split_ifs at htoken
  · obtain rfl := Option.some.inj htoken
    exact hok
  · exact hpools c token' htoken

/-- The effect of buying or selling shares: two payments, the shares, the pool. -/
theorem LpLedger.addSignedLiq
    {toAdd maxAsset1 maxAsset2 : Asset} (inv : LpLedger s)
    (h : addSignedLiq s user toAdd maxAsset1 maxAsset2 = .ok s') :
    ∃ token token' pay s₁ s₂ s₃,
      s.stats.find? toAdd.symbol.code = some token ∧
      LiquidityUpdate token token' toAdd.amount.toInt pay ∧
      addSignedExtBalance s user (pay true).neg = .ok s₁ ∧
      addSignedExtBalance s₁ user (pay false).neg = .ok s₂ ∧
      Credited s₂ s₃ user toAdd.symbol.code toAdd.amount.toInt ∧
      s' = { s₃ with stats := s₃.stats.put toAdd.symbol.code token' } ∧
      LpLedger s' ∧
      (pay true).quantity.amount ≤ maxAsset1.amount ∧
      (pay false).quantity.amount ≤ maxAsset2.amount := by
  obtain ⟨token, toPay1, toPay2, s₁, s₂, s₃, supply, pool1, pool2, hvalid, htoken, hpay1, hpay2,
    h1, h2, h3, hsupply, hpool1, hpool2, hne, hstate⟩ := addSignedLiq_eq_ok h
  have inv1 := inv.deposit h1
  have inv2 := inv1.deposit h2
  have hcredit := moveShares_credited inv2.shares hvalid.1 h3
  have hstats : s₃.stats = s.stats :=
    hcredit.stats.trans ((addSignedExtBalance_keepsShares h2).stats.trans
      (addSignedExtBalance_keepsShares h1).stats)
  have ok3 := hcredit.sharesOk inv2.shares
  have htotal : lpTotal s₃ toAdd.symbol.code =
      token.supply.amount.toInt + toAdd.amount.toInt := by
    rw [hcredit.lpTotal, if_pos rfl, inv2.total, lpSupply,
      (addSignedExtBalance_keepsShares h2).stats, (addSignedExtBalance_keepsShares h1).stats,
      Table.weight_of_find? htoken]
  have hnonneg : 0 ≤ token.supply.amount.toInt + toAdd.amount.toInt := by
    rw [← htotal]
    exact (ok3.lpBalance_nonneg _ user).trans (ok3.lpBalance_le_total _ user)
  have hupdate := (inv.pools _ token htoken).liquidity hpay1 hpay2 hsupply hpool1 hpool2 hne
    hnonneg
  refine ⟨token, _, _, s₁, s₂, s₃, htoken, hupdate, h1, h2, hcredit, hstate, ?_,
    addSignedLiq_bounds h htoken hpay1 hpay2⟩
  rw [hstate]
  refine ⟨ok3.of_same rfl rfl, ?_, ?_, ?_⟩
  · intro code
    rw [lpSupply, Table.weight_put]
    split_ifs with hcode
    · subst hcode
      exact htotal.trans hupdate.supply.symm
    · have hother := inv2.total code
      have hcredit' := hcredit.lpTotal code
      rw [if_neg hcode, add_zero] at hcredit'
      rw [hcredit.stats]
      exact hcredit'.trans hother
  · refine stats_put_pools ?_ hupdate.ok
    rw [hstats]
    exact inv.pools
  · have hdeposits := inv2.deposits
    rw [← hcredit.dexacnts] at hdeposits
    exact hdeposits

/-- The row of one pool is replaced by one with the same supply. -/
theorem LpLedger.put_pool
    {code : SymbolCode} {token token' : CurrencyStats} (inv : LpLedger s)
    (htoken : s.stats.find? code = some token) (hok : PoolOk token')
    (hsupply : token'.supply = token.supply) (haccounts : s'.accounts = s.accounts)
    (huserinfo : s'.userinfo = s.userinfo) (hdexacnts : s'.dexacnts = s.dexacnts)
    (hstats : s'.stats = s.stats.put code token') : LpLedger s' := by
  refine inv.of_stats haccounts huserinfo ?_ ?_ ?_
  · rw [hdexacnts]
    exact inv.deposits
  · intro c
    rw [lpSupply, lpSupply, hstats, Table.weight_put]
    split_ifs with hc
    · subst hc
      rw [Table.weight_of_find? htoken, hsupply]
    · rfl
  · rw [hstats]
    exact stats_put_pools inv.pools hok

theorem LpLedger.swap [Doubles]
    {pairToken : SymbolCode} {input net out : ExtendedAsset} {minExpected : Asset}
    (inv : LpLedger s) (h : Swapped s pairToken input minExpected net out s') :
    LpLedger s' := by
  obtain ⟨token, token', first, htoken, hupdate, -, rfl⟩ := h.update inv.pools
  exact inv.put_pool htoken hupdate.ok hupdate.supply rfl rfl rfl rfl

theorem LpLedger.exchange [Doubles]
    {env : Env} {ctx : Ctx} {pairToken : SymbolCode} {extAssetIn : ExtendedAsset}
    {minExpected : Asset} (inv : LpLedger s)
    (h : exchange env ctx s user pairToken extAssetIn minExpected = .ok s') : LpLedger s' := by
  obtain ⟨_, _, _, _, -, -, hswap, hpay, hget⟩ := exchange_eq_ok h
  exact ((inv.swap hswap).deposit hpay).deposit hget

theorem LpLedger.inittoken
    {env : Env} {ctx : Ctx} {newSymbol : Symbol} {initialPool1 initialPool2 : ExtendedAsset}
    (inv : LpLedger s)
    (h : inittoken env ctx s user newSymbol initialPool1 initialPool2 = .ok s') :
    LpLedger s' := by
  obtain ⟨newToken, s₁, _, _, _, s₂, s₃, -, hpos1, hpos2, hmax1, hmax2, hsymbol, hrange, hone,
    hcodes, hfee, hfresh, hshares, h1, h2⟩ := inittoken_eq_ok h
  have inv1 := inv.of_keepsShares (payPoolFee_keepsShares hfee) (inv.deposits.payPoolFee hfee)
  have hhold : Holdable newToken.amount := ⟨by omega, hrange⟩
  have hcredit := addBalance_credited hshares (inv1.shares.of_same rfl rfl) hhold
  have hpool : PoolOk (newPool user newSymbol newToken initialPool1 initialPool2) :=
    .new hone hrange hpos1 hpos2 hmax1 hmax2 hcodes
  have inv2 : LpLedger s₂ := by
    refine ⟨hcredit.sharesOk (inv1.shares.of_same rfl rfl), ?_, ?_, ?_⟩
    · intro code
      have htotal : s₁.accounts.sum (lpAmount code) = lpSupply s₁ code := inv1.total code
      rw [hcredit.lpTotal, lpTotal, htotal, hsymbol, lpSupply, lpSupply, hcredit.stats,
        Table.weight_put]
      split_ifs with hcode
      · subst hcode
        rw [Table.weight_of_find?_none hfresh, zero_add]
        rfl
      · rw [add_zero]
    · rw [hcredit.stats]
      exact stats_put_pools inv1.pools hpool
    · rw [hcredit.dexacnts]
      exact inv1.deposits
  exact (inv2.deposit h1).deposit h2

/-- The rows of a token are removed from both tables. -/
theorem SharesOk.eraseHolders
    {code : SymbolCode} {accounts : Table (Name × SymbolCode) Asset} (ok : SharesOk s)
    (haccounts : eraseAccounts code (holders s code) s.accounts = .ok accounts) :
    SharesOk { s with
      accounts := accounts
      userinfo := s.userinfo.eraseWhere fun k _ => decide (k.1 = code) } := by
  have hfind := find?_eraseAccounts_holders haccounts
  refine ⟨?_, ?_, ?_⟩
  · intro key b hb
    rw [hfind] at hb
    split_ifs at hb
    exact ok.account key b hb
  · rintro ⟨c, owner⟩ b hb
    rw [find?_eraseInfos] at hb
    split_ifs at hb
    exact ok.info _ b hb
  · intro c owner
    have hagree := ok.agree c owner
    unfold lpBalance lpInfo Table.weight at *
    simp only [hfind, find?_eraseInfos]
    by_cases hcode : c = code
    · subst hcode
      cases hrow : s.userinfo.find? (c, owner) with
      | none => simpa [hrow] using hagree
      | some b => simp
    · simpa [hcode] using hagree

/-- A token without rows in `userinfo` has no balances. -/
theorem SharesOk.lpTotal_eq_zero
    {code : SymbolCode} (ok : SharesOk s)
    (hnone : ∀ owner, s.userinfo.find? (code, owner) = none) : lpTotal s code = 0 := by
  refine Table.sum_eq_zero ?_
  rintro ⟨owner, c⟩ b hb
  unfold lpAmount
  split_ifs with hc
  · simp only at hc
    subst hc
    have hagree := ok.agree c owner
    rw [lpBalance, lpInfo, Table.weight_of_find? hb] at hagree
    rw [hagree]
    exact Table.weight_of_find?_none (hnone owner)
  · rfl

theorem LpLedger.rmpool
    {env : Env} {ctx : Ctx} {lpSymbol : Symbol} (inv : LpLedger s)
    (h : rmpool env ctx s user lpSymbol = .ok s') : LpLedger s' := by
  obtain ⟨token, _, _, _, accounts, -, htoken, haccounts, rfl⟩ := rmpool_eq_ok h
  have hshares := inv.shares.eraseHolders haccounts
  refine ⟨hshares.of_same rfl rfl, ?_, ?_, inv.deposits⟩
  · intro code
    by_cases hcode : code = lpSymbol.code
    · subst hcode
      rw [lpSupply, Table.weight_of_find?_none (Table.find?_erase_self _ _)]
      refine hshares.lpTotal_eq_zero ?_
      intro owner
      exact (find?_eraseInfos s lpSymbol.code _).trans (if_pos rfl)
    · have hsum : accounts.sum (lpAmount code) = s.accounts.sum (lpAmount code) := by
        refine sum_eraseAccounts haccounts ?_
        intro owner b
        exact if_neg fun he => hcode he.symm
      have hne : lpSymbol.code ≠ code := fun he => hcode he.symm
      have htotal := inv.total code
      rw [lpTotal, hsum, lpSupply, Table.weight_erase, if_neg hne]
      exact htotal
  · intro code token' htoken'
    rw [Table.find?_erase] at htoken'
    split_ifs at htoken'
    exact inv.pools code token' htoken'

theorem LpLedger.clmpoolreward [Doubles]
    {env : Env} {ctx : Ctx} {pairTokenSymbol : Text} {total pool : ℚ} {sent : List Inline}
    (inv : LpLedger s)
    (h : clmpoolreward env ctx s pairTokenSymbol total pool = .ok (s', sent)) :
    LpLedger s' := by
  obtain ⟨_, code, token, fee1, fee2, _, -, htoken, hfee1, hfee2, -, rfl⟩ :=
    clmpoolreward_eq_ok h
  have hok := (inv.pools code token htoken).of_fees hfee1 hfee2
  exact inv.put_pool htoken hok rfl rfl rfl rfl rfl

theorem LpLedger.move [Doubles]
    {env : Env} {ctx : Ctx} {a : Action} {sent : List Inline} (inv : LpLedger s)
    (h : DexMove env ctx s a s' sent) : LpLedger s' := by
  cases h with
  | transfer h => exact inv.transfer h
  | tokenOpen h =>
      rcases tokenOpen_eq_ok h with rfl | ⟨hnone, rfl⟩
      · exact inv
      · exact inv.openRow hnone
  | tokenClose h =>
      obtain ⟨_, -, hrow, hzero, rfl⟩ := tokenClose_eq_ok h
      exact inv.closeRow hrow hzero
  | openext h =>
      rcases openext_eq_ok h with rfl | ⟨id, hnone, -, rfl⟩
      · exact inv
      · exact inv.of_keepsShares ⟨rfl, rfl, rfl⟩ (inv.deposits.insert holdable_zero hnone)
  | closeext h =>
      obtain ⟨key, _, -, -, rfl, -⟩ := closeext_eq_ok h
      exact inv.of_keepsShares ⟨rfl, rfl, rfl⟩ (inv.deposits.erase key)
  | withdraw h =>
      obtain ⟨-, -, hadd, -⟩ := withdraw_eq_ok h
      exact inv.deposit hadd
  | addliquidity h =>
      obtain ⟨_, _, _, _, _, _, -, -, -, -, -, -, inv', -⟩ :=
        inv.addSignedLiq (addliquidity_eq_ok h).2.2
      exact inv'
  | rmliquidity h =>
      obtain ⟨_, _, _, _, _, _, -, -, -, -, -, -, inv', -⟩ :=
        inv.addSignedLiq (rmliquidity_eq_ok h).2.2
      exact inv'
  | exchange h => exact inv.exchange h
  | exchangeall h =>
      obtain ⟨_, _, _, -, -, hall⟩ := exchangeall_eq_ok h
      exact inv.exchange hall
  | inittoken h => exact inv.inittoken h
  | rmpool h => exact inv.rmpool h
  | clmpoolreward h => exact inv.clmpoolreward h
  | deposit _ _ h => exact inv.deposit h
  | memoexchange _ _ _ h =>
      obtain ⟨_, _, _, -, hswap, -⟩ := memoexchange_eq_ok h
      exact inv.swap hswap

end Steps

section Runs

variable {env : Env} {w : World}

theorem LpLedger.exec [Doubles]
    {ctx : Ctx} {s s' : State} {a : Action} {sent : List Inline} (inv : LpLedger s)
    (h : exec env ctx s a = .ok (s', sent)) : LpLedger s' := by
  have hkeep : KeepsDex s s' → LpLedger s' := by
    rintro ⟨haccounts, huserinfo, hstats, hdexacnts⟩
    refine inv.of_keepsShares ⟨haccounts, huserinfo, hstats⟩ ?_
    rw [hdexacnts]
    exact inv.deposits
  cases exec_area h with
  | stakes _ dex => exact hkeep dex
  | games _ dex => exact hkeep dex
  | dex move => exact inv.move move
  | idle _ dex => exact hkeep dex

theorem LpLedger.empty : LpLedger State.empty where
  shares := ⟨fun _ _ h => (by cases h), fun _ _ h => (by cases h), fun _ _ => rfl⟩
  total := fun _ => rfl
  pools := fun _ _ h => by cases h
  deposits := ⟨fun _ _ h => (by cases h), fun _ _ _ _ _ h => by cases h⟩

theorem lpLedger_of_reaches [Doubles]
    (h : Reaches env w) : LpLedger w.state := by
  refine h.invariant (fun w => LpLedger w.state) ?_ ?_
  · intro w hw
    rw [hw]
    exact LpLedger.empty
  · rintro w e w' inv ⟨-, hexec, -⟩
    exact inv.exec hexec

/-- The two tables of balances agree with each other and with the supply, pools are
never empty, and deposits are nonnegative and unique. -/
theorem lp_ledger_agrees [Doubles]
    (h : Reaches env w) :
    (∀ code owner, lpBalance w.state code owner = lpInfo w.state code owner ∧
      0 ≤ lpBalance w.state code owner) ∧
    (∀ code token, w.state.stats.find? code = some token →
      lpTotal w.state code = token.supply.amount.toInt ∧
      0 < token.supply.amount ∧ 0 < token.pool1.quantity.amount ∧
      0 < token.pool2.quantity.amount) ∧
    (∀ code, w.state.stats.find? code = none → ∀ owner, lpBalance w.state code owner = 0) ∧
    (∀ key balance, w.state.dexacnts.find? key = some balance →
      0 ≤ balance.quantity.amount) ∧
    ∀ user i j balance balance', w.state.dexacnts.find? (user, i) = some balance →
      w.state.dexacnts.find? (user, j) = some balance' →
      balance.extendedSymbol = balance'.extendedSymbol → i = j := by
  have inv := lpLedger_of_reaches h
  refine ⟨?_, ?_, ?_, ?_, inv.deposits.unique⟩
  · intro code owner
    exact ⟨inv.shares.agree code owner, inv.shares.lpBalance_nonneg code owner⟩
  · intro code token htoken
    have ok := inv.pools code token htoken
    refine ⟨?_, Int64.lt_iff_toInt_lt.mpr ok.supply_pos,
      Int64.lt_iff_toInt_lt.mpr (ok.reserve_pos true),
      Int64.lt_iff_toInt_lt.mpr (ok.reserve_pos false)⟩
    rw [inv.total, lpSupply, Table.weight_of_find? htoken]
  · intro code hnone owner
    exact inv.lpBalance_eq_zero hnone owner
  · intro key balance hrow
    exact Int64.le_iff_toInt_le.mpr (inv.deposits.holdable key balance hrow).nonneg

open Binary64

/-- The pool of alice after she has bought half as many shares again. -/
theorem lp_ledger_agrees_sample :
    ∃ w token, Reaches sampleEnv w ∧
      w.state.stats.find? (sampleSymbol "AB").code = some token ∧
      token.supply.amount = 1500000 ∧
      lpTotal w.state (sampleSymbol "AB").code = token.supply.amount.toInt := by
  obtain ⟨h, w, hplay, hobs⟩ := exists_of_play
    (show (play (stepWith sampleEnv) sampleWorld (samplePool ++
        [(sampleCtx 1500 "alice", .addliquidity (nameLiteral "alice")
          ⟨500000, sampleSymbol "AB"⟩ (sampleA 500000).quantity
          (sampleB 500000).quantity)])).map
        (fun r => (r.2.state.stats.find? (sampleSymbol "AB").code).map
          fun token => token.supply.amount) = some (some 1500000) by decide +kernel)
  obtain ⟨token, htoken, hsupply⟩ := Option.map_eq_some_iff.mp hobs
  have hreach := reaches_of_play sampleWorld_genesis hplay
  exact ⟨w, token, hreach, htoken, hsupply,
    ((lp_ledger_agrees hreach).2.1 _ token htoken).1⟩

end Runs

end Lemonade
