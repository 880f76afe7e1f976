import Lemonade.Safety.LpLedger
import Mathlib.Tactic

/-!
# Who can take from an account

Every action that lowers a balance asks for the authority of its owner, but one: the
removal of a pool erases the LP tokens of all their holders on anybody's word.
-/

namespace Lemonade

open Kernel

section Custody

variable {u : Name} {s s' t : State}

/-- No LP token and no deposit of the account has become less. -/
structure SharesKept (u : Name) (s s' : State) : Prop where
  balance : ∀ code, lpBalance s code u ≤ lpBalance s' code u
  info : ∀ code, lpInfo s code u ≤ lpInfo s' code u
  deposit : ∀ id row, s.dexacnts.find? (u, id) = some row →
    ∃ row', s'.dexacnts.find? (u, id) = some row' ∧
      row'.extendedSymbol = row.extendedSymbol ∧
      row.quantity.amount.toInt ≤ row'.quantity.amount.toInt

/-- No LP token, no deposit and no stake of the account has become less. -/
structure NothingLost (u : Name) (s s' : State) : Prop extends SharesKept u s s' where
  stake : ∀ id row, s.stakings.find? (u, id) = some row →
    ∃ row', s'.stakings.find? (u, id) = some row' ∧ row'.productId = row.productId ∧
      row.balance.amount.toInt ≤ row'.balance.amount.toInt

theorem SharesKept.trans
    (h : SharesKept u s s') (h' : SharesKept u s' t) : SharesKept u s t where
  balance := fun code => (h.balance code).trans (h'.balance code)
  info := fun code => (h.info code).trans (h'.info code)
  deposit := by
    intro id row hrow
    obtain ⟨row', hrow', hsym, hle⟩ := h.deposit id row hrow
    obtain ⟨row'', hrow'', hsym', hle'⟩ := h'.deposit id row' hrow'
    exact ⟨row'', hrow'', hsym'.trans hsym, hle.trans hle'⟩

theorem SharesKept.of_balances
    (hbalance : ∀ code, lpBalance s code u ≤ lpBalance s' code u)
    (hinfo : ∀ code, lpInfo s code u ≤ lpInfo s' code u)
    (hdexacnts : ∀ id, s'.dexacnts.find? (u, id) = s.dexacnts.find? (u, id)) :
    SharesKept u s s' where
  balance := hbalance
  info := hinfo
  deposit := by
    intro id row hrow
    exact ⟨row, (hdexacnts id).trans hrow, rfl, le_refl _⟩

theorem SharesKept.of_keepsShares
    (h : KeepsShares s s')
    (hdexacnts : ∀ id, s'.dexacnts.find? (u, id) = s.dexacnts.find? (u, id)) :
    SharesKept u s s' := by
  refine .of_balances ?_ ?_ hdexacnts
  · intro code
    rw [lpBalance, lpBalance, h.accounts]
  · intro code
    rw [lpInfo, lpInfo, h.userinfo]

theorem SharesKept.of_keepsDex
    (h : KeepsDex s s') : SharesKept u s s' := by
  obtain ⟨haccounts, huserinfo, hstats, hdexacnts⟩ := h
  refine .of_keepsShares ⟨haccounts, huserinfo, hstats⟩ ?_
  intro id
  rw [hdexacnts]

/-- Payments of others leave the deposits of an account alone. -/
theorem SharesKept.of_deposit
    {user : Name} {toAdd : ExtendedAsset} (hne : user ≠ u)
    (h : addSignedExtBalance s user toAdd = .ok s') : SharesKept u s s' := by
  refine .of_keepsShares (addSignedExtBalance_keepsShares h) ?_
  intro id
  obtain ⟨-, ⟨i, -, -, -, rfl⟩ | ⟨key, _, _, hrow, -, -, rfl⟩⟩ := addSignedExtBalance_eq_ok h
  · refine Table.find?_put_of_ne _ _ ?_
    intro he
    exact hne (Prod.mk.inj he).1
  · obtain ⟨-, rfl, -⟩ := findDexacnt_eq_some hrow
    refine Table.find?_put_of_ne _ _ ?_
    intro he
    exact hne (congrArg Prod.fst he)

/-- Balances of others move, or the own one goes up. -/
theorem SharesKept.of_credited
    {owner : Name} {code : SymbolCode} {n : ℤ} (h : Credited s s' owner code n)
    (hown : owner = u → 0 ≤ n) : SharesKept u s s' := by
  have hn : ∀ code', 0 ≤ if code = code' ∧ owner = u then n else 0 := by
    intro code'
    split_ifs with hu
    · exact hown hu.2
    · exact le_refl _
  refine .of_balances ?_ ?_ ?_
  · intro code'
    rw [h.lpBalance]
    exact le_add_of_nonneg_right (hn code')
  · intro code'
    rw [h.lpInfo]
    exact le_add_of_nonneg_right (hn code')
  · intro id
    rw [h.dexacnts]

theorem SharesKept.of_swap [Doubles]
    {pairToken : SymbolCode} {input net out : ExtendedAsset} {minExpected : Asset}
    (inv : LpLedger s) (h : Swapped s pairToken input minExpected net out s') :
    SharesKept u s s' := by
  obtain ⟨_, _, _, -, -, -, rfl⟩ := h.update inv.pools
  exact .of_balances (fun _ => le_refl _) (fun _ => le_refl _) fun _ => rfl

theorem SharesKept.of_exchange [Doubles]
    {env : Env} {ctx : Ctx} {user : Name} {pairToken : SymbolCode} {extAssetIn : ExtendedAsset}
    {minExpected : Asset} (inv : LpLedger s) (hu : u ∉ ctx.auths)
    (h : exchange env ctx s user pairToken extAssetIn minExpected = .ok s') :
    SharesKept u s s' := by
  obtain ⟨_, _, _, _, hauth, -, hswap, hpay, hget⟩ := exchange_eq_ok h
  have hne : user ≠ u := fun he => hu (he ▸ hauth)
  exact ((SharesKept.of_swap inv hswap).trans (.of_deposit hne hpay)).trans (.of_deposit hne hget)

theorem SharesKept.of_addSignedLiq
    {user : Name} {toAdd maxAsset1 maxAsset2 : Asset} (inv : LpLedger s) (hne : user ≠ u)
    (h : addSignedLiq s user toAdd maxAsset1 maxAsset2 = .ok s') : SharesKept u s s' := by
  obtain ⟨_, _, _, s₁, s₂, s₃, -, -, h1, h2, hcredit, rfl, -⟩ := inv.addSignedLiq h
  have hpaid := (SharesKept.of_deposit hne h1).trans (.of_deposit hne h2)
  have hshares := hpaid.trans (.of_credited hcredit fun he => absurd he hne)
  exact hshares.trans (.of_balances (fun _ => le_refl _) (fun _ => le_refl _) fun _ => rfl)

theorem SharesKept.of_inittoken
    {env : Env} {ctx : Ctx} {user : Name} {newSymbol : Symbol}
    {initialPool1 initialPool2 : ExtendedAsset} (inv : LpLedger s) (hu : u ∉ ctx.auths)
    (h : inittoken env ctx s user newSymbol initialPool1 initialPool2 = .ok s') :
    SharesKept u s s' := by
  obtain ⟨newToken, s₁, _, _, _, s₂, s₃, hauth, -, -, -, -, -, hrange, hone, -, hfee, -, hshares,
    h1, h2⟩ := inittoken_eq_ok h
  have hne : user ≠ u := fun he => hu (he ▸ hauth)
  have hfee' : SharesKept u s s₁ := by
    unfold payPoolFee at hfee
    split_ifs at hfee
    · exact .of_deposit hne hfee
    · obtain rfl := Except.ok.inj hfee
      exact .of_keepsDex (.refl _)
  have inv1 := inv.of_keepsShares (payPoolFee_keepsShares hfee) (inv.deposits.payPoolFee hfee)
  have hcredit := addBalance_credited hshares (inv1.shares.of_same rfl rfl) ⟨by omega, hrange⟩
  have hnew := SharesKept.of_credited hcredit fun he => absurd he hne
  have hmid : SharesKept u s₁ s₂ := ⟨hnew.balance, hnew.info, hnew.deposit⟩
  exact (hfee'.trans hmid).trans ((SharesKept.of_deposit hne h1).trans (.of_deposit hne h2))

/-- The removal of a pool takes the LP tokens of all holders. -/
theorem lpBalance_rmpool
    {env : Env} {ctx : Ctx} {user : Name} {lpSymbol : Symbol} (inv : LpLedger s)
    (h : rmpool env ctx s user lpSymbol = .ok s') (code : SymbolCode) (owner : Name) :
    lpBalance s' code owner =
      if code = lpSymbol.code then 0 else lpBalance s code owner := by
  have inv' := inv.rmpool h
  obtain ⟨token, _, _, _, accounts, -, -, haccounts, rfl⟩ := rmpool_eq_ok h
  split_ifs with hcode
  · subst hcode
    exact inv'.lpBalance_eq_zero (Table.find?_erase_self _ _) owner
  · unfold lpBalance Table.weight
    rw [find?_eraseAccounts_holders haccounts, if_neg fun he => hcode he.1]

theorem SharesKept.of_rmpool
    {env : Env} {ctx : Ctx} {user : Name} {lpSymbol : Symbol} (inv : LpLedger s)
    (hzero : ¬ 0 < lpBalance s lpSymbol.code u)
    (h : rmpool env ctx s user lpSymbol = .ok s') : SharesKept u s s' := by
  have inv' := inv.rmpool h
  have hle : ∀ code, lpBalance s code u ≤ lpBalance s' code u := by
    intro code
    rw [lpBalance_rmpool inv h]
    split_ifs with hcode
    · subst hcode
      exact not_lt.mp hzero
    · exact le_refl _
  refine .of_balances hle ?_ ?_
  · intro code
    rw [← inv.shares.agree, ← inv'.shares.agree]
    exact hle code
  · intro id
    obtain ⟨_, _, _, _, _, -, -, -, rfl⟩ := rmpool_eq_ok h
    rfl

theorem SharesKept.of_move [Doubles]
    {env : Env} {ctx : Ctx} {a : Action} {sent : List Inline} (inv : LpLedger s)
    (hu : u ∉ ctx.auths)
    (hnotify : ∀ firstReceiver source dest quantity memo,
      a = .notify firstReceiver source dest quantity memo → source ∈ ctx.auths)
    (hrmpool : ∀ user lpSymbol, a = .rmpool user lpSymbol → ¬ 0 < lpBalance s lpSymbol.code u)
    (h : DexMove env ctx s a s' sent) : SharesKept u s s' := by
  have hother : ∀ user, user ∈ ctx.auths → user ≠ u := by
    rintro user hauth rfl
    exact hu hauth
  cases h with
  | transfer h =>
      obtain ⟨hauth, hpos, s₁, h1, -, h2⟩ := transfer_credited inv.shares h
      exact (SharesKept.of_credited h1 fun he => absurd he (hother _ hauth)).trans
        (.of_credited h2 fun _ => hpos.le)
  | tokenOpen h =>
      rcases tokenOpen_eq_ok h with rfl | ⟨hnone, rfl⟩
      · exact .of_keepsDex (.refl _)
      · exact .of_balances (fun _ => (weight_openRow _ hnone _).ge) (fun _ => le_refl _)
          fun _ => rfl
  | tokenClose h =>
      obtain ⟨_, -, hrow, hzero, rfl⟩ := tokenClose_eq_ok h
      exact .of_balances (fun _ => (weight_closeRow hrow hzero _).ge) (fun _ => le_refl _)
        fun _ => rfl
  | openext h =>
      rcases openext_eq_ok h with rfl | ⟨i, -, hfresh, rfl⟩
      · exact .of_keepsDex (.refl _)
      · refine ⟨fun _ => le_refl _, fun _ => le_refl _, ?_⟩
        intro id row hrow
        refine ⟨row, ?_, rfl, le_refl _⟩
        rw [Table.find?_put_of_ne, hrow]
        intro he
        rw [he, hrow] at hfresh
        cases hfresh
  | closeext h =>
      obtain ⟨key, _, hauth, hrow, rfl, -⟩ := closeext_eq_ok h
      obtain ⟨-, rfl, -⟩ := findDexacnt_eq_some hrow
      refine .of_balances (fun _ => le_refl _) (fun _ => le_refl _) fun id => ?_
      refine Table.find?_erase_of_ne _ ?_
      intro he
      exact hother _ hauth (congrArg Prod.fst he)
  | withdraw h =>
      obtain ⟨hauth, -, hadd, -⟩ := withdraw_eq_ok h
      exact .of_deposit (hother _ hauth) hadd
  | addliquidity h =>
      obtain ⟨hauth, -, hliq⟩ := addliquidity_eq_ok h
      exact .of_addSignedLiq inv (hother _ hauth) hliq
  | rmliquidity h =>
      obtain ⟨hauth, -, hliq⟩ := rmliquidity_eq_ok h
      exact .of_addSignedLiq inv (hother _ hauth) hliq
  | exchange h => exact .of_exchange inv hu h
  | exchangeall h =>
      obtain ⟨_, _, _, -, -, hall⟩ := exchangeall_eq_ok h
      exact .of_exchange inv hu hall
  | inittoken h => exact .of_inittoken inv hu h
  | rmpool h => exact .of_rmpool inv (hrmpool _ _ rfl) h
  | clmpoolreward h =>
      obtain ⟨_, _, _, _, _, _, -, -, -, -, -, rfl⟩ := clmpoolreward_eq_ok h
      exact .of_balances (fun _ => le_refl _) (fun _ => le_refl _) fun _ => rfl
  | deposit _ _ h => exact .of_deposit (hother _ (hnotify _ _ _ _ _ rfl)) h
  | memoexchange _ _ _ h =>
      obtain ⟨_, _, _, -, hswap, -⟩ := memoexchange_eq_ok h
      exact .of_swap inv hswap

/-- Rows of others are stored, or a row of the account with the same balance. -/
theorem stake_of_put
    {key : Name × Nat} {row' : Staking}
    (hstakings : s'.stakings = s.stakings.put key row')
    (hkey : ∀ id row, key = (u, id) → s.stakings.find? key = some row →
      row'.productId = row.productId ∧ row'.balance = row.balance)
    (id : Nat) (row : Staking) (hrow : s.stakings.find? (u, id) = some row) :
    ∃ row', s'.stakings.find? (u, id) = some row' ∧ row'.productId = row.productId ∧
      row.balance.amount.toInt ≤ row'.balance.amount.toInt := by
  by_cases he : key = (u, id)
  · obtain ⟨hid, hbalance⟩ := hkey id row he (he ▸ hrow)
    refine ⟨row', ?_, hid, by rw [hbalance]⟩
    rw [hstakings, he, Table.find?_put_self]
  · refine ⟨row, ?_, rfl, le_refl _⟩
    rw [hstakings, Table.find?_put_of_ne _ _ he, hrow]

theorem stake_of_same
    (hstakings : s'.stakings = s.stakings)
    (id : Nat) (row : Staking) (hrow : s.stakings.find? (u, id) = some row) :
    ∃ row', s'.stakings.find? (u, id) = some row' ∧ row'.productId = row.productId ∧
      row.balance.amount.toInt ≤ row'.balance.amount.toInt :=
  ⟨row, by rw [hstakings, hrow], rfl, le_refl _⟩

theorem stake_of_rewritten
    (h : Rewritten s s')
    (id : Nat) (row : Staking) (hrow : s.stakings.find? (u, id) = some row) :
    ∃ row', s'.stakings.find? (u, id) = some row' ∧ row'.productId = row.productId ∧
      row.balance.amount.toInt ≤ row'.balance.amount.toInt := by
  cases h with
  | idle _ stakings => exact stake_of_same stakings id row hrow
  | row find _ productId same _ _ stakings =>
      refine stake_of_put stakings ?_ id row hrow
      intro _ old _ hold
      obtain rfl := Option.some.inj (find.symm.trans hold)
      exact ⟨productId, same.balance⟩

theorem stake_of_move [Doubles]
    {env : Env} {ctx : Ctx} {a : Action} {sent : List Inline} (hu : u ∉ ctx.auths)
    (hnotify : ∀ firstReceiver source dest quantity memo,
      a = .notify firstReceiver source dest quantity memo → source ∈ ctx.auths)
    (h : StakeMove env ctx s a s' sent)
    (id : Nat) (row : Staking) (hrow : s.stakings.find? (u, id) = some row) :
    ∃ row', s'.stakings.find? (u, id) = some row' ∧ row'.productId = row.productId ∧
      row.balance.amount.toInt ≤ row'.balance.amount.toInt := by
  have hother : ∀ {owner : Name} {key : Name × Nat}, owner ∈ ctx.auths → key.1 = owner →
      ∀ id, key ≠ (u, id) := by
    rintro owner key hauth rfl id rfl
    exact hu hauth
  cases h with
  | addproduct h =>
      obtain ⟨_, _, -, -, -, -, -, -, -, -, rfl⟩ := addproduct_eq_ok h
      exact stake_of_same rfl id row hrow
  | rmproduct h =>
      obtain ⟨_, _, -, -, -, rfl⟩ := rmproduct_eq_ok h
      exact stake_of_same rfl id row hrow
  | stake _ _ _ h =>
      have hauth := hnotify _ _ _ _ _ rfl
      obtain ⟨_, _, _, _, -, -, -, -, -, -, h⟩ := stake_eq_ok h
      rcases h with ⟨-, -, h⟩ | ⟨key, old, hold, h⟩
      · obtain ⟨_, _, _, _, -, -, -, -, rfl⟩ := stakeNew_eq_ok h
        exact stake_of_put rfl (fun id _ he => absurd he (hother hauth rfl id)) id row hrow
      · obtain ⟨-, howner, -⟩ := findStaking_eq_some hold
        obtain ⟨_, _, _, -, -, rfl⟩ := stakeMore_tables h
        exact stake_of_put rfl (fun id _ he => absurd he (hother hauth howner id)) id row hrow
  | unstake h =>
      obtain ⟨_, _, key, old, _, _, hauth, -, hold, -, rfl⟩ := unstake_tables h
      obtain ⟨-, howner, -⟩ := findStaking_eq_some hold
      refine ⟨row, ?_, rfl, le_refl _⟩
      dsimp only
      rw [Table.find?_erase_of_ne _ (hother hauth howner id), hrow]
  | claimled h => exact stake_of_rewritten (claimled_rewritten h) id row hrow
  | claimlem h => exact stake_of_rewritten (claimlem_rewritten h) id row hrow
  | changeyield h => exact stake_of_rewritten (changeyield_rewritten h) id row hrow

theorem NothingLost.trans
    (h : NothingLost u s s') (h' : NothingLost u s' t) : NothingLost u s t where
  toSharesKept := h.toSharesKept.trans h'.toSharesKept
  stake := by
    intro id row hrow
    obtain ⟨row', hrow', hid, hle⟩ := h.stake id row hrow
    obtain ⟨row'', hrow'', hid', hle'⟩ := h'.stake id row' hrow'
    exact ⟨row'', hrow'', hid'.trans hid, hle.trans hle'⟩

theorem NothingLost.refl (u : Name) (s : State) : NothingLost u s s where
  toSharesKept := .of_keepsDex (.refl s)
  stake := stake_of_same rfl

end Custody

section Runs

variable {env : Env} {u : Name}

/-- An action without the authority of the account.  Transfers are notified only with
the authority of those who pay. -/
structure Foreign (u : Name) (e : Event) : Prop where
  unauthorised : u ∉ e.ctx.auths
  notified : ∀ firstReceiver source dest quantity memo,
    e.action = .notify firstReceiver source dest quantity memo → source ∈ e.ctx.auths

/-- The action removes a pool of which the account holds LP tokens. -/
def RemovesPoolOf (u : Name) (p : World × Event) : Prop :=
  ∃ user lpSymbol, p.2.action = .rmpool user lpSymbol ∧
    0 < lpBalance p.1.state lpSymbol.code u

theorem nothingLost_of_step [Doubles]
    {w w' : World} {e : Event} (inv : LpLedger w.state) (hforeign : Foreign u e)
    (hpool : ¬ RemovesPoolOf u (w, e)) (h : Step env w e w') :
    NothingLost u w.state w'.state := by
  obtain ⟨-, hexec, -⟩ := h
  obtain ⟨hu, hnotify⟩ := hforeign
  have hrmpool : ∀ user lpSymbol, e.action = .rmpool user lpSymbol →
      ¬ 0 < lpBalance w.state lpSymbol.code u :=
    fun user lpSymbol ha hpos => hpool ⟨user, lpSymbol, ha, hpos⟩
  cases exec_area hexec with
  | stakes move dex => exact ⟨.of_keepsDex dex, stake_of_move hu hnotify move⟩
  | games _ dex _ stakings => exact ⟨.of_keepsDex dex, stake_of_same stakings⟩
  | dex move stakes => exact ⟨.of_move inv hu hnotify hrmpool move, stake_of_same stakes.2.1⟩
  | idle stakes dex => exact ⟨.of_keepsDex dex, stake_of_same stakes.2.1⟩

theorem not_nothingLost_of_removesPoolOf [Doubles]
    {w w' : World} {e : Event} (inv : LpLedger w.state) (h : Step env w e w')
    (hpool : RemovesPoolOf u (w, e)) : ¬ NothingLost u w.state w'.state := by
  obtain ⟨user, lpSymbol, ha, hpos⟩ := hpool
  obtain ⟨-, hexec, -⟩ := h
  rw [ha] at hexec
  obtain ⟨hok, -⟩ := silent_eq_ok_iff.mp hexec
  intro hkept
  have hle := hkept.balance lpSymbol.code
  rw [lpBalance_rmpool inv hok, if_pos rfl] at hle
  exact absurd hpos (not_lt.mpr hle)

/-- An action of others takes nothing from an account exactly if it does not remove a
pool that the account has a share in.  Over whole runs nothing is lost without such
a removal. -/
theorem custody_iff_pool_stays [Doubles]
    {w : World} (h : Reaches env w) :
    (∀ e w', Foreign u e → Step env w e w' →
      (NothingLost u w.state w'.state ↔ ¬ RemovesPoolOf u (w, e))) ∧
    ∀ tr w', Run (Step env) w tr w' → (∀ p ∈ tr, Foreign u p.2 ∧ ¬ RemovesPoolOf u p) →
      NothingLost u w.state w'.state := by
  have inv := lpLedger_of_reaches h
  constructor
  · intro e w' hforeign hstep
    constructor
    · exact fun hkept hpool => not_nothingLost_of_removesPoolOf inv hstep hpool hkept
    · exact fun hpool => nothingLost_of_step inv hforeign hpool hstep
  · intro tr w' hrun hall
    refine hrun.related_of_forall (fun p => Foreign u p.2 ∧ ¬ RemovesPoolOf u p)
      (fun w => LpLedger w.state) (fun w w' => NothingLost u w.state w'.state) ?_ ?_ ?_ ?_ hall inv
    · exact fun w _ => .refl u w.state
    · exact fun _ _ _ _ _ _ h h' => h.trans h'
    · exact fun _ _ _ _ inv hstep => inv.exec hstep.2.1
    · exact fun _ _ _ hp inv hstep => nothingLost_of_step inv hp.1 hp.2 hstep

open Binary64

/-- Bob pays in and swaps after alice has created a pool. -/
theorem custody_iff_pool_stays_sample :
    ∃ w w' h, Reaches sampleEnv w ∧ Run (Step sampleEnv) w h w' ∧
      lpBalance w.state (sampleSymbol "AB").code (nameLiteral "alice") = 1000000 ∧
      NothingLost (nameLiteral "alice") w.state w'.state := by
  let inputs : List (Ctx × Action) :=
    [(sampleCtx 2000 "bob", samplePayment "bob" (sampleA 50000) "deposit"),
      (sampleCtx 2000 "bob", .openext (nameLiteral "bob") (sampleB 0).extendedSymbol),
      (sampleCtx 2000 "bob", .exchange (nameLiteral "bob") (sampleSymbol "AB").code
        (sampleA 10000) (sampleB 1).quantity)]
  obtain ⟨h₀, w, hplay₀, hobs⟩ := exists_of_play
    (show (play (stepWith sampleEnv) sampleWorld samplePool).map (fun r =>
        (lpBalance r.2.state (sampleSymbol "AB").code (nameLiteral "alice"),
          (play (stepWith sampleEnv) r.2 inputs).isSome)) =
      some (1000000, true) by decide +kernel)
  obtain ⟨hbalance, hsome⟩ := Prod.mk.inj hobs
  obtain ⟨⟨h, w'⟩, hplay⟩ := Option.isSome_iff_exists.mp hsome
  have hreach := reaches_of_play sampleWorld_genesis hplay₀
  have hrun := run_of_play (step_of_stepWith sampleEnv) _ hplay
  refine ⟨w, w', h, hreach, hrun, hbalance, ?_⟩
  have hbob : nameLiteral "alice" ∉ [nameLiteral "bob"] := by decide +kernel
  refine (custody_iff_pool_stays hreach).2 h w' hrun ?_
  rintro ⟨v, ctx, a, sent⟩ hp
  have hmem := input_mem_of_play hplay hp
  simp only [inputs, samplePayment, List.mem_cons, Prod.mk.injEq, List.not_mem_nil,
    or_false] at hmem
  rcases hmem with ⟨rfl, rfl⟩ | ⟨rfl, rfl⟩ | ⟨rfl, rfl⟩
  · refine ⟨⟨hbob, ?_⟩, by rintro ⟨_, _, he, _⟩; cases he⟩
    rintro _ _ _ _ _ he
    obtain ⟨-, rfl, -, -, -⟩ := Action.notify.inj he
    exact List.mem_singleton_self _
  · exact ⟨⟨hbob, fun _ _ _ _ _ he => by cases he⟩, by rintro ⟨_, _, he, _⟩; cases he⟩
  · exact ⟨⟨hbob, fun _ _ _ _ _ he => by cases he⟩, by rintro ⟨_, _, he, _⟩; cases he⟩

/-- Transfers are notified with the authority of those who pay, and are positive. -/
def HonestNotice (e : Event) : Prop :=
  ∀ firstReceiver source dest quantity memo,
    e.action = .notify firstReceiver source dest quantity memo →
      source ∈ e.ctx.auths ∧ 0 < quantity.amount

theorem honestNotice_samplePayment
    {now : ℕ} {account memo : String} {payment : ExtendedAsset} {sent : List Inline}
    (h : 0 < payment.quantity.amount) :
    HonestNotice ⟨sampleCtx now account, samplePayment account payment memo, sent⟩ := by
  rintro _ _ _ _ _ he
  obtain ⟨-, rfl, -, rfl, -⟩ := Action.notify.inj he
  exact ⟨List.mem_singleton_self _, h⟩

/-- Mallory, who owns nothing, erases the LP tokens of alice. -/
theorem custody_broken_by_rmpool :
    ¬ ∀ (env : Env) (w₀ w w' : World) (h : History) (e : Event) (u : Name), w₀.Genesis →
      Run (Step env) w₀ h w → Step env w e w' → env.isDexOpen = true →
      (∀ p ∈ h, HonestNotice p.2) → HonestNotice e →
      u ∉ e.ctx.auths → env.self ∉ e.ctx.auths → NothingLost u w.state w'.state := by
  intro hall
  let removal : Ctx × Action :=
    (sampleCtx 2000 "mallory", .rmpool (nameLiteral "mallory") (sampleSymbol "AB"))
  obtain ⟨h, w, hplay, hobs⟩ := exists_of_play
    (show (play (stepWith sampleEnv) sampleWorld samplePool).map (fun r =>
        (lpBalance r.2.state (sampleSymbol "AB").code (nameLiteral "alice"),
          (stepWith sampleEnv r.2 removal).map fun x =>
            lpBalance x.2.state (sampleSymbol "AB").code (nameLiteral "alice"))) =
      some (1000000, some 0) by decide +kernel)
  obtain ⟨hbefore, hafter⟩ := Prod.mk.inj hobs
  obtain ⟨⟨e, w'⟩, hremoval, hafter⟩ := Option.map_eq_some_iff.mp hafter
  have hinput := input_of_stepWith _ _ _ _ _ hremoval
  have hctx : e.ctx = removal.1 := congrArg Prod.fst hinput
  have haction : e.action = removal.2 := congrArg Prod.snd hinput
  have hhonest : ∀ p ∈ h, HonestNotice p.2 := by
    rintro ⟨u, ctx, a, sent⟩ hp
    have hmem := input_mem_of_play hplay hp
    simp only [samplePool, List.mem_cons, Prod.mk.injEq, List.not_mem_nil, or_false] at hmem
    rcases hmem with ⟨rfl, rfl⟩ | ⟨rfl, rfl⟩ | ⟨rfl, rfl⟩ | ⟨rfl, rfl⟩
    · exact honestNotice_samplePayment (by decide)
    · exact honestNotice_samplePayment (by decide)
    · exact honestNotice_samplePayment (by decide)
    · exact fun _ _ _ _ _ he => by cases he
  have hkept := hall sampleEnv sampleWorld w w' h e (nameLiteral "alice") sampleWorld_genesis
    (run_of_play (step_of_stepWith sampleEnv) _ hplay)
    (step_of_stepWith _ _ _ _ _ hremoval) rfl hhonest ?_ ?_ ?_
  · have hle := hkept.balance (sampleSymbol "AB").code
    dsimp only at hbefore hafter
    omega
  · rw [HonestNotice, haction]
    exact fun _ _ _ _ _ he => by cases he
  · rw [hctx]
    decide +kernel
  · rw [hctx]
    decide +kernel

end Runs

end Lemonade
