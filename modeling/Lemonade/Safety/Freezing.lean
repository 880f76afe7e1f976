import Lemonade.Safety.Custody
import Lemonade.Safety.UserBounds
import Mathlib.Tactic

/-!
# Frozen accounts

A frozen account cannot transfer its LP tokens.  They can still leave it in two
ways: the account sells them to the pool, or somebody removes the pool.  No other
step, whoever authorises it, lowers a balance of a frozen account.
-/

namespace Lemonade

open Kernel

section Frozen

variable {env : Env} {ctx : Ctx} {u : Name} {s s' t : State}

/-- The account is listed in `frozens`. -/
def Frozen (u : Name) (s : State) : Prop := s.frozens.find? u ≠ none

/-- No LP token balance of the account has become less. -/
def BalancesKept (u : Name) (s s' : State) : Prop :=
  ∀ code, lpBalance s code u ≤ lpBalance s' code u

/-- The account sells LP tokens, or a pool is removed of which it holds some. -/
def SharesLeave (u : Name) (p : World × Event) : Prop :=
  match p.2.action with
  | .rmliquidity user _ _ _ => user = u
  | .rmpool _ lpSymbol => 0 < lpBalance p.1.state lpSymbol.code u
  | _ => False

theorem transfer_unfrozen
    {source dest : Name} {quantity : Asset} {memo : Text}
    (h : transfer ctx s source dest quantity memo = .ok s') : ¬ Frozen source s := by
  simp only [transfer, bind_eq_ok_iff, checkFrozen_eq_ok_iff] at h
  obtain ⟨_, -, _, -, _, hfree, -⟩ := h
  exact not_not.mpr hfree

theorem BalancesKept.refl (u : Name) (s : State) : BalancesKept u s s := fun _ => le_refl _

theorem BalancesKept.trans
    (h : BalancesKept u s s') (h' : BalancesKept u s' t) : BalancesKept u s t :=
  fun code => (h code).trans (h' code)

theorem BalancesKept.of_accounts (h : s'.accounts = s.accounts) : BalancesKept u s s' := by
  intro code
  rw [lpBalance, lpBalance, h]

theorem BalancesKept.of_deposit
    {user : Name} {toAdd : ExtendedAsset} (h : addSignedExtBalance s user toAdd = .ok s') :
    BalancesKept u s s' :=
  .of_accounts (addSignedExtBalance_keepsShares h).accounts

/-- A swap from a deposit leaves all LP tokens where they are. -/
theorem BalancesKept.of_exchange [Doubles]
    {user : Name} {pairToken : SymbolCode} {extAssetIn : ExtendedAsset} {minExpected : Asset}
    (inv : LpLedger s)
    (h : exchange env ctx s user pairToken extAssetIn minExpected = .ok s') :
    BalancesKept u s s' := by
  obtain ⟨_, _, s₁, s₂, -, -, hswap, hpay, hget⟩ := exchange_eq_ok h
  have hswapped : BalancesKept u s s₁ := (SharesKept.of_swap inv hswap).balance
  exact hswapped.trans ((BalancesKept.of_deposit hpay).trans (.of_deposit hget))

/-- Buying shares, or the selling of others. -/
theorem BalancesKept.of_addSignedLiq
    {user : Name} {toAdd maxAsset1 maxAsset2 : Asset} (inv : LpLedger s)
    (hown : user = u → 0 ≤ toAdd.amount.toInt)
    (h : addSignedLiq s user toAdd maxAsset1 maxAsset2 = .ok s') : BalancesKept u s s' := by
  obtain ⟨_, _, _, s₁, s₂, s₃, -, -, h1, h2, hcredit, rfl, -⟩ := inv.addSignedLiq h
  have hpaid : BalancesKept u s s₂ := (BalancesKept.of_deposit h1).trans (.of_deposit h2)
  have hshares : BalancesKept u s₂ s₃ := (SharesKept.of_credited hcredit hown).balance
  exact (hpaid.trans hshares).trans (.of_accounts rfl)

/-- The creator of a pool receives the first shares. -/
theorem BalancesKept.of_inittoken
    {user : Name} {newSymbol : Symbol} {initialPool1 initialPool2 : ExtendedAsset}
    (inv : LpLedger s)
    (h : inittoken env ctx s user newSymbol initialPool1 initialPool2 = .ok s') :
    BalancesKept u s s' := by
  obtain ⟨newToken, s₁, _, _, _, s₂, s₃, -, -, -, -, -, -, hrange, hone, -, hfee, -, hshares,
    h1, h2⟩ := inittoken_eq_ok h
  have hkeep := payPoolFee_keepsShares hfee
  have hpaid : BalancesKept u s s₁ := .of_accounts hkeep.accounts
  have inv1 := inv.of_keepsShares hkeep (inv.deposits.payPoolFee hfee)
  have hcredit := addBalance_credited hshares (inv1.shares.of_same rfl rfl) ⟨by omega, hrange⟩
  have hnew := (SharesKept.of_credited (u := u) hcredit fun _ => by omega).balance
  have hmid : BalancesKept u s₁ s₂ := hnew
  exact (hpaid.trans hmid).trans ((BalancesKept.of_deposit h1).trans (.of_deposit h2))

/-- Every move on the exchange that is not one of the two ways out. -/
theorem BalancesKept.of_move [Doubles]
    {a : Action} {sent : List Inline} (inv : LpLedger s) (hfrozen : Frozen u s)
    (hsell : ∀ user toSell minAsset1 minAsset2,
      a = .rmliquidity user toSell minAsset1 minAsset2 → user ≠ u)
    (hrmpool : ∀ user lpSymbol, a = .rmpool user lpSymbol → ¬ 0 < lpBalance s lpSymbol.code u)
    (h : DexMove env ctx s a s' sent) : BalancesKept u s s' := by
  cases h with
  | @transfer source _ _ _ _ h =>
      have hne : source ≠ u := by
        rintro rfl
        exact transfer_unfrozen h hfrozen
      obtain ⟨-, hpos, s₁, h1, -, h2⟩ := transfer_credited inv.shares h
      have hdebit : BalancesKept u s s₁ :=
        (SharesKept.of_credited h1 fun he => absurd he hne).balance
      exact hdebit.trans (SharesKept.of_credited h2 fun _ => hpos.le).balance
  | tokenOpen h =>
      rcases tokenOpen_eq_ok h with rfl | ⟨hnone, rfl⟩
      · exact .refl u s'
      · exact fun _ => (weight_openRow _ hnone _).ge
  | tokenClose h =>
      obtain ⟨_, -, hrow, hzero, rfl⟩ := tokenClose_eq_ok h
      exact fun _ => (weight_closeRow hrow hzero _).ge
  | openext h =>
      rcases openext_eq_ok h with rfl | ⟨_, -, -, rfl⟩
      · exact .refl u s'
      · exact .of_accounts rfl
  | closeext h =>
      obtain ⟨_, _, -, -, rfl, -⟩ := closeext_eq_ok h
      exact .of_accounts rfl
  | withdraw h =>
      obtain ⟨-, -, hadd, -⟩ := withdraw_eq_ok h
      exact .of_deposit hadd
  | addliquidity h =>
      obtain ⟨-, hpos, hliq⟩ := addliquidity_eq_ok h
      exact .of_addSignedLiq inv (fun _ => (Int64.lt_iff_toInt_lt.mp hpos).le) hliq
  | rmliquidity h =>
      obtain ⟨-, -, hliq⟩ := rmliquidity_eq_ok h
      exact .of_addSignedLiq inv (fun he => absurd he (hsell _ _ _ _ rfl)) hliq
  | exchange h => exact .of_exchange inv h
  | exchangeall h =>
      obtain ⟨_, _, _, -, -, hall⟩ := exchangeall_eq_ok h
      exact .of_exchange inv hall
  | inittoken h => exact .of_inittoken inv h
  | rmpool h => exact (SharesKept.of_rmpool inv (hrmpool _ _ rfl) h).balance
  | clmpoolreward h =>
      obtain ⟨_, _, _, _, _, _, -, -, -, -, -, rfl⟩ := clmpoolreward_eq_ok h
      exact .of_accounts rfl
  | deposit _ _ h => exact .of_deposit h
  | memoexchange _ _ _ h =>
      obtain ⟨_, _, _, -, hswap, -⟩ := memoexchange_eq_ok h
      exact (SharesKept.of_swap inv hswap).balance

end Frozen

section Runs

variable {env : Env} {u : Name} {w w' : World} {e : Event}

theorem balancesKept_of_step [Doubles]
    (inv : LpLedger w.state) (hfrozen : Frozen u w.state) (hstay : ¬ SharesLeave u (w, e))
    (h : Step env w e w') : BalancesKept u w.state w'.state := by
  obtain ⟨-, hexec, -⟩ := h
  cases exec_area hexec with
  | stakes _ dex => exact .of_accounts dex.1
  | games _ dex => exact .of_accounts dex.1
  | idle _ dex => exact .of_accounts dex.1
  | dex move =>
      refine .of_move inv hfrozen ?_ ?_ move
      · intro user _ _ _ ha hu
        refine hstay ?_
        rw [SharesLeave, ha]
        exact hu
      · intro _ lpSymbol ha hpos
        refine hstay ?_
        rw [SharesLeave, ha]
        exact hpos

/-- Selling lowers the balance by what is sold, and the removal of a pool to zero. -/
theorem not_balancesKept_of_sharesLeave [Doubles]
    (inv : LpLedger w.state) (h : Step env w e w') (hleave : SharesLeave u (w, e)) :
    ¬ BalancesKept u w.state w'.state := by
  obtain ⟨-, hexec, -⟩ := h
  intro hkept
  unfold SharesLeave at hleave
  split at hleave
  · next user toSell minAsset1 minAsset2 ha =>
      subst hleave
      rw [ha] at hexec
      obtain ⟨-, hpos, hliq⟩ := rmliquidity_eq_ok (silent_eq_ok_iff.mp hexec).1
      obtain ⟨_, _, -, hbalance, -⟩ := liquidityTrade_of_addSignedLiq inv hliq
      have hsold : 0 < toSell.amount.toInt := Int64.lt_iff_toInt_lt.mp hpos
      have hle := hkept toSell.neg.symbol.code
      rw [hbalance, Asset.neg_amount, toInt_neg_of_nonneg (Int64.le_of_lt hpos)] at hle
      omega
  · next user lpSymbol ha =>
      rw [ha] at hexec
      have hle := hkept lpSymbol.code
      rw [lpBalance_rmpool inv (silent_eq_ok_iff.mp hexec).1, if_pos rfl] at hle
      exact absurd hleave (not_lt.mpr hle)
  · exact hleave

/-- While an account is frozen, a step without the authority of the contract keeps its LP
tokens exactly if they do not leave in one of the two ways.  Over whole runs they are kept
if no step is one of them. -/
theorem frozen_shares_stay_iff [Doubles] (h : Reaches env w) :
    (∀ e w', Frozen u w.state → env.self ∉ e.ctx.auths → Step env w e w' →
      (BalancesKept u w.state w'.state ↔ ¬ SharesLeave u (w, e))) ∧
    ∀ tr w', Run (Step env) w tr w' →
      (∀ p ∈ tr, Frozen u p.1.state ∧ env.self ∉ p.2.ctx.auths ∧ ¬ SharesLeave u p) →
      BalancesKept u w.state w'.state := by
  have inv := lpLedger_of_reaches h
  constructor
  · intro e w' hfrozen _ hstep
    constructor
    · exact fun hkept hleave => not_balancesKept_of_sharesLeave inv hstep hleave hkept
    · exact fun hstay => balancesKept_of_step inv hfrozen hstay hstep
  · intro tr w' hrun hall
    refine hrun.related_of_forall
      (fun p => Frozen u p.1.state ∧ env.self ∉ p.2.ctx.auths ∧ ¬ SharesLeave u p)
      (fun w => LpLedger w.state) (fun w w' => BalancesKept u w.state w'.state)
      ?_ ?_ ?_ ?_ hall inv
    · exact fun w _ => .refl u w.state
    · exact fun _ _ _ _ _ _ h h' => h.trans h'
    · exact fun _ _ _ _ inv hstep => inv.exec hstep.2.1
    · exact fun _ _ _ hp inv hstep => balancesKept_of_step inv hp.1 hp.2.2 hstep

/-- The pool of alice, whose account is then frozen. -/
def sampleFrozen : List (Ctx × Action) :=
  samplePool ++ [(sampleCtx 1500 "lemonade.c", .freeze (nameLiteral "alice"))]

open Binary64

/-- Bob pays in and swaps while alice is frozen. -/
theorem frozen_shares_stay_iff_sample :
    ∃ w w' h, Reaches sampleEnv w ∧ Run (Step sampleEnv) w h w' ∧
      Frozen (nameLiteral "alice") w.state ∧
      BalancesKept (nameLiteral "alice") w.state w'.state := by
  let inputs : List (Ctx × Action) :=
    [(sampleCtx 2000 "bob", samplePayment "bob" (sampleA 50000) "deposit"),
      (sampleCtx 2000 "bob", .openext (nameLiteral "bob") (sampleB 0).extendedSymbol),
      (sampleCtx 2000 "bob", .exchange (nameLiteral "bob") (sampleSymbol "AB").code
        (sampleA 10000) (sampleB 1).quantity)]
  obtain ⟨h₀, w, hplay₀, hobs⟩ := exists_of_play
    (show (play (stepWith sampleEnv) sampleWorld sampleFrozen).map (fun r =>
        (r.2.state.frozens.find? (nameLiteral "alice"),
          (play (stepWith sampleEnv) r.2 inputs).map fun x =>
            x.1.all fun p => (p.1.state.frozens.find? (nameLiteral "alice")).isSome)) =
      some (some (), some true) by decide +kernel)
  obtain ⟨hfrozen, hsome⟩ := Prod.mk.inj hobs
  obtain ⟨⟨h, w'⟩, hplay, hall⟩ := Option.map_eq_some_iff.mp hsome
  have hreach := reaches_of_play sampleWorld_genesis hplay₀
  have hrun := run_of_play (step_of_stepWith sampleEnv) _ hplay
  refine ⟨w, w', h, hreach, hrun, by simp [Frozen, hfrozen], ?_⟩
  have hself : sampleEnv.self ∉ (sampleCtx 2000 "bob").auths := by decide +kernel
  refine (frozen_shares_stay_iff hreach).2 h w' hrun ?_
  rintro ⟨v, ctx, a, sent⟩ hp
  have hv := Option.isSome_iff_ne_none.mp (List.all_eq_true.mp hall _ hp)
  have hmem := input_mem_of_play hplay hp
  simp only [inputs, samplePayment, List.mem_cons, Prod.mk.injEq, List.not_mem_nil,
    or_false] at hmem
  rcases hmem with ⟨rfl, rfl⟩ | ⟨rfl, rfl⟩ | ⟨rfl, rfl⟩
  · exact ⟨hv, hself, id⟩
  · exact ⟨hv, hself, id⟩
  · exact ⟨hv, hself, id⟩

/-- Alice, frozen, sells a thousand of her shares to the pool. -/
theorem frozen_shares_sold :
    ¬ ∀ (env : Env) (w w' : World) (e : Event) (u : Name), Reaches env w →
      env.isDexOpen = true → Frozen u w.state → env.self ∉ e.ctx.auths → Step env w e w' →
      BalancesKept u w.state w'.state := by
  intro hall
  let sale : Ctx × Action :=
    (sampleCtx 2000 "alice", .rmliquidity (nameLiteral "alice") ⟨1000, sampleSymbol "AB"⟩
      (sampleA 0).quantity (sampleB 0).quantity)
  obtain ⟨h, w, hplay, hobs⟩ := exists_of_play
    (show (play (stepWith sampleEnv) sampleWorld sampleFrozen).map (fun r =>
        (r.2.state.frozens.find? (nameLiteral "alice"),
          lpBalance r.2.state (sampleSymbol "AB").code (nameLiteral "alice"),
          (stepWith sampleEnv r.2 sale).map fun x =>
            lpBalance x.2.state (sampleSymbol "AB").code (nameLiteral "alice"))) =
      some (some (), 1000000, some 999000) by decide +kernel)
  simp only [Prod.mk.injEq] at hobs
  obtain ⟨hfrozen, hbefore, hafter⟩ := hobs
  obtain ⟨⟨e, w'⟩, hsale, hafter⟩ := Option.map_eq_some_iff.mp hafter
  have hctx : e.ctx = sale.1 := congrArg Prod.fst (input_of_stepWith _ _ _ _ _ hsale)
  have hkept := hall sampleEnv w w' e (nameLiteral "alice")
    (reaches_of_play sampleWorld_genesis hplay) rfl (by simp [Frozen, hfrozen])
    (by rw [hctx]; decide +kernel) (step_of_stepWith _ _ _ _ _ hsale)
  have hle := hkept (sampleSymbol "AB").code
  dsimp only at hafter
  rw [hbefore, hafter] at hle
  exact absurd hle (by decide)

end Runs

end Lemonade
