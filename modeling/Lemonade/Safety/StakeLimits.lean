import Lemonade.Safety.Failures
import Lemonade.Safety.Unlocking
import Mathlib.Tactic

/-!
# The limits of a product

A stake must keep two limits: what its owner holds of the product, and what all owners hold.
For an owner who has a row already the second check adds the balance of the row to a total
that contains it.  A stake that keeps both limits is then refused if the balance does not fit
a second time.
-/

namespace Lemonade

open Kernel

section Checks

/-- The failure is due to one of the two limits. -/
def Failure.IsLimit (e : Failure) : Prop := e = .check accountLimit ∨ e = .check productLimit

/-- The limit checks pass: the call does not fail with one of their messages. -/
def LimitsPass {α : Type} (r : Result α) : Prop := FailsOnly (fun e => ¬ e.IsLimit) r

variable {α : Type} {r : Result α}

theorem limitsPass_of_clean (h : Clean r) : LimitsPass r := by
  refine h.mono ?_
  rintro e he (rfl | rfl)
  · exact he.1 rfl
  · exact he.2 rfl

/-- The two checks stand before everything else that can fail. -/
theorem limitsPass_checks_iff
    {p q : Prop} [Decidable p] [Decidable q] (hr : Clean r) :
    LimitsPass (check p accountLimit >>= fun _ => check q productLimit >>= fun _ => r) ↔
      p ∧ q := by
  have hrest : FailsOnly (fun e => ¬ e.IsLimit) r := limitsPass_of_clean hr
  simp only [LimitsPass, failsOnly_bind_iff, failsOnly_check_iff, check_eq_ok_iff,
    Failure.IsLimit, true_or, or_true, not_true_eq_false, or_false]
  constructor
  · rintro ⟨hp, h⟩
    exact ⟨hp, (h ⟨⟩ hp).1⟩
  · rintro ⟨hp, hq⟩
    exact ⟨hp, fun _ _ => ⟨hq, fun _ _ => hrest⟩⟩

end Checks

section Limits

variable {env : Env} {ctx : Ctx} {s : State} {owner : Name} {quantity : Asset}
variable {pricePrediction : Option Name} {productId : ℕ} {product : Product} {config : Config}
variable {config2 : Config2} {key : Name × ℕ} {row : Staking} {held added : ℤ}

/-- With an amount added to what the owner holds, both limits are kept. -/
def WithinLimits (product : Product) (held added : ℤ) : Prop :=
  (product.amountPerAccount.amount.toInt = 0 ∨
      held + added ≤ product.amountPerAccount.amount.toInt) ∧
    (product.maximumAmountLimit.amount.toInt = 0 ∨
      product.currentAmount.amount.toInt + added ≤ product.maximumAmountLimit.amount.toInt)

/-- What the code checks: the total with what the owner holds, in 64 bits -/
def WithinChecks (product : Product) (held added : ℤ) : Prop :=
  (product.amountPerAccount.amount.toInt = 0 ∨
      held + added ≤ product.amountPerAccount.amount.toInt) ∧
    (product.maximumAmountLimit.amount.toInt = 0 ∨
      (product.currentAmount.amount.toInt + added + held).bmod (2 ^ 64) ≤
        product.maximumAmountLimit.amount.toInt)

/-- The limit of the product is judged wrongly: it is kept, but not with what the owner holds
counted twice; or it is not kept, and the sum of the check wraps. -/
def LimitMisjudged (product : Product) (held added : ℤ) : Prop :=
  (product.amountPerAccount.amount.toInt = 0 ∨
      held + added ≤ product.amountPerAccount.amount.toInt) ∧
    product.maximumAmountLimit.amount.toInt ≠ 0 ∧
    (product.currentAmount.amount.toInt + added ≤ product.maximumAmountLimit.amount.toInt ∧
        product.maximumAmountLimit.amount.toInt <
          product.currentAmount.amount.toInt + added + held ∧
        product.currentAmount.amount.toInt + added + held < 2 ^ 63 ∨
      product.maximumAmountLimit.amount.toInt < product.currentAmount.amount.toInt + added ∧
        2 ^ 63 ≤ product.currentAmount.amount.toInt + added + held ∧
        product.currentAmount.amount.toInt + added + held - 2 ^ 64 ≤
          product.maximumAmountLimit.amount.toInt)

theorem ne_zero_imp_iff {a : Int64} {p : Prop} : (a ≠ 0 → p) ↔ a.toInt = 0 ∨ p := by
  have hzero : a = 0 ↔ a.toInt = 0 := by
    rw [← Int64.toInt_inj, Int64.toInt_zero]
  rw [← hzero]
  tauto

theorem limitsPass_stakeNew_iff
    (hquantity : AmountInRange quantity.amount)
    (hcurrent : AmountInRange product.currentAmount.amount) :
    LimitsPass (stakeNew ctx s owner quantity pricePrediction productId product config2) ↔
      WithinChecks product 0 quantity.amount.toInt := by
  unfold stakeNew WithinChecks
  refine (limitsPass_checks_iff (by simp)).trans ?_
  have hsum := toInt_add_of_inRange_both hcurrent hquantity
  unfold AmountInRange maxAmount at hcurrent hquantity
  rw [ne_zero_imp_iff, ne_zero_imp_iff, Int64.le_iff_toInt_le, Int64.le_iff_toInt_le, hsum,
    zero_add, add_zero, Int.bmod_eq_of_le (by omega) (by omega)]

theorem limitsPass_stakeMore_iff [Doubles]
    (hquantity : AmountInRange quantity.amount) (hbalance : AmountInRange row.balance.amount) :
    LimitsPass (stakeMore env ctx s owner quantity productId product config config2 key row) ↔
      WithinChecks product row.balance.amount.toInt quantity.amount.toInt := by
  unfold stakeMore WithinChecks
  refine (limitsPass_checks_iff (by simp)).trans ?_
  rw [ne_zero_imp_iff, ne_zero_imp_iff, Int64.le_iff_toInt_le, Int64.le_iff_toInt_le,
    toInt_add_of_inRange_both hbalance hquantity, Int64.toInt_add, Int64.toInt_add,
    Int.bmod_add_bmod]

/-- What an owner holds of a product, zero without a row -/
def heldBy (s : State) (owner : Name) (productId : ℕ) : ℤ :=
  (findStaking s owner productId).elim 0 fun found => found.2.balance.amount.toInt

/-- The limit checks of a stake compare what the owner holds and the total. -/
theorem limitsPass_stake_iff [Doubles]
    {productName : Name} (hauth : owner ∈ ctx.auths) (hvalid : quantity.IsValid)
    (hpos : 0 < quantity.amount) (hproduct : findProduct s productName = some (productId, product))
    (hconfig : s.config ≠ none) (hconfig2 : s.config2 ≠ none)
    (hcurrent : AmountInRange product.currentAmount.amount)
    (hbalance : ∀ key row, findStaking s owner productId = some (key, row) →
      AmountInRange row.balance.amount) :
    LimitsPass (stake env ctx s owner quantity productName pricePrediction) ↔
      WithinChecks product (heldBy s owner productId) quantity.amount.toInt := by
  obtain ⟨config, hconfig⟩ := Option.ne_none_iff_exists'.mp hconfig
  obtain ⟨config2, hconfig2⟩ := Option.ne_none_iff_exists'.mp hconfig2
  have hquantity := hvalid.1
  unfold stake heldBy LimitsPass
  simp only [requireAuth, check, require, failsOnly_bind_iff, failsOnly_demand_iff,
    failsOnly_demandSome_iff, demand_eq_ok_iff, demandSome_eq_ok_iff, hauth, hvalid, hpos,
    hproduct, hconfig, hconfig2, true_or, true_and, forall_const, ne_eq, reduceCtorEq,
    not_false_eq_true, Option.some.injEq, forall_eq']
  cases hrow : findStaking s owner productId with
  | none =>
      simp only [failsOnly_bind_iff, failsOnly_pure, implies_true, and_true]
      exact limitsPass_stakeNew_iff hquantity hcurrent
  | some found =>
      obtain ⟨key, row⟩ := found
      exact limitsPass_stakeMore_iff hquantity (hbalance key row hrow)

/-- The checks and the limits disagree exactly where the limit of the product is misjudged. -/
theorem withinChecks_iff_withinLimits_iff
    (hcurrent : AmountInRange product.currentAmount.amount) (hheld : 0 ≤ held ∧ held ≤ maxAmount)
    (hadded : 0 < added ∧ added ≤ maxAmount) :
    (WithinChecks product held added ↔ WithinLimits product held added) ↔
      ¬ LimitMisjudged product held added := by
  unfold AmountInRange at hcurrent
  have hmax : maxAmount = 2 ^ 62 - 1 := rfl
  unfold WithinChecks WithinLimits LimitMisjudged
  by_cases hfits : product.currentAmount.amount.toInt + added + held < 2 ^ 63
  · rw [Int.bmod_eq_of_le (by omega) (by omega)]
    omega
  · have hwrap : (product.currentAmount.amount.toInt + added + held).bmod (2 ^ 64) =
        product.currentAmount.amount.toInt + added + held - 2 ^ 64 := by
      rw [Int.bmod_def]
      split_ifs <;> omega
    rw [hwrap]
    omega

end Limits

section Runs

variable {env : Env} {ctx : Ctx} {w : World} {owner productName : Name} {quantity : Asset}
variable {pricePrediction : Option Name} {productId : ℕ} {product : Product}

/-- The rows of an owner hold positive amounts. -/
theorem row_of_findStaking [Doubles]
    (hw : Reaches env w) {key : Name × ℕ} {row : Staking}
    (hrow : findStaking w.state owner productId = some (key, row)) :
    AmountInRange row.balance.amount ∧ 0 < row.balance.amount.toInt := by
  obtain ⟨hfind, -, -⟩ := findStaking_eq_some hrow
  obtain ⟨p, -, ok⟩ := (stakingLedger_of_reaches hw).stake key row hfind
  exact ⟨ok.inRange, Int64.lt_iff_toInt_lt.mp ok.positive⟩

theorem heldBy_inRange [Doubles]
    (hw : Reaches env w) (owner : Name) (productId : ℕ) :
    0 ≤ heldBy w.state owner productId ∧ heldBy w.state owner productId ≤ maxAmount := by
  unfold heldBy
  cases hrow : findStaking w.state owner productId with
  | none => exact ⟨le_refl 0, by decide⟩
  | some found =>
      obtain ⟨hrange, hpos⟩ := row_of_findStaking hw hrow
      exact ⟨hpos.le, hrange.2⟩

/-- The limit checks of a positive stake agree with the limits exactly if the limit of the
product is not misjudged.  A stake that succeeds keeps both limits. -/
theorem stake_limits_exact_iff [Doubles]
    (hw : Reaches env w) (hauth : owner ∈ ctx.auths) (hvalid : quantity.IsValid)
    (hpos : 0 < quantity.amount)
    (hproduct : findProduct w.state productName = some (productId, product))
    (hconfig : w.state.config ≠ none) (hconfig2 : w.state.config2 ≠ none) :
    ((LimitsPass (stake env ctx w.state owner quantity productName pricePrediction) ↔
        WithinLimits product (heldBy w.state owner productId) quantity.amount.toInt) ↔
      ¬ LimitMisjudged product (heldBy w.state owner productId) quantity.amount.toInt) ∧
    ∀ s' sent, stake env ctx w.state owner quantity productName pricePrediction = .ok (s', sent) →
      WithinLimits product (heldBy w.state owner productId) quantity.amount.toInt := by
  have hcurrent := totalsInRange_of_reaches hw _ _ (findProduct_eq_some hproduct).1
  have hadded : 0 < quantity.amount.toInt ∧ quantity.amount.toInt ≤ maxAmount :=
    ⟨Int64.lt_iff_toInt_lt.mp hpos, hvalid.1.2⟩
  have hheld := heldBy_inRange hw owner productId
  have hpass : LimitsPass (stake env ctx w.state owner quantity productName pricePrediction) ↔
      WithinChecks product (heldBy w.state owner productId) quantity.amount.toInt :=
    limitsPass_stake_iff hauth hvalid hpos hproduct hconfig hconfig2 hcurrent
      fun key row hrow => (row_of_findStaking hw hrow).1
  refine ⟨?_, ?_⟩
  · rw [hpass]
    exact withinChecks_iff_withinLimits_iff hcurrent hheld hadded
  · intro s' sent hok
    have hchecks : WithinChecks product (heldBy w.state owner productId)
        quantity.amount.toInt := by
      refine hpass.mp fun e he => ?_
      rw [hok] at he
      cases he
    -- the new total is an amount, so the sum of the check has not wrapped
    obtain ⟨_, p, _, hp, -, -, hadd⟩ := stake_products hok
    obtain ⟨-, rfl⟩ := Prod.mk.inj (Option.some.inj (hp.symm.trans hproduct))
    have htotal := (Asset.add_eq_ok_iff.mp hadd).2.1
    unfold AmountInRange at htotal
    rw [toInt_add_of_inRange_both hcurrent hvalid.1] at htotal
    unfold AmountInRange at hcurrent
    have hmax : maxAmount = 2 ^ 62 - 1 := rfl
    unfold WithinChecks at hchecks
    rw [Int.bmod_eq_of_le (by omega) (by omega)] at hchecks
    unfold WithinLimits
    omega

/-- A product with the limits 10000 and 15000, in which alice has 6000 -/
def sampleLimited : List (Ctx × Action) :=
  [(sampleCtx 1000 "lemonade.c", .init),
    (sampleCtx 1000 "lemonade.c",
      .addproduct (nameLiteral "basic") 1 2 false false ⟨10000, ledSymbol⟩
        (some ⟨15000, ledSymbol⟩) none),
    (sampleCtx 2000 "alice", sampleTransfer "alice" 6000 "stake/basic")]

open Binary64

theorem exists_sampleLimited :
    ∃ w product, Reaches sampleEnv w ∧
      findProduct w.state (nameLiteral "basic") = some (0, product) ∧
      product.amountPerAccount.amount.toInt = 10000 ∧
      product.maximumAmountLimit.amount.toInt = 15000 ∧
      product.currentAmount.amount.toInt = 6000 ∧
      heldBy w.state (nameLiteral "alice") 0 = 6000 ∧ w.state.config ≠ none ∧
      w.state.config2 ≠ none := by
  obtain ⟨h, w, hplay, hobs⟩ := exists_of_play
    (show (play (stepWith sampleEnv) sampleWorld sampleLimited).map (fun r =>
        ((findProduct r.2.state (nameLiteral "basic")).map fun found =>
            (found.1, found.2.amountPerAccount.amount.toInt,
              found.2.maximumAmountLimit.amount.toInt, found.2.currentAmount.amount.toInt),
          heldBy r.2.state (nameLiteral "alice") 0,
          r.2.state.config.isSome && r.2.state.config2.isSome)) =
      some (some (0, 10000, 15000, 6000), 6000, true) by decide +kernel)
  simp only [Prod.mk.injEq, Bool.and_eq_true] at hobs
  obtain ⟨hproduct, hheld, hconfig, hconfig2⟩ := hobs
  obtain ⟨⟨id, product⟩, hproduct, hvalues⟩ := Option.map_eq_some_iff.mp hproduct
  simp only [Prod.mk.injEq] at hvalues
  obtain ⟨rfl, hper, hmax, hcurrent⟩ := hvalues
  exact ⟨w, product, reaches_of_play sampleWorld_genesis hplay, hproduct, hper, hmax, hcurrent,
    hheld, Option.isSome_iff_ne_none.mp hconfig, Option.isSome_iff_ne_none.mp hconfig2⟩

/-- Alice adds 3000, which the code accepts. -/
theorem stake_limits_exact_sample :
    ∃ w product, Reaches sampleEnv w ∧
      findProduct w.state (nameLiteral "basic") = some (0, product) ∧
      (LimitsPass (stake sampleEnv (sampleCtx 3000 "alice") w.state (nameLiteral "alice")
        ⟨3000, ledSymbol⟩ (nameLiteral "basic") none) ↔ WithinLimits product 6000 3000) := by
  obtain ⟨w, product, hw, hproduct, hper, hmax, hcurrent, hheld, hconfig, hconfig2⟩ :=
    exists_sampleLimited
  have hauth : nameLiteral "alice" ∈ (sampleCtx 3000 "alice").auths := List.mem_singleton_self _
  have hvalid : (⟨3000, ledSymbol⟩ : Asset).IsValid := by decide +kernel
  have hpos : 0 < (⟨3000, ledSymbol⟩ : Asset).amount := by decide
  obtain ⟨hexact, -⟩ :=
    stake_limits_exact_iff hw hauth hvalid hpos hproduct hconfig hconfig2
  rw [hheld] at hexact
  refine ⟨w, product, hw, hproduct, hexact.mpr ?_⟩
  rintro ⟨-, -, hjudged⟩
  rw [hmax, hcurrent] at hjudged
  have hadded : (3000 : Int64).toInt = 3000 := by decide
  dsimp only at hjudged
  rw [hadded] at hjudged
  omega

/-- Alice adds 4000: she holds 10000, all hold 10000, and the code refuses. -/
theorem stake_refused_within_limits :
    ¬ ∀ (env : Env) (ctx : Ctx) (w : World) (owner productName : Name) (quantity : Asset)
      (pricePrediction : Option Name) (productId : ℕ) (product : Product), Reaches env w →
      owner ∈ ctx.auths → quantity.IsValid → 0 < quantity.amount →
      findProduct w.state productName = some (productId, product) → w.state.config ≠ none →
      w.state.config2 ≠ none →
      (LimitsPass (stake env ctx w.state owner quantity productName pricePrediction) ↔
        WithinLimits product (heldBy w.state owner productId) quantity.amount.toInt) := by
  intro hall
  obtain ⟨w, product, hw, hproduct, hper, hmax, hcurrent, hheld, hconfig, hconfig2⟩ :=
    exists_sampleLimited
  have hauth : nameLiteral "alice" ∈ (sampleCtx 3000 "alice").auths := List.mem_singleton_self _
  have hvalid : (⟨4000, ledSymbol⟩ : Asset).IsValid := by decide +kernel
  have hpos : 0 < (⟨4000, ledSymbol⟩ : Asset).amount := by decide
  have hadded : (4000 : Int64).toInt = 4000 := by decide
  have hiff := hall sampleEnv _ w _ _ _ none 0 product hw hauth hvalid hpos hproduct hconfig
    hconfig2
  rw [limitsPass_stake_iff hauth hvalid hpos hproduct hconfig hconfig2
    (totalsInRange_of_reaches hw _ _ (findProduct_eq_some hproduct).1)
    fun key row hrow => (row_of_findStaking hw hrow).1, hheld] at hiff
  unfold WithinChecks WithinLimits at hiff
  rw [hper, hmax, hcurrent] at hiff
  dsimp only at hiff
  rw [hadded, Int.bmod_eq_of_le (by omega) (by omega)] at hiff
  omega

end Runs

end Lemonade
