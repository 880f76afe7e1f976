import Lemonade.Safety.StakingPeriod
import Mathlib.Tactic

/-!
# The principal of a stake

`unstake` prices the whole term at one yield and subtracts all earlier claims.  With
the claims of the period the owner gets the balance and the interest at that yield; the
last payment alone can fall below the balance, if earlier claims were made at a higher
yield.  The amounts are those of idealised doubles.
-/

namespace Lemonade

open Kernel

section Principal

variable {env : Env} {owner productName : Name} {id i : Nat} {p : Product} {row : Staking}
variable {v w w' : World} {e : Event} {h : History}

/-- The claims of a run were made at yields of at most `cap`. -/
def ClaimsBelow (cap : ℚ) (owner productName : Name) (h : History) : Prop :=
  ∀ q ∈ h, q.2.action = .claimled owner productName → ∀ id i p row,
    StakeIn q.1.state owner productName id i p row → row.currentYield ≤ cap

/-- The yield that `unstake` pays is in the range of the product. -/
theorem minimumYield_le_finalYield
    {s : State} (inv : StakingLedger s) (hin : StakeIn s owner productName id i p row)
    (config2 : Config2) : p.minimumYield ≤ finalYield p config2 row := by
  have hyields := (inv.product id p hin.product).yields
  have hok := hin.stakeOk inv
  unfold finalYield
  split_ifs
  · exact hyields
  · exact le_refl _
  · exact le_refl _
  · exact hyields
  · exact hok.minimumYield_le
  · exact hok.minimumYield_le

theorem finalYield_le_maximumYield
    {s : State} (inv : StakingLedger s) (hin : StakeIn s owner productName id i p row)
    (config2 : Config2) : finalYield p config2 row ≤ p.maximumYield := by
  have hyields := (inv.product id p hin.product).yields
  have hok := hin.stakeOk inv
  unfold finalYield
  split_ifs
  · exact le_refl _
  · exact hyields
  · exact hyields
  · exact le_refl _
  · exact hok.le_maximumYield
  · exact hok.le_maximumYield

theorem Period.cleanStep [Doubles]
    {p₀ : Product} {row₀ : Staking} {cap : ℚ} (hrun : Run (Step env) v h w)
    (hkeep : ∀ q ∈ h, ¬ EndsPeriod env owner productName q.2.action)
    (inv : InPeriod owner productName id i p₀ row₀ v) (hmin : 1 ≤ p₀.minimumYield)
    (hbelow : ClaimsBelow cap owner productName h) :
    ∀ q ∈ h, CleanStep cap owner productName q := by
  intro q hq ha id' i' p' row' hin'
  obtain ⟨hterms, hok⟩ := inv.of_mem hrun hkeep hq hin'
  rw [← hterms.minimumYield] at hmin
  exact ⟨hbelow q hq ha _ _ _ _ hin', Or.inl (hmin.trans hok.minimumYield_le)⟩

open Idealised

/-- Every row that can come about lies in a period.  If the yields of its product do not
fall below one, the claims of the period and the payment of `unstake` make up the balance
and the interest of the whole term; the payment alone makes up the balance if no claim
was made at a higher yield than the one that `unstake` selects. -/
theorem principal_protected
    (hw : Reaches env w) (hin : StakeIn w.state owner productName id i p row)
    (hmin : 1 ≤ p.minimumYield) (hstep : Step env w e w')
    (hunstake : e.action = .unstake owner productName) :
    (∃ v h, Period env owner productName v h w) ∧
    ∀ v h, Period env owner productName v h w →
      ∃ config2, w.state.config2 = some config2 ∧
        (h.map (claims owner productName)).sum + ledPaid owner e.sent =
          row.balance.amount.toInt +
            trunc (interest row.balance.amount.toInt (finalYield p config2 row)
              (elapsed row (claimTime e.ctx p row))) ∧
        row.balance.amount.toInt ≤
          (h.map (claims owner productName)).sum + ledPaid owner e.sent ∧
        (ClaimsBelow (finalYield p config2 row) owner productName h →
          row.balance.amount.toInt ≤ ledPaid owner e.sent) := by
  refine ⟨exists_period hw hin, ?_⟩
  intro v h hperiod
  obtain ⟨_, _, _, -, -, inv, hterms, -, ledger, acc, hrewards⟩ := hperiod.spec hin
  obtain ⟨config2, hconfig2, hpaid⟩ := hperiod.paid_of_unstake hin hstep hunstake
  have hbalance := (hin.stakeOk ledger).positive_toInt.le
  rw [ledInterest_exact] at hpaid
  have hyield : 1 ≤ finalYield p config2 row :=
    hmin.trans (minimumYield_le_finalYield ledger hin config2)
  have hinterest : 0 ≤ trunc (interest row.balance.amount.toInt (finalYield p config2 row)
      (elapsed row (claimTime e.ctx p row))) :=
    trunc_nonneg (interest_nonneg hbalance hyield)
  refine ⟨config2, hconfig2, by omega, by omega, ?_⟩
  intro hbelow
  rw [hterms.minimumYield] at hmin
  have hcapped := hperiod.capped hin hyield
    (Period.cleanStep hperiod.begins.2.1 hperiod.begins.2.2.1 inv hmin hbelow)
  -- what was claimed is an integer below the interest of the whole term
  have hle := interest_mono hbalance (le_refl _) hyield
    (elapsed_le_claimTime acc.claimable hstep.1)
  have hclaimed : row.ledRewards.amount.toInt ≤
      trunc (interest row.balance.amount.toInt (finalYield p config2 row)
        (elapsed row (claimTime e.ctx p row))) := by
    rw [Capped, eps_eq, add_zero, one_pow, mul_one] at hcapped
    have hmono := trunc_mono (hcapped.trans hle)
    rwa [trunc_intCast] at hmono
  omega

/-- Alice stakes 100 LED for a year. -/
def sampleStake : List (Ctx × Action) :=
  sampleOpening ++ [(sampleCtx 2000 "alice", sampleTransfer "alice" 1000000 "stake/basic")]

/-- The administrator sets the yield of alice, and she claims her interest after half a
year. -/
def sampleClaim (yield : ℚ) : List (Ctx × Action) :=
  [(sampleCtx 2000 "lemonade.c", .changeyield (nameLiteral "alice") (nameLiteral "basic") yield),
    (sampleCtx 15726800 "alice", .claimled (nameLiteral "alice") (nameLiteral "basic"))]

/-- What the samples read of a state: name and lowest yield of the product, and balance
and product of alice's row. -/
def sampleView (s : State) : Option (Name × ℚ) × Option (ℤ × Nat) :=
  ((s.products.find? 0).map fun p => (p.name, p.minimumYield),
    (s.stakings.find? (nameLiteral "alice", 0)).map fun row =>
      (row.balance.amount.toInt, row.productId))

theorem stakeIn_of_sampleView
    {s : State} (h : sampleView s = (some (nameLiteral "basic", 1), some (1000000, 0))) :
    ∃ p row, StakeIn s (nameLiteral "alice") (nameLiteral "basic") 0 0 p row ∧
      p.minimumYield = 1 ∧ row.balance.amount.toInt = 1000000 := by
  obtain ⟨hproduct, hstake⟩ := Prod.mk.inj h
  obtain ⟨p, hp, hterms⟩ := Option.map_eq_some_iff.mp hproduct
  obtain ⟨row, hrow, hbalance⟩ := Option.map_eq_some_iff.mp hstake
  obtain ⟨hname, hyield⟩ := Prod.mk.inj hterms
  obtain ⟨hamount, hid⟩ := Prod.mk.inj hbalance
  exact ⟨p, row, ⟨hname, hid, hp, hrow⟩, hyield, hamount⟩

/-- Alice claims at a yield of 3/2 and unstakes after a year at a yield of 2. -/
theorem principal_protected_sample :
    ∃ w w' e v h, Reaches sampleEnv w ∧ Step sampleEnv w e w' ∧
      Period sampleEnv (nameLiteral "alice") (nameLiteral "basic") v h w ∧
      ledPaid (nameLiteral "alice") e.sent = 1750000 ∧
      1000000 ≤ (h.map (claims (nameLiteral "alice") (nameLiteral "basic"))).sum +
        ledPaid (nameLiteral "alice") e.sent := by
  let inputs := sampleStake ++ sampleClaim (3 / 2) ++
    [(sampleCtx 15726800 "lemonade.c",
      Action.changeyield (nameLiteral "alice") (nameLiteral "basic") 2)]
  let last := (sampleCtx 31451600 "alice",
    Action.unstake (nameLiteral "alice") (nameLiteral "basic"))
  obtain ⟨tr, w, hplay, hobs⟩ := exists_of_play
    (show (play (stepWith sampleEnv) sampleWorld inputs).map (fun r =>
        (sampleView r.2.state,
          (stepWith sampleEnv r.2 last).map fun x => ledPaid (nameLiteral "alice") x.1.sent)) =
      some ((some (nameLiteral "basic", 1), some (1000000, 0)), some 1750000) by decide +kernel)
  obtain ⟨hview, hlast⟩ := Prod.mk.inj hobs
  obtain ⟨p, row, hin, hmin, hbalance⟩ := stakeIn_of_sampleView hview
  obtain ⟨⟨e, w'⟩, hstep, hpaid⟩ := Option.map_eq_some_iff.mp hlast
  have hreach := reaches_of_play sampleWorld_genesis hplay
  have hstep' := step_of_stepWith _ _ _ _ _ hstep
  obtain ⟨⟨v, h, hperiod⟩, hall⟩ := principal_protected hreach hin hmin.ge hstep'
    (congrArg Prod.snd (input_of_stepWith _ _ _ _ _ hstep))
  obtain ⟨_, -, -, hle, -⟩ := hall v h hperiod
  rw [hbalance] at hle
  exact ⟨w, w', e, v, h, hreach, hstep', hperiod, hpaid, hle⟩

/-- Alice claims at a yield of 2, the yield is set back to 1, and `unstake` pays half of
her balance. -/
theorem principal_not_paid_by_unstake_alone :
    ¬ ∀ (env : Env) (w w' : World) (e : Event) (owner productName : Name) (id i : Nat)
      (p : Product) (row : Staking), Reaches env w →
      StakeIn w.state owner productName id i p row → 1 ≤ p.minimumYield → Step env w e w' →
      e.action = .unstake owner productName →
      row.balance.amount.toInt ≤ ledPaid owner e.sent := by
  intro hall
  let inputs := sampleStake ++ sampleClaim 2 ++
    [(sampleCtx 15726800 "lemonade.c",
      Action.changeyield (nameLiteral "alice") (nameLiteral "basic") 1)]
  let last := (sampleCtx 15726800 "alice",
    Action.unstake (nameLiteral "alice") (nameLiteral "basic"))
  obtain ⟨tr, w, hplay, hobs⟩ := exists_of_play
    (show (play (stepWith sampleEnv) sampleWorld inputs).map (fun r =>
        (sampleView r.2.state,
          (stepWith sampleEnv r.2 last).map fun x => ledPaid (nameLiteral "alice") x.1.sent)) =
      some ((some (nameLiteral "basic", 1), some (1000000, 0)), some 500000) by decide +kernel)
  obtain ⟨hview, hlast⟩ := Prod.mk.inj hobs
  obtain ⟨p, row, hin, hmin, hbalance⟩ := stakeIn_of_sampleView hview
  obtain ⟨⟨e, w'⟩, hstep, hpaid⟩ := Option.map_eq_some_iff.mp hlast
  have hle := hall sampleEnv w w' e _ _ 0 0 p row (reaches_of_play sampleWorld_genesis hplay) hin
    hmin.ge (step_of_stepWith _ _ _ _ _ hstep)
    (congrArg Prod.snd (input_of_stepWith _ _ _ _ _ hstep))
  dsimp only at hpaid
  omega

end Principal

end Lemonade
