import Lemonade.Safety.Maturity
import Mathlib.Tactic

/-!
# The settlement in LED

What a stake earns in LED is settled by `unstake`: whatever has been claimed before is
taken off, so neither the number nor the time of the claims matters.  The amounts are those
of idealised doubles.
-/

namespace Lemonade

open Kernel

section Settlement

variable {env : Env} {owner productName : Name} {id i : Nat} {p : Product} {row : Staking}
variable {v w w' : World} {e : Event} {h : History}

/-- Seconds that `unstake` pays interest for -/
def settledSecs (ctx : Ctx) (p : Product) (row : Staking) : ℕ :=
  if p.duration ≠ 0 then row.endedAt.toNat - row.startedAt.toNat
  else ctx.now.toNat - row.startedAt.toNat

/-- What the owner has been paid in LED in a period that the event `e` ends -/
def settled (owner productName : Name) (h : History) (e : Event) : ℤ :=
  (h.map (claims owner productName)).sum + ledPaid owner e.sent

theorem elapsed_eq_settledSecs [Doubles]
    {ctx : Ctx} {s s' : State} {sent : List Inline} (inv : StakingLedger s)
    (hin : StakeIn s owner productName id i p row)
    (hterm : p.duration ≠ 0 → row.startedAt ≤ row.endedAt) (hstart : row.startedAt ≤ ctx.now)
    (h : unstake env ctx s owner productName = .ok (s', sent)) :
    elapsed row (claimTime ctx p row) = settledSecs ctx p row := by
  unfold settledSecs
  split_ifs with hdur
  · exact elapsed_claimTime_of_unstake inv hin hdur (hterm hdur) h
  · rw [claimTime, if_neg hdur]
    exact elapsed_of_le hstart

open Idealised

/-- The settlement of a period in closed form -/
theorem Period.settled_eq
    (hperiod : Period env owner productName v h w)
    (hin : StakeIn w.state owner productName id i p row)
    (hterm : p.duration ≠ 0 → row.startedAt ≤ row.endedAt)
    (hstep : Step env w e w') (hunstake : e.action = .unstake owner productName) :
    ∃ config2, w.state.config2 = some config2 ∧
      settled owner productName h e = row.balance.amount.toInt +
        trunc ((row.balance.amount.toInt : ℚ) * (finalYield p config2 row - 1) *
          settledSecs e.ctx p row / secondsPerYear.toNat) := by
  obtain ⟨config2, hconfig2, hpaid⟩ := hperiod.paid_of_unstake hin hstep hunstake
  obtain ⟨_, _, _, -, -, -, -, -, ledger, acc, -⟩ := hperiod.spec hin
  obtain ⟨hnow, hexec, -⟩ := hstep
  rw [hunstake] at hexec
  have hstart := UInt32.le_trans acc.started_le hnow
  rw [ledInterest_exact, elapsed_eq_settledSecs ledger hin hterm hstart hexec] at hpaid
  refine ⟨config2, hconfig2, ?_⟩
  have hform : interest row.balance.amount.toInt (finalYield p config2 row)
      (settledSecs e.ctx p row) =
      (row.balance.amount.toInt : ℚ) * (finalYield p config2 row - 1) *
        settledSecs e.ctx p row / secondsPerYear.toNat := by
    unfold interest
    ring
  rw [settled, ← hform, hpaid]

/-- Two periods of one stake agree on its row and on the terms of its product. -/
theorem Period.agree [Doubles]
    {h₂ : History} {w₂ : World} {id₂ i₂ : Nat} {p₂ : Product} {row₂ : Staking}
    (hperiod : Period env owner productName v h w)
    (hin : StakeIn w.state owner productName id i p row)
    (hperiod₂ : Period env owner productName v h₂ w₂)
    (hin₂ : StakeIn w₂.state owner productName id₂ i₂ p₂ row₂) :
    SameTerms p p₂ ∧ SameStake row row₂ := by
  obtain ⟨_, p₀, row₀, -, hin₀, inv, hterms, hsame, -⟩ := hperiod.spec hin
  obtain ⟨_, q₀, old₀, -, hin₀', -, hterms₂, hsame₂, -⟩ := hperiod₂.spec hin₂
  obtain ⟨-, -, rfl, rfl⟩ := hin₀.unique inv.ledger hin₀'
  exact ⟨hterms.symm.trans hterms₂, hsame.symm.trans hsame₂⟩

/-- In every period that ends by `unstake` the owner is paid the balance and the interest
of the whole time at the yield that `unstake` selects.  Another run of the same stake, with
other claims, pays the same. -/
theorem led_settlement_exact
    (hperiod : Period env owner productName v h w)
    (hin : StakeIn w.state owner productName id i p row)
    (hterm : p.duration ≠ 0 → row.startedAt ≤ row.endedAt)
    (hstep : Step env w e w') (hunstake : e.action = .unstake owner productName) :
    ∃ config2, w.state.config2 = some config2 ∧
      settled owner productName h e = row.balance.amount.toInt +
        trunc ((row.balance.amount.toInt : ℚ) * (finalYield p config2 row - 1) *
          settledSecs e.ctx p row / secondsPerYear.toNat) ∧
      ∀ h₂ w₂ id₂ i₂ p₂ row₂ e₂ w₂' config2₂,
        Period env owner productName v h₂ w₂ →
        StakeIn w₂.state owner productName id₂ i₂ p₂ row₂ →
        Step env w₂ e₂ w₂' → e₂.action = .unstake owner productName →
        w₂.state.config2 = some config2₂ →
        finalYield p₂ config2₂ row₂ = finalYield p config2 row →
        (p.duration = 0 → e₂.ctx.now = e.ctx.now) →
        settled owner productName h₂ e₂ = settled owner productName h e := by
  obtain ⟨config2, hconfig2, hsettled⟩ := hperiod.settled_eq hin hterm hstep hunstake
  refine ⟨config2, hconfig2, hsettled, ?_⟩
  intro h₂ w₂ id₂ i₂ p₂ row₂ e₂ w₂' config2₂ hperiod₂ hin₂ hstep₂ hunstake₂ hconfig2₂ hyield hnow
  obtain ⟨hterms, hsame⟩ := hperiod.agree hin hperiod₂ hin₂
  have hterm₂ : p₂.duration ≠ 0 → row₂.startedAt ≤ row₂.endedAt := by
    rw [hterms.duration, hsame.startedAt, hsame.endedAt]
    exact hterm
  have hsecs : settledSecs e₂.ctx p₂ row₂ = settledSecs e.ctx p row := by
    unfold settledSecs
    rw [hterms.duration, hsame.startedAt, hsame.endedAt]
    split_ifs with hdur
    · rfl
    · rw [hnow (not_not.mp hdur)]
  obtain ⟨_, hfound, hsettled₂⟩ := hperiod₂.settled_eq hin₂ hterm₂ hstep₂ hunstake₂
  obtain rfl := Option.some.inj (hfound.symm.trans hconfig2₂)
  rw [hsettled₂, hsettled, hyield, hsecs, hsame.balance]

/-- The stake of alice, the last of the inputs `sampleStake`. -/
def sampleDeposit : Ctx × Action :=
  (sampleCtx 2000 "alice", sampleTransfer "alice" 1000000 "stake/basic")

/-- Alice unstakes after a year. -/
def sampleUnstake : Ctx × Action :=
  (sampleCtx 31451600 "alice", .unstake (nameLiteral "alice") (nameLiteral "basic"))

/-- The settlement of alice's stake after some inputs, and the yield it is made at. -/
def sampleSettled (v : World) (inputs : List (Ctx × Action)) : Option (List ℚ) :=
  (play (stepWith sampleEnv) v inputs).bind fun r =>
    (stepWith sampleEnv r.2 sampleUnstake).bind fun x =>
      (r.2.state.products.find? 0).bind fun p =>
        (r.2.state.stakings.find? (nameLiteral "alice", 0)).bind fun row =>
          r.2.state.config2.bind fun config2 =>
            if p.name = nameLiteral "basic" ∧ row.productId = 0 ∧ p.duration = 0 then
              some [settled (nameLiteral "alice") (nameLiteral "basic") r.1 x.1,
                finalYield p config2 row]
            else none

theorem exists_of_sampleSettled
    {inputs : List (Ctx × Action)} {total yield : ℚ}
    (h : sampleSettled v inputs = some [total, yield]) :
    ∃ h w e w' p row config2, play (stepWith sampleEnv) v inputs = some (h, w) ∧
      Step sampleEnv w e w' ∧ e.ctx = sampleUnstake.1 ∧ e.action = sampleUnstake.2 ∧
      StakeIn w.state (nameLiteral "alice") (nameLiteral "basic") 0 0 p row ∧ p.duration = 0 ∧
      w.state.config2 = some config2 ∧ finalYield p config2 row = yield ∧
      settled (nameLiteral "alice") (nameLiteral "basic") h e = total := by
  simp only [sampleSettled, Option.bind_eq_some_iff, Option.ite_none_right_eq_some,
    Option.some.injEq, List.cons.injEq, and_true] at h
  obtain ⟨⟨h, w⟩, hplay, ⟨e, w'⟩, hstep, p, hp, row, hrow, config2, hconfig2,
    ⟨hname, hid, hdur⟩, htotal, hyield⟩ := h
  have hinput := input_of_stepWith _ _ _ _ _ hstep
  exact ⟨h, w, e, w', p, row, config2, hplay, step_of_stepWith _ _ _ _ _ hstep,
    congrArg Prod.fst hinput, congrArg Prod.snd hinput, ⟨hname, hid, hp, hrow⟩, hdur, hconfig2,
    hyield, htotal⟩

/-- With a claim after half a year and without it, alice is paid 150 LED after a year. -/
theorem led_settlement_exact_sample :
    ∃ v h w e h₂ w₂ e₂,
      Period sampleEnv (nameLiteral "alice") (nameLiteral "basic") v h w ∧
      Period sampleEnv (nameLiteral "alice") (nameLiteral "basic") v h₂ w₂ ∧
      h.length = 2 ∧ h₂.length = 1 ∧
      settled (nameLiteral "alice") (nameLiteral "basic") h e = 1500000 ∧
      settled (nameLiteral "alice") (nameLiteral "basic") h₂ e₂ =
        settled (nameLiteral "alice") (nameLiteral "basic") h e := by
  let claim := sampleClaim (3 / 2)
  obtain ⟨⟨tr, u⟩, hopening, hobs⟩ := Option.bind_eq_some_iff.mp
    (show ((play (stepWith sampleEnv) sampleWorld sampleOpening).bind fun r =>
        (stepWith sampleEnv r.2 sampleDeposit).map fun x =>
          (sampleSettled x.2 claim, sampleSettled x.2 (claim.take 1))) =
      some (some [1500000, 3 / 2], some [1500000, 3 / 2]) by decide +kernel)
  obtain ⟨⟨b, v⟩, hstake, hends⟩ := Option.map_eq_some_iff.mp hobs
  obtain ⟨hend, hend₂⟩ := Prod.mk.inj hends
  have hstakes : Stakes sampleEnv (nameLiteral "alice") (nameLiteral "basic") sampleDeposit.2 :=
    ⟨_, _, _, _, rfl, by decide +kernel, by decide +kernel, by decide +kernel⟩
  have hperiod : ∀ {inputs : List (Ctx × Action)} {h : History} {w : World}, inputs.Sublist claim →
      play (stepWith sampleEnv) v inputs = some (h, w) →
      Period sampleEnv (nameLiteral "alice") (nameLiteral "basic") v h w := by
    intro inputs h w hsub hplay
    refine period_of_play sampleWorld_genesis hopening hstake hstakes hplay ?_
    intro y hy
    have hmem := hsub.subset hy
    simp only [claim, sampleClaim, List.mem_cons, List.not_mem_nil, or_false] at hmem
    rcases hmem with rfl | rfl
    · exact not_endsPeriod (by simp) (by simp)
    · exact not_endsPeriod (by simp) (by simp)
  obtain ⟨h, w, e, w', p, row, config2, hplay, hstep, hctx, hunstake, hin, hdur, hconfig2, hyield,
    htotal⟩ := exists_of_sampleSettled hend
  obtain ⟨h₂, w₂, e₂, w₂', p₂, row₂, config2₂, hplay₂, hstep₂, hctx₂, hunstake₂, hin₂, hdur₂,
    hconfig2₂, hyield₂, htotal₂⟩ := exists_of_sampleSettled hend₂
  have hfirst := hperiod (List.Sublist.refl claim) hplay
  have hsecond := hperiod (List.take_sublist 1 claim) hplay₂
  obtain ⟨_, hfound, -, hall⟩ := led_settlement_exact hfirst hin (fun h => absurd hdur h) hstep
    hunstake
  obtain rfl := Option.some.inj (hfound.symm.trans hconfig2)
  have hsame := hall h₂ w₂ 0 0 p₂ row₂ e₂ w₂' config2₂ hsecond hin₂ hstep₂ hunstake₂ hconfig2₂
    (hyield₂.trans hyield.symm) (fun _ => by rw [hctx, hctx₂])
  have hlen : h.length = 2 := by
    have hmap := congrArg List.length (map_of_play (input_of_stepWith sampleEnv) _ hplay)
    simpa [claim, sampleClaim] using hmap
  have hlen₂ : h₂.length = 1 := by
    have hmap := congrArg List.length (map_of_play (input_of_stepWith sampleEnv) _ hplay₂)
    simpa [claim, sampleClaim] using hmap
  exact ⟨v, h, w, e, h₂, w₂, e₂, hfirst, hsecond, hlen, hlen₂, by exact_mod_cast htotal, hsame⟩

end Settlement

end Lemonade
