import Lemonade.Safety.Principal
import Mathlib.Tactic

/-!
# Interest and maturity

Claims and `unstake` stop the interest of a fixed term at its end; the settlement of a
stake that is raised does not, and pays for the time after the end as well.  The interest of
the term at the highest yield bounds what is paid for it up to the rounding of doubles, and
exactly if no integer lies between the bound and its roundings (`NoCarry`).
-/

namespace Lemonade

open Kernel

section Maturity

variable {env : Env} {owner productName : Name} {id i : Nat} {p : Product} {row : Staking}
variable {v w w' : World} {e : Event} {h : History}

/-- Seconds of the term of a row -/
def term (row : Staking) : ℕ := row.endedAt.toNat - row.startedAt.toNat

/-- The claims of a run take no product of balance and time out of range at a negative
rate. -/
def CleanClaims (owner productName : Name) (h : History) : Prop :=
  ∀ q ∈ h, q.2.action = .claimled owner productName → ∀ id i p row,
    StakeIn q.1.state owner productName id i p row →
      CleanClaim row (claimTime q.2.ctx p row - row.lastClaimLedReward)

/-- No claim reaches beyond the end of the term. -/
theorem elapsed_le_term
    {time x : UInt32} (hx : Claimable p.duration row time x) (hdur : p.duration ≠ 0)
    (hterm : row.startedAt ≤ row.endedAt) : elapsed row x ≤ term row := by
  have hmono : ∀ y : UInt32, row.startedAt ≤ y → y ≤ row.endedAt → elapsed row y ≤ term row := by
    intro y hstart hend
    rw [elapsed_of_le hstart, term]
    exact Nat.sub_le_sub_right (UInt32.le_iff_toNat_le.mp hend) _
  rcases hx with rfl | ⟨-, rfl, -⟩ | ⟨hstart, -, hend⟩
  · rw [elapsed_startedAt]
    exact Nat.zero_le _
  · exact hmono _ hterm (UInt32.le_refl _)
  · exact hmono _ hstart (hend hdur)

/-- Rates are never negative in a product whose yields do not fall below one. -/
theorem Period.cleanClaims [Doubles]
    (hperiod : Period env owner productName v h w)
    (hin : StakeIn w.state owner productName id i p row) (hmin : 1 ≤ p.minimumYield) :
    CleanClaims owner productName h := by
  obtain ⟨_, p₀, row₀, -, -, inv, hterms, -⟩ := hperiod.spec hin
  obtain ⟨_, _, -, -, -, hrun, hkeep⟩ := hperiod
  rw [hterms.minimumYield] at hmin
  intro q hq ha id' i' p' row' hin'
  obtain ⟨hterms', hok⟩ := inv.of_mem hrun hkeep hq hin'
  rw [← hterms'.minimumYield] at hmin
  exact Or.inl (hmin.trans hok.minimumYield_le)

theorem Period.cleanStep_maximumYield [Doubles]
    {p₀ : Product} {row₀ : Staking} (hrun : Run (Step env) v h w)
    (hkeep : ∀ q ∈ h, ¬ EndsPeriod env owner productName q.2.action)
    (inv : InPeriod owner productName id i p₀ row₀ v)
    (hclean : CleanClaims owner productName h) :
    ∀ q ∈ h, CleanStep p₀.maximumYield owner productName q := by
  intro q hq ha id' i' p' row' hin'
  obtain ⟨hterms, hok⟩ := inv.of_mem hrun hkeep hq hin'
  refine ⟨?_, hclean q hq ha _ _ _ _ hin'⟩
  rw [← hterms.maximumYield]
  exact hok.le_maximumYield

/-- At the end of a term, `unstake` counts all of it. -/
theorem elapsed_claimTime_of_unstake [Doubles]
    {ctx : Ctx} {s s' : State} {sent : List Inline} (inv : StakingLedger s)
    (hin : StakeIn s owner productName id i p row) (hdur : p.duration ≠ 0)
    (hterm : row.startedAt ≤ row.endedAt)
    (h : unstake env ctx s owner productName = .ok (s', sent)) :
    elapsed row (claimTime ctx p row) = term row := by
  obtain ⟨_, _, _, _, _, _, _, _, _, _, _, _, _, -, -, -, -, -, hproduct, hrow, hended, -⟩ :=
    unstake_eq_ok h
  obtain ⟨-, rfl, rfl, rfl⟩ := hin.eq_of_find inv hproduct hrow
  have hle : ∀ x : UInt32, (x ≠ 0 → x ≤ ctx.now) → x ≤ ctx.now := by
    intro x hx
    by_cases hzero : x = 0
    · rw [hzero]
      exact UInt32.le_iff_toNat_le.mpr (Nat.zero_le _)
    · exact hx hzero
  rw [claimTime, if_pos hdur, if_pos (hle _ hended), elapsed_of_le hterm, term]

/-- What a claim pays is counted up to the end of the term. -/
theorem claims_of_claimled [Doubles]
    {env : Env} (inv : StakingLedger w.state)
    (hin : StakeIn w.state owner productName id i p row) (hdur : p.duration ≠ 0)
    (hstep : Step env w e w') (ha : e.action = .claimled owner productName) :
    ∃ amount, claimAmount row ((if row.endedAt ≤ e.ctx.now then row.endedAt else e.ctx.now) -
        row.lastClaimLedReward) = .ok amount ∧
      claims owner productName (w, e) = max 0 amount.toInt := by
  obtain ⟨-, hexec, -⟩ := hstep
  rw [ha] at hexec
  obtain ⟨_, _, _, _, amount, -, hproduct, hrow, hamount, hcase⟩ := claimled_eq_ok hexec
  obtain ⟨-, rfl, rfl, rfl⟩ := hin.eq_of_find inv hproduct hrow
  rw [claimTime, if_pos hdur] at hamount
  refine ⟨amount, hamount, ?_⟩
  rcases hcase with ⟨hpos, -, hsent⟩ | ⟨_, hpos, -, -, hsent⟩
  · rw [Int64.not_lt, Int64.le_iff_toInt_le, Int64.toInt_zero] at hpos
    simp [claims, claimPaid, ha, hsent, hpos]
  · have hpos' : 0 < amount.toInt := Int64.lt_iff_toInt_lt.mp hpos
    simp [claims, claimPaid, ha, hsent, Inline.led, hpos'.le]

/-- What the owner is paid for a period is at most `bound`: while the period lasts, when it ends
by `unstake`, and when it ends by a stake that is made before the term is over. -/
structure InterestWithin [Doubles] (env : Env) (owner productName : Name) (h : History)
    (w : World) (row : Staking) (bound : ℚ) : Prop where
  lasting : ((h.map (claims owner productName)).sum : ℚ) ≤ bound
  unstaked : ∀ e w', Step env w e w' → e.action = .unstake owner productName →
    (((h.map (claims owner productName)).sum + ledPaid owner e.sent -
      row.balance.amount.toInt : ℤ) : ℚ) ≤ bound
  raised : ∀ e w', Step env w e w' → Stakes env owner productName e.action →
    e.ctx.now ≤ row.endedAt →
    (((h.map (claims owner productName)).sum + ledPaid owner e.sent : ℤ) : ℚ) ≤ bound

/-- What is paid is an integer. -/
theorem InterestWithin.of_integers [Doubles]
    {bound bound' : ℚ} (hle : ∀ n : ℤ, n ≤ bound → n ≤ bound')
    (hwithin : InterestWithin env owner productName h w row bound) :
    InterestWithin env owner productName h w row bound' where
  lasting := hle _ hwithin.lasting
  unstaked := fun e w' hstep ha => hle _ (hwithin.unstaked e w' hstep ha)
  raised := fun e w' hstep ha hended => hle _ (hwithin.raised e w' hstep ha hended)

/-- No integer lies between a bound and its roundings. -/
def NoCarry [Doubles] (bound : ℚ) : Prop := ∀ n : ℤ, n ≤ bound * (1 + eps) ^ 5 → n ≤ bound

/-- In every period of a product with a term the owner is paid at most the interest of the term
at the highest yield, up to rounding, and exactly if rounding reaches no integer.  Claims and
`unstake` count no time after the end of the term. -/
theorem interest_ends_at_maturity [Doubles]
    (hperiod : Period env owner productName v h w)
    (hin : StakeIn w.state owner productName id i p row) (hdur : p.duration ≠ 0)
    (hmax : 1 ≤ p.maximumYield) (hterm : row.startedAt ≤ row.endedAt)
    (hclean : CleanClaims owner productName h) :
    InterestWithin env owner productName h w row
      (interest row.balance.amount.toInt p.maximumYield (term row) * (1 + eps) ^ 5) ∧
    (NoCarry (interest row.balance.amount.toInt p.maximumYield (term row)) →
      InterestWithin env owner productName h w row
        (interest row.balance.amount.toInt p.maximumYield (term row))) ∧
    (∀ e w', Step env w e w' → e.action = .claimled owner productName →
      ∃ amount, claimAmount row ((if row.endedAt ≤ e.ctx.now then row.endedAt else e.ctx.now) -
          row.lastClaimLedReward) = .ok amount ∧
        claims owner productName (w, e) = max 0 amount.toInt) ∧
    ∀ e w', Step env w e w' → e.action = .unstake owner productName →
      ∃ config2, w.state.config2 = some config2 ∧
        (h.map (claims owner productName)).sum + ledPaid owner e.sent -
            row.balance.amount.toInt =
          trunc (ledInterest row.balance.amount.toInt (finalYield p config2 row) (term row)) := by
  obtain ⟨_, _, _, -, -, inv, hterms, -, ledger, acc, hrewards⟩ := hperiod.spec hin
  have hok := hin.stakeOk ledger
  have hbalance := hok.positive_toInt.le
  have hcapped : Capped p.maximumYield row := by
    refine hperiod.capped hin hmax ?_
    rw [hterms.maximumYield]
    exact Period.cleanStep_maximumYield hperiod.begins.2.1 hperiod.begins.2.2.1 inv hclean
  have hclaims : (row.ledRewards.amount.toInt : ℚ) ≤
      interest row.balance.amount.toInt p.maximumYield (term row) * (1 + eps) ^ 5 := by
    have hmono := interest_mono hbalance (le_refl _) hmax
      (elapsed_le_term acc.claimable hdur hterm)
    have hfactor : (1 + eps) ^ 4 ≤ (1 + eps) ^ 5 :=
      pow_le_pow_right₀ (le_add_of_nonneg_right Doubles.eps_nonneg) (by norm_num)
    exact hcapped.trans (mul_le_mul hmono hfactor (Doubles.one_add_eps_pow_nonneg 4)
      (interest_nonneg hbalance hmax))
  have hunstake : ∀ e w', Step env w e w' → e.action = .unstake owner productName →
      ∃ config2, w.state.config2 = some config2 ∧
        (h.map (claims owner productName)).sum + ledPaid owner e.sent -
            row.balance.amount.toInt =
          trunc (ledInterest row.balance.amount.toInt (finalYield p config2 row) (term row)) := by
    intro e w' hstep ha
    obtain ⟨config2, hconfig2, hpaid⟩ := hperiod.paid_of_unstake hin hstep ha
    obtain ⟨-, hexec, -⟩ := hstep
    rw [ha] at hexec
    rw [elapsed_claimTime_of_unstake ledger hin hdur hterm hexec] at hpaid
    exact ⟨config2, hconfig2, by omega⟩
  have hwithin : InterestWithin env owner productName h w row
      (interest row.balance.amount.toInt p.maximumYield (term row) * (1 + eps) ^ 5) := by
    refine ⟨?_, ?_, ?_⟩
    · rw [← hrewards]
      exact hclaims
    · intro e w' hstep ha
      obtain ⟨config2, -, htotal⟩ := hunstake e w' hstep ha
      rw [htotal]
      have hyield := finalYield_le_maximumYield ledger hin config2
      exact trunc_ledInterest_le hbalance hyield le_rfl hmax
    · rintro e w' ⟨hnow, hexec, -⟩ hstakes hended
      obtain ⟨_, _, hstake⟩ := stake_of_exec hstakes hexec
      have hpaid := ledPaid_of_stake ledger hin acc hstake
      have hstart := UInt32.le_trans acc.started_le hnow
      have helapsed : elapsed row e.ctx.now ≤ term row :=
        elapsed_le_term (Or.inr (Or.inr ⟨hstart, UInt32.le_refl _, fun _ => hended⟩)) hdur hterm
      rw [← hrewards, hpaid]
      rcases le_total 0 (trunc (ledInterest row.balance.amount.toInt row.currentYield
        (elapsed row e.ctx.now)) - row.ledRewards.amount.toInt) with hmore | hnone
      · rw [max_eq_right hmore, add_sub_cancel]
        exact trunc_ledInterest_le hbalance hok.le_maximumYield helapsed hmax
      · rw [max_eq_left hnone, add_zero]
        exact hclaims
  exact ⟨hwithin, fun hcarry => hwithin.of_integers hcarry,
    fun e w' hstep ha => claims_of_claimled ledger hin hdur hstep ha, hunstake⟩

/-- Alice stakes 100 LED for ten days at a yield of 2. -/
def sampleTerm : List (Ctx × Action) :=
  [(sampleCtx 1000 "lemonade.c", .init),
    (sampleCtx 1000 "lemonade.c",
      .addproduct (nameLiteral "fixed") 2 2 false false zeroLed none (some 10)),
    (sampleCtx 2000 "alice", sampleTransfer "alice" 1000000 "stake/fixed")]

/-- The terms of alice's stake in a state. -/
def sampleTerms (s : State) : Option (Name × List ℚ) × Option (List ℤ) :=
  ((s.products.find? 0).map fun p =>
      (p.name, [p.duration.toNat, p.minimumYield, p.maximumYield]),
    (s.stakings.find? (nameLiteral "alice", 0)).map fun row =>
      [row.productId, row.balance.amount.toInt, row.startedAt.toNat, row.endedAt.toNat,
        row.ledRewards.amount.toInt])

theorem stakeIn_of_sampleTerms
    {s : State} {rewards : ℤ} (h : sampleTerms s =
      (some (nameLiteral "fixed", [10, 2, 2]), some [0, 1000000, 2000, 866000, rewards])) :
    ∃ p row, StakeIn s (nameLiteral "alice") (nameLiteral "fixed") 0 0 p row ∧
      p.duration ≠ 0 ∧ p.minimumYield = 2 ∧ p.maximumYield = 2 ∧
      row.balance.amount.toInt = 1000000 ∧ row.startedAt ≤ row.endedAt ∧ term row = 864000 ∧
      row.ledRewards.amount.toInt = rewards := by
  obtain ⟨hproduct, hstake⟩ := Prod.mk.inj h
  obtain ⟨p, hp, hterms⟩ := Option.map_eq_some_iff.mp hproduct
  obtain ⟨row, hrow, hview⟩ := Option.map_eq_some_iff.mp hstake
  simp only [Prod.mk.injEq, List.cons.injEq, and_true] at hterms hview
  obtain ⟨hname, hduration, hmin, hmax⟩ := hterms
  obtain ⟨hid, hbalance, hstart, hend, hrewards⟩ := hview
  refine ⟨p, row, ⟨hname, by omega, hp, hrow⟩, ?_, hmin, hmax, hbalance, ?_, ?_, hrewards⟩
  · intro hzero
    rw [hzero] at hduration
    norm_num at hduration
  · rw [UInt32.le_iff_toNat_le]
    omega
  · unfold term
    omega

open Binary64

/-- The interest of ten days, 27472.5 units, is far from the next integer. -/
theorem noCarry_sample : NoCarry (interest 1000000 2 864000) := by
  have hyear : secondsPerYear.toNat = 31449600 := rfl
  have heps : eps = 1 / 2 ^ 53 := rfl
  intro n hn
  rw [interest, hyear, heps] at hn
  have hlt : (n : ℚ) < ((27473 : ℤ) : ℚ) := hn.trans_lt (by norm_num)
  have hle : n ≤ 27472 := by
    have hint := Int.cast_lt.mp hlt
    omega
  have hle' : (n : ℚ) ≤ ((27472 : ℤ) : ℚ) := Int.cast_le.mpr hle
  rw [interest, hyear]
  exact hle'.trans (by norm_num)

/-- Alice claims after five days and unstakes after a year. -/
theorem interest_ends_at_maturity_sample :
    ∃ v h w w' e, Period sampleEnv (nameLiteral "alice") (nameLiteral "fixed") v h w ∧
      Step sampleEnv w e w' ∧
      (h.map (claims (nameLiteral "alice") (nameLiteral "fixed"))).sum = 13736 ∧
      ledPaid (nameLiteral "alice") e.sent = 1013736 ∧
      (((h.map (claims (nameLiteral "alice") (nameLiteral "fixed"))).sum +
          ledPaid (nameLiteral "alice") e.sent - 1000000 : ℤ) : ℚ) ≤
        interest 1000000 2 864000 := by
  let inputs := sampleTerm ++ [(sampleCtx 434000 "alice",
    Action.claimled (nameLiteral "alice") (nameLiteral "fixed"))]
  let last := (sampleCtx 31451600 "alice",
    Action.unstake (nameLiteral "alice") (nameLiteral "fixed"))
  obtain ⟨tr, w, hplay, hobs⟩ := exists_of_play
    (show (play (stepWith sampleEnv) sampleWorld inputs).map (fun r =>
        (sampleTerms r.2.state,
          (stepWith sampleEnv r.2 last).map fun x => ledPaid (nameLiteral "alice") x.1.sent)) =
      some ((some (nameLiteral "fixed", [10, 2, 2]), some [0, 1000000, 2000, 866000, 13736]),
        some 1013736) by decide +kernel)
  obtain ⟨hterms, hlast⟩ := Prod.mk.inj hobs
  obtain ⟨p, row, hin, hdur, hmin, hmax, hbalance, hterm, hlength, hrewards⟩ :=
    stakeIn_of_sampleTerms hterms
  obtain ⟨⟨e, w'⟩, hstep, hpaid⟩ := Option.map_eq_some_iff.mp hlast
  obtain ⟨v, h, hperiod⟩ := exists_period (reaches_of_play sampleWorld_genesis hplay) hin
  obtain ⟨_, _, _, -, -, -, -, -, -, -, hsum⟩ := hperiod.spec hin
  have hstep' := step_of_stepWith _ _ _ _ _ hstep
  obtain ⟨-, hexact, -⟩ := interest_ends_at_maturity hperiod hin hdur
    (by rw [hmax]; norm_num) hterm (hperiod.cleanClaims hin (by rw [hmin]; norm_num))
  rw [hbalance, hmax, hlength] at hexact
  have hle := (hexact noCarry_sample).unstaked e w' hstep'
    (congrArg Prod.snd (input_of_stepWith _ _ _ _ _ hstep))
  rw [hbalance] at hle
  exact ⟨v, h, w, w', e, hperiod, hstep', hsum.symm.trans hrewards, hpaid, hle⟩

/-- Alice stakes more almost a year after the end of her term, and is paid interest for
that time. -/
theorem interest_paid_after_maturity :
    ¬ ∀ (env : Env) (v w w' : World) (h : History) (e : Event) (owner productName : Name)
      (id i : Nat) (p : Product) (row : Staking), Period env owner productName v h w →
      StakeIn w.state owner productName id i p row → p.duration ≠ 0 → 1 ≤ p.maximumYield →
      row.startedAt ≤ row.endedAt → CleanClaims owner productName h → Step env w e w' →
      Stakes env owner productName e.action →
      (((h.map (claims owner productName)).sum + ledPaid owner e.sent : ℤ) : ℚ) ≤
        interest row.balance.amount.toInt p.maximumYield (term row) := by
  intro hall
  let last := (sampleCtx 31451600 "alice", sampleTransfer "alice" 10000 "stake/fixed")
  obtain ⟨tr, w, hplay, hobs⟩ := exists_of_play
    (show (play (stepWith sampleEnv) sampleWorld sampleTerm).map (fun r =>
        (sampleTerms r.2.state,
          (stepWith sampleEnv r.2 last).map fun x => ledPaid (nameLiteral "alice") x.1.sent)) =
      some ((some (nameLiteral "fixed", [10, 2, 2]), some [0, 1000000, 2000, 866000, 0]),
        some 1000000) by decide +kernel)
  obtain ⟨hterms, hlast⟩ := Prod.mk.inj hobs
  obtain ⟨p, row, hin, hdur, hmin, hmax, hbalance, hterm, hlength, hrewards⟩ :=
    stakeIn_of_sampleTerms hterms
  obtain ⟨⟨e, w'⟩, hstep, hpaid⟩ := Option.map_eq_some_iff.mp hlast
  obtain ⟨v, h, hperiod⟩ := exists_period (reaches_of_play sampleWorld_genesis hplay) hin
  obtain ⟨_, _, _, -, -, -, -, -, -, -, hsum⟩ := hperiod.spec hin
  have hstakes : Stakes sampleEnv (nameLiteral "alice") (nameLiteral "fixed") e.action := by
    rw [show e.action = _ from congrArg Prod.snd (input_of_stepWith _ _ _ _ _ hstep)]
    exact ⟨_, _, _, _, rfl, by decide +kernel, by decide +kernel, by decide +kernel⟩
  have hle := hall sampleEnv v w w' h e _ _ 0 0 p row hperiod hin hdur (by rw [hmax]; norm_num)
    hterm (hperiod.cleanClaims hin (by rw [hmin]; norm_num)) (step_of_stepWith _ _ _ _ _ hstep)
    hstakes
  dsimp only at hpaid
  have hyear : secondsPerYear.toNat = 31449600 := rfl
  rw [← hsum, hrewards, hpaid, hbalance, hmax, hlength, interest, hyear] at hle
  norm_num at hle

end Maturity

end Lemonade
