import Lemonade.Safety.StakingRow
import Mathlib.Tactic

/-!
# A staking period

A period of a stake begins when its owner stakes and ends when the owner stakes more
or unstakes.  Until then balance, start and end of the row do not move; a claim of LED
adds to its rewards what it pays (`RowStep`).

Interest is counted from the start of the period up to the last claim.  It is computed in
doubles, so what is paid is the exact `interest` up to a few roundings.  The source
subtracts times in 32 bits, so the time that has passed is taken modulo `2 ^ 32` here
as well (`elapsed`).
-/

namespace Lemonade

open Kernel

section Interest

/-- Interest on a balance -/
def interest (balance : ℤ) (yield : ℚ) (secs : ℕ) : ℚ :=
  balance * ((yield - 1) / secondsPerYear.toNat) * secs

variable {balance : ℤ} {yield cap : ℚ} {secs secs' : ℕ}

theorem interest_nonneg (hbalance : 0 ≤ balance) (hyield : 1 ≤ yield) :
    0 ≤ interest balance yield secs := by
  have hbalance' : (0 : ℚ) ≤ balance := by exact_mod_cast hbalance
  have hyield' : 0 ≤ yield - 1 := by linarith
  unfold interest
  positivity

theorem interest_add :
    interest balance yield (secs + secs') =
      interest balance yield secs + interest balance yield secs' := by
  unfold interest
  push_cast
  ring

/-- More time and a higher yield earn more. -/
theorem interest_mono (hbalance : 0 ≤ balance) (hyield : yield ≤ cap) (hcap : 1 ≤ cap)
    (hsecs : secs ≤ secs') : interest balance yield secs ≤ interest balance cap secs' := by
  have hbalance' : (0 : ℚ) ≤ balance := by exact_mod_cast hbalance
  have hcap' : 0 ≤ cap - 1 := by linarith
  calc interest balance yield secs
      ≤ interest balance cap secs := by
        unfold interest
        gcongr
    _ ≤ interest balance cap secs' := by
        unfold interest
        gcongr

/-- The interest of a period, as `stake` and `unstake` compute it. -/
def ledInterest [Doubles] (balance : ℤ) (yield : ℚ) (secs : ℕ) : ℚ :=
  rnd (rnd (rnd balance * yieldPerSec yield) * secs)

/-- The interest of a claim, as `claimled` computes it from the product of balance and
seconds. -/
def claimInterest [Doubles] (product : ℤ) (yield : ℚ) : ℚ :=
  rnd (rnd product * yieldPerSec yield)

theorem rounded_yieldPerSec [Doubles] (yield : ℚ) :
    Rounded 2 ((yield - 1) / secondsPerYear.toNat) (yieldPerSec yield) :=
  ((Rounded.refl (yield - 1)).rnd.div_const _).rnd

theorem rounded_ledInterest [Doubles] (balance : ℤ) (yield : ℚ) (secs : ℕ) :
    Rounded 5 (interest balance yield secs) (ledInterest balance yield secs) :=
  ((((Rounded.refl (balance : ℚ)).rnd.mul (rounded_yieldPerSec yield)).rnd).mul_const secs).rnd

theorem rounded_claimInterest [Doubles] (balance : ℤ) (yield : ℚ) (secs : ℕ) :
    Rounded 4 (interest balance yield secs) (claimInterest (balance * secs) yield) := by
  have hrounded := ((Rounded.refl ((balance * secs : ℤ) : ℚ)).rnd.mul
    (rounded_yieldPerSec yield)).rnd
  have hform : ((balance * secs : ℤ) : ℚ) * ((yield - 1) / secondsPerYear.toNat) =
      interest balance yield secs := by
    unfold interest
    push_cast
    ring
  rwa [hform] at hrounded

section Exact

open Idealised

theorem ledInterest_exact (balance : ℤ) (yield : ℚ) (secs : ℕ) :
    ledInterest balance yield secs = interest balance yield secs := rfl

end Exact

theorem yieldPerSec_nonneg [Doubles] (hyield : 1 ≤ yield) : 0 ≤ yieldPerSec yield :=
  Doubles.rnd_nonneg (div_nonneg (Doubles.rnd_nonneg (by linarith)) (Nat.cast_nonneg _))

theorem yieldPerSec_nonpos [Doubles] (hyield : yield ≤ 1) : yieldPerSec yield ≤ 0 :=
  Doubles.rnd_nonpos (div_nonpos_of_nonpos_of_nonneg (Doubles.rnd_nonpos (by linarith))
    (Nat.cast_nonneg _))

theorem ledInterest_mono [Doubles]
    (hbalance : 0 ≤ balance) (hyield : yield ≤ cap) (hsecs : secs ≤ secs') (hcap : 1 ≤ cap) :
    ledInterest balance yield secs ≤ ledInterest balance cap secs' := by
  have hbalance' : 0 ≤ rnd (balance : ℚ) := Doubles.rnd_nonneg (by exact_mod_cast hbalance)
  have hrate : yieldPerSec yield ≤ yieldPerSec cap := by
    refine Doubles.rnd_mono (div_le_div_of_nonneg_right (Doubles.rnd_mono ?_) (Nat.cast_nonneg _))
    exact sub_le_sub_right hyield 1
  have hsecs' : (secs : ℚ) ≤ secs' := Nat.cast_le.mpr hsecs
  have hsum : 0 ≤ rnd (rnd (balance : ℚ) * yieldPerSec cap) :=
    Doubles.rnd_nonneg (mul_nonneg hbalance' (yieldPerSec_nonneg hcap))
  refine Doubles.rnd_mono ?_
  calc rnd (rnd (balance : ℚ) * yieldPerSec yield) * secs
      ≤ rnd (rnd balance * yieldPerSec cap) * secs :=
        mul_le_mul_of_nonneg_right
          (Doubles.rnd_mono (mul_le_mul_of_nonneg_left hrate hbalance')) (Nat.cast_nonneg _)
    _ ≤ rnd (rnd balance * yieldPerSec cap) * secs' := mul_le_mul_of_nonneg_left hsecs' hsum

/-- What is computed at a lower yield for less time is at most the interest, up to rounding. -/
theorem trunc_ledInterest_le [Doubles]
    (hbalance : 0 ≤ balance) (hyield : yield ≤ cap) (hsecs : secs ≤ secs') (hcap : 1 ≤ cap) :
    (trunc (ledInterest balance yield secs) : ℚ) ≤
      interest balance cap secs' * (1 + eps) ^ 5 := by
  have hinterest : 0 ≤ interest balance cap secs' := interest_nonneg hbalance hcap
  refine trunc_le_of_le ?_ (mul_nonneg hinterest (Doubles.one_add_eps_pow_nonneg 5))
  exact (ledInterest_mono hbalance hyield hsecs hcap).trans
    ((rounded_ledInterest _ _ _).le hinterest)

theorem ledReward_eq_ok [Doubles]
    {quantity r : Asset} {n : UInt32} (h : ledReward quantity yield n = .ok r) :
    r.amount.toInt = trunc (ledInterest quantity.amount.toInt yield n.toNat) ∧
      AmountInRange r.amount ∧ r.symbol = quantity.symbol := by
  simp only [ledReward, bind_eq_ok_iff, toInt64_eq_ok_iff, Asset.make_eq_ok_iff] at h
  obtain ⟨amount, hamount, hrange, -, rfl⟩ := h
  exact ⟨hamount, hrange, rfl⟩

theorem toInt_ofNat_toNat (n : UInt32) : (Int64.ofNat n.toNat).toInt = n.toNat := by
  have hlt := n.toNat_lt
  exact Int64.toInt_ofNat_of_lt (by omega)

/-- A product taken in 64 bits is at most the product of two nonnegative numbers. -/
theorem toInt_mul_ofNat_le {a : Int64} (ha : 0 ≤ a.toInt) (n : UInt32) :
    (a * Int64.ofNat n.toNat).toInt ≤ a.toInt * n.toNat := by
  have hprod : 0 ≤ a.toInt * n.toNat := mul_nonneg ha (Int.natCast_nonneg _)
  rw [Int64.toInt_mul, toInt_ofNat_toNat, Int.bmod_def]
  split_ifs <;> omega

theorem toInt_mul_ofNat {a : Int64} (ha : 0 ≤ a.toInt) {n : UInt32}
    (h : a.toInt * n.toNat < 2 ^ 63) :
    (a * Int64.ofNat n.toNat).toInt = a.toInt * n.toNat := by
  have hprod : 0 ≤ a.toInt * n.toNat := mul_nonneg ha (Int.natCast_nonneg _)
  rw [Int64.toInt_mul, toInt_ofNat_toNat, Int.bmod_def]
  split_ifs <;> omega

/-- The product of balance and time that a claim takes in 64 bits can turn negative; it
must not meet a negative rate. -/
def CleanClaim (row : Staking) (secs : UInt32) : Prop :=
  1 ≤ row.currentYield ∨ row.balance.amount.toInt * secs.toNat < 2 ^ 63

/-- A claim pays at most the interest of its time at any higher yield, up to rounding. -/
theorem claimAmount_le [Doubles]
    {row : Staking} {n : UInt32} {amount : Int64} (hbalance : 0 ≤ row.balance.amount.toInt)
    (hyield : row.currentYield ≤ cap) (hcap : 1 ≤ cap) (hclean : CleanClaim row n)
    (h : claimAmount row n = .ok amount) :
    (amount.toInt : ℚ) ≤ interest row.balance.amount.toInt cap n.toNat * (1 + eps) ^ 4 := by
  have hform : amount.toInt = trunc (claimInterest
      (row.balance.amount * Int64.ofNat n.toNat).toInt row.currentYield) :=
    toInt64_eq_ok_iff.mp h
  have hfactor := Doubles.one_add_eps_pow_nonneg 4
  rw [hform]
  refine trunc_le_of_le ?_ (mul_nonneg (interest_nonneg hbalance hcap) hfactor)
  rcases le_or_gt 1 row.currentYield with hone | hlow
  · -- the product may be cut off, which only lowers the claim
    have hproduct : rnd ((row.balance.amount * Int64.ofNat n.toNat).toInt : ℚ) ≤
        rnd ((row.balance.amount.toInt * n.toNat : ℤ) : ℚ) :=
      Doubles.rnd_mono (Int.cast_le.mpr (toInt_mul_ofNat_le hbalance n))
    calc claimInterest (row.balance.amount * Int64.ofNat n.toNat).toInt row.currentYield
        ≤ claimInterest (row.balance.amount.toInt * n.toNat) row.currentYield :=
          Doubles.rnd_mono (mul_le_mul_of_nonneg_right hproduct (yieldPerSec_nonneg hone))
      _ ≤ interest row.balance.amount.toInt row.currentYield n.toNat * (1 + eps) ^ 4 :=
          (rounded_claimInterest _ _ _).le (interest_nonneg hbalance hone)
      _ ≤ interest row.balance.amount.toInt cap n.toNat * (1 + eps) ^ 4 :=
          mul_le_mul_of_nonneg_right (interest_mono hbalance hyield hcap le_rfl) hfactor
  · -- below one nothing is earned
    have hsmall := hclean.resolve_left (not_le.mpr hlow)
    have hnonneg : 0 ≤ rnd ((row.balance.amount * Int64.ofNat n.toNat).toInt : ℚ) := by
      rw [toInt_mul_ofNat hbalance hsmall]
      exact Doubles.rnd_nonneg (by exact_mod_cast mul_nonneg hbalance (Int.natCast_nonneg _))
    have hnonpos : claimInterest (row.balance.amount * Int64.ofNat n.toNat).toInt
        row.currentYield ≤ 0 :=
      Doubles.rnd_nonpos (mul_nonpos_of_nonneg_of_nonpos hnonneg (yieldPerSec_nonpos hlow.le))
    exact hnonpos.trans (mul_nonneg (interest_nonneg hbalance hcap) hfactor)

end Interest

section Time

/-- Seconds since the start of the period, in 32 bits -/
def elapsed (row : Staking) (x : UInt32) : ℕ := (x - row.startedAt).toNat

/-- A time that interest can have been claimed up to. -/
def Claimable (duration : UInt32) (row : Staking) (time x : UInt32) : Prop :=
  x = row.startedAt ∨
    duration ≠ 0 ∧ x = row.endedAt ∧ row.endedAt ≤ time ∨
    row.startedAt ≤ x ∧ x ≤ time ∧ (duration ≠ 0 → x ≤ row.endedAt)

variable {ctx : Ctx} {p : Product} {row : Staking} {time x : UInt32}

theorem claimable_claimTime (hstart : row.startedAt ≤ ctx.now) :
    Claimable p.duration row ctx.now (claimTime ctx p row) := by
  unfold claimTime
  split_ifs with hdur hended
  · exact Or.inr (Or.inl ⟨hdur, rfl, hended⟩)
  · refine Or.inr (Or.inr ⟨hstart, UInt32.le_refl _, fun _ => ?_⟩)
    exact UInt32.le_of_lt (UInt32.not_le.mp hended)
  · exact Or.inr (Or.inr ⟨hstart, UInt32.le_refl _, fun h => absurd h hdur⟩)

theorem elapsed_of_le (h : row.startedAt ≤ x) :
    elapsed row x = x.toNat - row.startedAt.toNat := UInt32.toNat_sub_of_le _ _ h

theorem elapsed_startedAt : elapsed row row.startedAt = 0 := by
  simp [elapsed]

/-- Claims go forward in time. -/
theorem elapsed_le_claimTime
    (hx : Claimable p.duration row time x) (hnow : time ≤ ctx.now) :
    elapsed row x ≤ elapsed row (claimTime ctx p row) := by
  rcases hx with rfl | ⟨hdur, rfl, hended⟩ | ⟨hle, hpast, hend⟩
  · rw [elapsed_startedAt]
    exact Nat.zero_le _
  · rw [claimTime, if_pos hdur, if_pos (UInt32.le_trans hended hnow)]
  · have hmono : ∀ y : UInt32, x ≤ y → elapsed row x ≤ elapsed row y := by
      intro y hy
      rw [elapsed_of_le hle, elapsed_of_le (UInt32.le_trans hle hy)]
      have := UInt32.le_iff_toNat_le.mp hy
      omega
    unfold claimTime
    split_ifs with hdur
    · exact hmono _ (hend hdur)
    · exact hmono _ (UInt32.le_trans hpast hnow)
    · exact hmono _ (UInt32.le_trans hpast hnow)

/-- The time between two points of a period -/
theorem toNat_sub_eq_elapsed {y : UInt32} (h : elapsed row x ≤ elapsed row y) :
    (y - x).toNat = elapsed row y - elapsed row x := by
  have hsplit : y - x = (y - row.startedAt) - (x - row.startedAt) := by
    grind
  rw [hsplit, UInt32.toNat_sub_of_le _ _ (UInt32.le_iff_toNat_le.mpr h)]
  rfl

/-- What is known of the LED rewards of a row at any time. -/
structure Accrual (duration : UInt32) (row : Staking) (time : UInt32) : Prop where
  started_le : row.startedAt ≤ time
  claimable : Claimable duration row time row.lastClaimLedReward
  symbol : row.ledRewards.symbol = ledSymbol
  inRange : AmountInRange row.ledRewards.amount

theorem Claimable.later
    {duration time' : UInt32} (h : Claimable duration row time x) (hle : time ≤ time') :
    Claimable duration row time' x := by
  rcases h with h | ⟨hdur, hx, hended⟩ | ⟨hstart, hx, hend⟩
  · exact Or.inl h
  · exact Or.inr (Or.inl ⟨hdur, hx, UInt32.le_trans hended hle⟩)
  · exact Or.inr (Or.inr ⟨hstart, UInt32.le_trans hx hle, hend⟩)

/-- The rewards of a row that a claim has added to. -/
theorem toInt_ledRewards_of_claim
    {row' : Staking} {amount : Int64} (hrange : AmountInRange row.ledRewards.amount)
    (h : row.ledRewards.add ⟨amount, ledSymbol⟩ = .ok row'.ledRewards) :
    row'.ledRewards.amount.toInt = row.ledRewards.amount.toInt + amount.toInt := by
  obtain ⟨-, hrange', heq⟩ := Asset.add_eq_ok_iff.mp h
  rw [heq]
  exact toInt_add_of_inRange hrange hrange'

theorem Accrual.step [Doubles]
    {owner productName : Name} {row' : Staking} {a : Action} {sent : List Inline}
    (h : Accrual p.duration row time) (hnow : time ≤ ctx.now) (hstake : SameStake row row')
    (hled : LedStep ctx owner productName p row row' a sent) :
    Accrual p.duration row' ctx.now := by
  have hstart := UInt32.le_trans h.started_le hnow
  have hclaimable : ∀ x, Claimable p.duration row ctx.now x →
      Claimable p.duration row' ctx.now x := by
    intro x hx
    unfold Claimable at hx ⊢
    rw [hstake.startedAt, hstake.endedAt]
    exact hx
  refine ⟨?_, ?_, ?_, ?_⟩
  · rw [hstake.startedAt]
    exact hstart
  · cases hled with
    | same _ last _ =>
        rw [last]
        exact hclaimable _ (h.claimable.later hnow)
    | claim _ _ _ _ last _ =>
        rw [last]
        exact hclaimable _ (claimable_claimTime hstart)
  · cases hled with
    | same rewards _ _ =>
        rw [rewards]
        exact h.symbol
    | claim _ _ _ rewards _ _ =>
        obtain ⟨-, -, heq⟩ := Asset.add_eq_ok_iff.mp rewards
        rw [heq]
        exact h.symbol
  · cases hled with
    | same rewards _ _ =>
        rw [rewards]
        exact h.inRange
    | claim _ _ _ rewards _ _ =>
        obtain ⟨-, hrange, heq⟩ := Asset.add_eq_ok_iff.mp rewards
        rw [heq]
        exact hrange

/-- The rewards are what the cap yields up to the last claim, up to rounding. -/
def Capped [Doubles] (cap : ℚ) (row : Staking) : Prop :=
  (row.ledRewards.amount.toInt : ℚ) ≤
    interest row.balance.amount.toInt cap (elapsed row row.lastClaimLedReward) * (1 + eps) ^ 4

theorem Capped.step [Doubles]
    {owner productName : Name} {row' : Staking} {a : Action} {sent : List Inline} {cap : ℚ}
    (h : Capped cap row) (acc : Accrual p.duration row time) (hnow : time ≤ ctx.now)
    (hbalance : 0 ≤ row.balance.amount.toInt) (hcap : 1 ≤ cap) (hstake : SameStake row row')
    (hled : LedStep ctx owner productName p row row' a sent)
    (hclaim : a = .claimled owner productName → row.currentYield ≤ cap ∧
      CleanClaim row (claimTime ctx p row - row.lastClaimLedReward)) :
    Capped cap row' := by
  unfold Capped at h ⊢
  have helapsed : ∀ x, elapsed row' x = elapsed row x := by
    intro x
    rw [elapsed, hstake.startedAt, elapsed]
  rw [hstake.balance, helapsed]
  cases hled with
  | same rewards last _ =>
      rw [rewards, last]
      exact h
  | @claim amount action _ hamount rewards last _ =>
      obtain ⟨hyield, hclean⟩ := hclaim action
      have hforward := elapsed_le_claimTime acc.claimable hnow
      have hpaid := claimAmount_le hbalance hyield hcap hclean hamount
      rw [toNat_sub_eq_elapsed hforward] at hpaid
      rw [last, toInt_ledRewards_of_claim acc.inRange rewards]
      push_cast
      refine (add_le_add h hpaid).trans_eq ?_
      rw [← add_mul, ← interest_add, Nat.add_sub_cancel' hforward]

end Time

section Runs

variable {env : Env} {owner productName : Name} {id i : Nat} {p₀ : Product} {row₀ : Staking}
variable {cap : ℚ} {v w w' : World} {e : Event} {h : History}

/-- LED that a step pays for a claim -/
def claims (owner productName : Name) (q : World × Event) : ℤ :=
  claimPaid owner productName q.2.action q.2.sent

/-- The period of a row that was stored as `row₀` under the product `p₀`. -/
structure InPeriod (owner productName : Name) (id i : Nat) (p₀ : Product) (row₀ : Staking)
    (w : World) : Prop where
  ledger : StakingLedger w.state
  stake : ∃ p row, StakeIn w.state owner productName id i p row ∧ SameTerms p₀ p ∧
    SameStake row₀ row ∧ Accrual p.duration row w.time

/-- A claim at a yield of at most `cap`, with no product out of range. -/
def CleanStep (cap : ℚ) (owner productName : Name) (q : World × Event) : Prop :=
  q.2.action = .claimled owner productName → ∀ id i p row,
    StakeIn q.1.state owner productName id i p row → row.currentYield ≤ cap ∧
      CleanClaim row (claimTime q.2.ctx p row - row.lastClaimLedReward)

/-- The LED rewards of a row -/
def ledRewards (s : State) (key : Name × Nat) : ℤ :=
  s.stakings.weight (fun _ row => row.ledRewards.amount.toInt) key

theorem InPeriod.step [Doubles]
    (inv : InPeriod owner productName id i p₀ row₀ w)
    (hkeep : ¬ EndsPeriod env owner productName e.action) (hstep : Step env w e w') :
    InPeriod owner productName id i p₀ row₀ w' ∧
      ledRewards w'.state (owner, i) =
        ledRewards w.state (owner, i) + claims owner productName (w, e) := by
  obtain ⟨p, row, hin, hterms, hstake, acc⟩ := inv.stake
  obtain ⟨hnow, hexec, htime⟩ := hstep
  obtain ⟨p', row', hin', hterms', hrowstep⟩ := rowStep_of_exec inv.ledger hin hkeep hexec
  have hstake' := hrowstep.sameStake
  have hled := hrowstep.ledStep
  have acc' := acc.step hnow hstake' hled
  rw [← hterms'.duration, ← htime] at acc'
  refine ⟨⟨inv.ledger.exec hexec, p', row', hin', hterms.trans hterms', hstake.trans hstake',
    acc'⟩, ?_⟩
  rw [ledRewards, ledRewards, Table.weight_of_find? hin.row, Table.weight_of_find? hin'.row,
    claims]
  cases hled with
  | same rewards _ paid => rw [rewards, paid, add_zero]
  | claim _ _ _ rewards _ paid => rw [paid, toInt_ledRewards_of_claim acc.inRange rewards]

theorem InPeriod.run [Doubles]
    (inv : InPeriod owner productName id i p₀ row₀ v) (hrun : Run (Step env) v h w)
    (hkeep : ∀ q ∈ h, ¬ EndsPeriod env owner productName q.2.action) :
    InPeriod owner productName id i p₀ row₀ w ∧
      ledRewards w.state (owner, i) =
        ledRewards v.state (owner, i) + (h.map (claims owner productName)).sum := by
  constructor
  · exact hrun.invariant_of_forall (fun q => ¬ EndsPeriod env owner productName q.2.action)
      (InPeriod owner productName id i p₀ row₀) (fun _ _ _ hq inv hs => (inv.step hq hs).1)
      hkeep inv
  · exact hrun.balance_eq (fun q => ¬ EndsPeriod env owner productName q.2.action)
      (InPeriod owner productName id i p₀ row₀) (fun w => ledRewards w.state (owner, i))
      (claims owner productName) (fun _ _ _ hq inv hs => (inv.step hq hs).1)
      (fun _ _ _ hq inv hs => (inv.step hq hs).2) hkeep inv

/-- A row that the owner has in the product in the course of a period is the row of the
period. -/
theorem InPeriod.of_mem [Doubles]
    (inv : InPeriod owner productName id i p₀ row₀ v) (hrun : Run (Step env) v h w)
    (hkeep : ∀ q ∈ h, ¬ EndsPeriod env owner productName q.2.action)
    {q : World × Event} (hq : q ∈ h) {id' i' : Nat} {p : Product} {row : Staking}
    (hin : StakeIn q.1.state owner productName id' i' p row) :
    SameTerms p₀ p ∧ StakeOk row p := by
  obtain ⟨t, e⟩ := q
  obtain ⟨pre, post, _, rfl, hpre, -, -⟩ := hrun.exists_of_mem hq
  obtain ⟨invt, -⟩ := inv.run hpre fun q hq => hkeep q (List.mem_append_left _ hq)
  obtain ⟨_, _, hin', hterms, -⟩ := invt.stake
  obtain ⟨-, -, rfl, -⟩ := hin'.unique invt.ledger hin
  exact ⟨hterms, hin.stakeOk invt.ledger⟩

/-- As long as all claims are made at a yield of at most `cap`, the claims of the period
are covered by interest at that yield. -/
theorem InPeriod.capped [Doubles]
    (inv : InPeriod owner productName id i p₀ row₀ v) (hrun : Run (Step env) v h w)
    (hkeep : ∀ q ∈ h, ¬ EndsPeriod env owner productName q.2.action) (hcap : 1 ≤ cap)
    (hclean : ∀ q ∈ h, CleanStep cap owner productName q)
    (hv : ∀ p row, StakeIn v.state owner productName id i p row → Capped cap row) :
    ∀ p row, StakeIn w.state owner productName id i p row → Capped cap row := by
  have hboth := hrun.invariant_of_forall
    (fun q => ¬ EndsPeriod env owner productName q.2.action ∧ CleanStep cap owner productName q)
    (fun w => InPeriod owner productName id i p₀ row₀ w ∧
      ∀ p row, StakeIn w.state owner productName id i p row → Capped cap row)
    ?_ (fun q hq => ⟨hkeep q hq, hclean q hq⟩) ⟨inv, hv⟩
  · exact hboth.2
  · rintro t e t' ⟨hq, hclean⟩ ⟨inv, hcapped⟩ hs
    refine ⟨(inv.step hq hs).1, ?_⟩
    intro p₂ row₂ hin₂
    obtain ⟨p, row, hin, -, -, acc⟩ := inv.stake
    obtain ⟨hnow, hexec, -⟩ := hs
    obtain ⟨p', row', hin', -, hrowstep⟩ := rowStep_of_exec inv.ledger hin hq hexec
    obtain ⟨-, -, -, rfl⟩ := hin'.unique (inv.ledger.exec hexec) hin₂
    have hok := hin.stakeOk inv.ledger
    exact (hcapped p row hin).step acc hnow hok.positive_toInt.le hcap
      hrowstep.sameStake hrowstep.ledStep
      fun ha => hclean ha id i p row hin

end Runs

section Ends

variable {env : Env} {ctx : Ctx} {s s' : State} {sent : List Inline}
variable {owner productName : Name} {id i : Nat} {p : Product} {row : Staking}

/-- The row of a period that begins. -/
structure Fresh (ctx : Ctx) (p : Product) (row : Staking) : Prop where
  startedAt : row.startedAt = ctx.now
  endedAt : row.endedAt = periodEnd ctx p
  last : row.lastClaimLedReward = ctx.now
  rewards : row.ledRewards = zeroLed
  lastLem : row.lastClaimLemReward = lastLemReward ctx p
  lemRewards : row.lemRewards = zeroLem

theorem exists_fresh_of_stake [Doubles]
    {quantity : Asset} {pricePrediction : Option Name}
    (h : stake env ctx s owner quantity productName pricePrediction = .ok (s', sent)) :
    ∃ id i p row, StakeIn s' owner productName id i p row ∧ Fresh ctx p row := by
  obtain ⟨id, p, _, _, -, -, -, hproduct, -, -, hcase⟩ := stake_eq_ok h
  obtain ⟨hp, hname⟩ := findProduct_eq_some hproduct
  rcases hcase with ⟨-, -, hnew⟩ | ⟨key, row, hrow, hmore⟩
  · obtain ⟨_, _, i, _, -, -, -, -, rfl⟩ := stakeNew_eq_ok hnew
    refine ⟨id, i, _, _, ⟨?_, ?_, Table.find?_put_self _ _ _, Table.find?_put_self _ _ _⟩, ?_⟩
    · exact hname
    · rfl
    · exact ⟨rfl, rfl, rfl, rfl, rfl, rfl⟩
  · obtain ⟨_, _, _, -, -, rfl⟩ := stakeMore_tables hmore
    obtain ⟨-, rfl, hid⟩ := findStaking_eq_some hrow
    refine ⟨id, key.2, _, _, ⟨?_, ?_, Table.find?_put_self _ _ _, Table.find?_put_self _ _ _⟩, ?_⟩
    · exact hname
    · exact hid
    · exact ⟨rfl, rfl, rfl, rfl, rfl, rfl⟩

/-- After a stake the row of the owner begins a period. -/
theorem fresh_of_stakes [Doubles]
    {u v : World} {b : Event} (hu : Reaches env u) (hopen : Step env u b v)
    (hstakes : Stakes env owner productName b.action)
    (hin : StakeIn v.state owner productName id i p row) :
    Fresh b.ctx p row ∧ InPeriod owner productName id i p row v := by
  have inv := stakingLedger_of_reaches (hu.succ hopen)
  obtain ⟨-, hexec, htime⟩ := hopen
  obtain ⟨_, _, hstake⟩ := stake_of_exec hstakes hexec
  obtain ⟨_, _, _, _, hin', hfresh⟩ := exists_fresh_of_stake hstake
  obtain ⟨rfl, rfl, rfl, rfl⟩ := hin'.unique inv hin
  refine ⟨hfresh, inv, p, row, hin, .refl p, .refl row, ?_⟩
  refine ⟨?_, ?_, ?_, ?_⟩
  · rw [hfresh.startedAt, htime]
    exact UInt32.le_refl _
  · exact Or.inl (hfresh.last.trans hfresh.startedAt.symm)
  · rw [hfresh.rewards]
    rfl
  · rw [hfresh.rewards]
    exact amountInRange_zero

theorem Fresh.capped [Doubles]
    (h : Fresh ctx p row) {cap : ℚ} : Capped cap row := by
  unfold Capped
  rw [h.last, ← h.startedAt, elapsed_startedAt, h.rewards]
  simp [interest, zeroLed]

theorem Fresh.ledRewards
    (h : Fresh ctx p row) (hin : StakeIn s owner productName id i p row) :
    ledRewards s (owner, i) = 0 := by
  rw [Lemonade.ledRewards, Table.weight_of_find? hin.row, h.rewards]
  rfl

/-- What the owner is paid by `unstake`: the balance and the interest of the whole
period, less what has been claimed. -/
theorem ledPaid_of_unstake [Doubles]
    (inv : StakingLedger s) (hin : StakeIn s owner productName id i p row) {time : UInt32}
    (acc : Accrual p.duration row time)
    (h : unstake env ctx s owner productName = .ok (s', sent)) :
    ∃ config2, s.config2 = some config2 ∧
      ledPaid owner sent = row.balance.amount.toInt +
        trunc (ledInterest row.balance.amount.toInt (finalYield p config2 row)
          (elapsed row (claimTime ctx p row))) - row.ledRewards.amount.toInt := by
  obtain ⟨_, config2, _, q, key, old, _, issued, total, withReward, toOwnerLed, toOwnerLem, _, -, -,
    hconfig2, hissue, hlem, hproduct, hold, hended, htotal, hwith, hled, -, -, rfl⟩ :=
    unstake_eq_ok h
  obtain ⟨-, rfl, rfl, rfl⟩ := hin.eq_of_find inv hproduct hold
  refine ⟨config2, hconfig2, ?_⟩
  have hok := hin.stakeOk inv
  obtain ⟨htotal', -, -⟩ := ledReward_eq_ok htotal
  obtain ⟨-, hrange, rfl⟩ := Asset.add_eq_ok_iff.mp hwith
  obtain ⟨hsymbol, hrange', rfl⟩ := Asset.sub_eq_ok_iff.mp hled
  have htime : settlementTime ctx q old = claimTime ctx q old := by
    unfold settlementTime claimTime
    split_ifs with hdur hle
    · rfl
    · exfalso
      by_cases hzero : old.endedAt = 0
      · rw [hzero] at hle
        exact hle (UInt32.le_iff_toNat_le.mpr (Nat.zero_le _))
      · exact hle (hended hzero)
    · rfl
  have hwith' := toInt_add_of_inRange hok.inRange hrange
  have hpaid := toInt_sub_of_inRange_right acc.inRange hrange'
  have hsymbol' : old.balance.symbol = ledSymbol := by
    rw [← acc.symbol, hsymbol]
  rw [ledPaid_append, ledPaid_cons, ledPaid_of_issueLem hissue,
    ledPaid_of_lemSettlement hlem]
  simp only [Inline.led, hsymbol', and_self, if_true, zero_add, add_zero]
  rw [hpaid, hwith', htotal', htime]
  rfl

/-- What the owner is paid when staking more: the interest of the period up to now,
less what has been claimed. -/
theorem ledPaid_of_stake [Doubles]
    (inv : StakingLedger s) (hin : StakeIn s owner productName id i p row) {time : UInt32}
    (acc : Accrual p.duration row time) {quantity : Asset} {pricePrediction : Option Name}
    (h : stake env ctx s owner quantity productName pricePrediction = .ok (s', sent)) :
    ledPaid owner sent = max 0 (trunc (ledInterest row.balance.amount.toInt row.currentYield
      (elapsed row ctx.now)) - row.ledRewards.amount.toInt) := by
  obtain ⟨id', p', _, _, -, -, -, hproduct, -, -, hcase⟩ := stake_eq_ok h
  rcases hcase with ⟨hnone, -, -⟩ | ⟨key, old, hold, hmore⟩
  · obtain ⟨hp', hname⟩ := findProduct_eq_some hproduct
    obtain rfl := inv.names id id' p p' hin.product hp' (hin.name.trans hname.symm)
    exact absurd hin.productId (findStaking_eq_none hnone hin.row)
  · obtain ⟨-, rfl, rfl, rfl⟩ := hin.eq_of_find inv hproduct hold
    obtain ⟨_, issued, total, toOwnerLed, toOwnerLem, _, _, hissue, hlem, -, -, htotal, hled, -, -,
      -, rfl⟩ := stakeMore_eq_ok hmore
    obtain ⟨htotal', -, -⟩ := ledReward_eq_ok htotal
    obtain ⟨hsymbol, hrange, rfl⟩ := Asset.sub_eq_ok_iff.mp hled
    have hpaid := toInt_sub_of_inRange_right acc.inRange hrange
    have hsymbol' : total.symbol = ledSymbol := by
      rw [← acc.symbol, hsymbol]
    rw [ledPaid_append, ledPaid_append, ledPaid_of_issueLem hissue,
      ledPaid_of_lemSettlement hlem,
      ledPaid_sendPositive ⟨total.amount - old.ledRewards.amount, _⟩ _ hsymbol', zero_add,
      add_zero]
    dsimp only
    rw [hpaid, htotal']
    rfl

end Ends

section Histories

variable {env : Env} {owner productName : Name} {id i : Nat} {p : Product} {row : Staking}
variable {v w : World} {h : History}

/-- A row that was not stored by a stake of its owner was there before. -/
theorem exists_row_before_of_move [Doubles]
    {ctx : Ctx} {s s' : State} {a : Action} {sent : List Inline}
    (hin : StakeIn s' owner productName id i p row)
    (hkeep : ¬ EndsPeriod env owner productName a) (h : StakeMove env ctx s a s' sent) :
    ∃ old, s.stakings.find? (owner, i) = some old ∧ old.productId = id := by
  have hsame : s'.stakings = s.stakings →
      ∃ old, s.stakings.find? (owner, i) = some old ∧ old.productId = id := by
    intro hstakings
    exact ⟨row, hstakings ▸ hin.row, hin.productId⟩
  have hput : ∀ key old new, s.stakings.find? key = some old →
      s'.stakings = s.stakings.put key new → new.productId = old.productId →
      ∃ old, s.stakings.find? (owner, i) = some old ∧ old.productId = id := by
    intro key old new hold hstakings hnew
    have hrow := hin.row
    rw [hstakings, Table.find?_put] at hrow
    split_ifs at hrow with hkey
    · obtain rfl := Option.some.inj hrow
      exact ⟨old, hkey ▸ hold, hnew.symm.trans hin.productId⟩
    · exact ⟨row, hrow, hin.productId⟩
  have hrewritten : Rewritten s s' →
      ∃ old, s.stakings.find? (owner, i) = some old ∧ old.productId = id := by
    intro hr
    cases hr with
    | idle _ stakings => exact hsame stakings
    | row find _ productId _ _ _ stakings => exact hput _ _ _ find stakings productId
  cases h with
  | addproduct h =>
      obtain ⟨_, _, -, -, -, -, -, -, -, -, rfl⟩ := addproduct_eq_ok h
      exact hsame rfl
  | rmproduct h =>
      obtain ⟨_, _, -, -, -, rfl⟩ := rmproduct_eq_ok h
      exact hsame rfl
  | stake hincoming hop hname h =>
      obtain ⟨j, q, _, _, -, -, -, hproduct, -, -, hcase⟩ := stake_eq_ok h
      obtain ⟨-, rfl⟩ := findProduct_eq_some hproduct
      rcases hcase with ⟨-, -, hnew⟩ | ⟨key, old, hold, hmore⟩
      · obtain ⟨_, _, _, _, -, -, -, -, hstate⟩ := stakeNew_eq_ok hnew
        have hrow := hin.row
        have hp := hin.product
        rw [hstate] at hrow hp
        dsimp only at hrow hp
        rw [Table.find?_put] at hrow
        split_ifs at hrow with hkey
        · obtain ⟨rfl, -⟩ := Prod.mk.inj hkey
          obtain rfl := Option.some.inj hrow
          rw [show j = id from hin.productId, Table.find?_put_self] at hp
          obtain rfl := Option.some.inj hp
          rw [show q.name = productName from hin.name] at hname
          exact absurd (Or.inr ⟨_, _, _, _, rfl, hincoming, hop, hname⟩) hkeep
        · exact ⟨row, hrow, hin.productId⟩
      · obtain ⟨_, _, _, -, -, hstate⟩ := stakeMore_tables hmore
        exact hput key old _ (findStaking_eq_some hold).1 (congrArg State.stakings hstate) rfl
  | unstake h =>
      obtain ⟨_, _, _, _, _, _, -, -, -, -, hstate⟩ := unstake_tables h
      have hrow := hin.row
      rw [hstate] at hrow
      dsimp only at hrow
      rw [Table.find?_erase] at hrow
      split_ifs at hrow
      exact ⟨row, hrow, hin.productId⟩
  | claimled h => exact hrewritten (claimled_rewritten h)
  | claimlem h => exact hrewritten (claimlem_rewritten h)
  | changeyield h => exact hrewritten (changeyield_rewritten h)

theorem exists_stakeIn_before [Doubles]
    {ctx : Ctx} {s s' : State} {a : Action} {sent : List Inline} (inv : StakingLedger s)
    (hin : StakeIn s' owner productName id i p row)
    (hkeep : ¬ EndsPeriod env owner productName a) (h : exec env ctx s a = .ok (s', sent)) :
    ∃ p row, StakeIn s owner productName id i p row := by
  have hquiet : s'.products = s.products → s'.stakings = s.stakings →
      ∃ p row, StakeIn s owner productName id i p row := by
    intro hproducts hstakings
    exact ⟨p, row, hin.name, hin.productId, hproducts ▸ hin.product, hstakings ▸ hin.row⟩
  cases exec_area h with
  | stakes move =>
      obtain ⟨old, hold, hid⟩ := exists_row_before_of_move hin hkeep move
      obtain ⟨q, hq, -⟩ := inv.stake _ old hold
      rw [hid] at hq
      have hterms := move.sameTerms hq hin.product
      exact ⟨q, old, hterms.name.symm.trans hin.name, hid, hq, hold⟩
  | games _ _ products stakings => exact hquiet products stakings
  | dex _ stakes => exact hquiet stakes.1 stakes.2.1
  | idle stakes => exact hquiet stakes.1 stakes.2.1

/-- The steps `h` from `v` to `w` lie in one period, which a stake in the step to `v` has
begun. -/
def Period [Doubles] (env : Env) (owner productName : Name) (v : World) (h : History)
    (w : World) : Prop :=
  ∃ u b, Reaches env u ∧ Step env u b v ∧ Stakes env owner productName b.action ∧
    Run (Step env) v h w ∧ ∀ q ∈ h, ¬ EndsPeriod env owner productName q.2.action

theorem not_endsPeriod
    {a : Action} (hunstake : a ≠ .unstake owner productName)
    (hnotify : ∀ firstReceiver source dest quantity memo,
      a ≠ .notify firstReceiver source dest quantity memo) :
    ¬ EndsPeriod env owner productName a := by
  rintro (ha | ⟨_, _, _, _, ha, -⟩)
  · exact hunstake ha
  · exact hnotify _ _ _ _ _ ha

/-- A period that is executed from its stake on -/
theorem period_of_play [Doubles]
    {w₀ u : World} {is js : List (Ctx × Action)} {x : Ctx × Action} {tr : History} {b : Event}
    (hgenesis : w₀.Genesis) (hopening : play (stepWith env) w₀ is = some (tr, u))
    (hstake : stepWith env u x = some (b, v)) (hstakes : Stakes env owner productName x.2)
    (hplay : play (stepWith env) v js = some (h, w))
    (hkeep : ∀ y ∈ js, ¬ EndsPeriod env owner productName y.2) :
    Period env owner productName v h w := by
  have ha : b.action = x.2 := congrArg Prod.snd (input_of_stepWith _ _ _ _ _ hstake)
  refine ⟨u, b, reaches_of_play hgenesis hopening, step_of_stepWith _ _ _ _ _ hstake, ?_,
    run_of_play (step_of_stepWith env) _ hplay, ?_⟩
  · rw [ha]
    exact hstakes
  · intro q hq
    exact hkeep _ (input_mem_of_play hplay hq)

theorem not_stakeIn_of_unstake [Doubles]
    {ctx : Ctx} {s s' : State} {sent : List Inline} (inv : StakingLedger s)
    (inv' : StakingLedger s') (h : unstake env ctx s owner productName = .ok (s', sent)) :
    ¬ StakeIn s' owner productName id i p row := by
  intro hin
  obtain ⟨j, q, key, old, _, _, -, hproduct, hold, -, rfl⟩ := unstake_tables h
  obtain ⟨-, hname⟩ := findProduct_eq_some hproduct
  obtain ⟨hfind, howner, hid⟩ := findStaking_eq_some hold
  have hj : id = j := inv'.names id j p _ hin.product (Table.find?_put_self _ _ _)
    (hin.name.trans hname.symm)
  have hrow := hin.row
  dsimp only at hrow
  rw [Table.find?_erase] at hrow
  split_ifs at hrow with hkey
  obtain ⟨o, k⟩ := key
  obtain rfl : o = owner := howner
  refine hkey (congrArg _ ?_)
  exact inv.atMostOne o k i old row hfind hrow (hid.trans (hj.symm.trans hin.productId.symm))

/-- What a stake gives to its row, and every step of the period keeps, holds of every row
that a run ends with.  The steps may be assumed to meet a condition. -/
theorem row_invariant [Doubles]
    (C : World × Event → Prop) (I : World → Product → Staking → Prop)
    (hfresh : ∀ u b v p row, C (u, b) → Reaches env u → Step env u b v →
      Stakes env owner productName b.action → StakeIn v.state owner productName id i p row →
      Fresh b.ctx p row → I v p row)
    (hstep : ∀ u e v p p' row row', C (u, e) → Step env u e v →
      ¬ EndsPeriod env owner productName e.action → I u p row → SameTerms p p' →
      RowStep e.ctx u.state owner productName p row row' e.action e.sent → I v p' row')
    {w₀ : World} (hw₀ : w₀.Genesis) (run : Run (Step env) w₀ h w) (hC : ∀ q ∈ h, C q)
    (hin : StakeIn w.state owner productName id i p row) : I w p row := by
  induction run generalizing p row with
  | nil =>
      have hrow := hin.row
      rw [hw₀] at hrow
      cases hrow
  | @snoc t t' tr e run last ih =>
      have ht : Reaches env t := ⟨w₀, tr, hw₀, run⟩
      have inv := stakingLedger_of_reaches ht
      have hlast : C (t, e) := hC _ (by simp)
      by_cases hends : EndsPeriod env owner productName e.action
      · rcases hends with hunstake | hstakes
        · obtain ⟨-, hexec, -⟩ := last
          rw [hunstake] at hexec
          have inv' := inv.exec hexec
          exact absurd hin (not_stakeIn_of_unstake inv inv' hexec)
        · exact hfresh t e t' p row hlast ht last hstakes hin
            (fresh_of_stakes ht last hstakes hin).1
      · obtain ⟨q, old, hbefore⟩ := exists_stakeIn_before inv hin hends last.2.1
        have hold := ih (fun x hx => hC x (List.mem_append_left _ hx)) hbefore
        obtain ⟨p', row', hin', hterms, hrowstep⟩ := rowStep_of_exec inv hbefore hends last.2.1
        obtain ⟨-, -, rfl, rfl⟩ := hin'.unique (inv.exec last.2.1) hin
        exact hstep t e t' q p old row hlast last hends hold hterms hrowstep

/-- Every row that can come about lies in a period. -/
theorem exists_period [Doubles]
    (hw : Reaches env w) (hin : StakeIn w.state owner productName id i p row) :
    ∃ v h, Period env owner productName v h w := by
  obtain ⟨w₀, tr, hgenesis, hrun⟩ := hw
  refine row_invariant (fun _ => True) (fun w _ _ => ∃ v h, Period env owner productName v h w)
    ?_ ?_ hgenesis hrun (fun _ _ => trivial) hin
  · intro u b v p row _ hu hopen hstakes _ _
    exact ⟨v, [], u, b, hu, hopen, hstakes, .nil, fun _ hq => by cases hq⟩
  · rintro t e t' p p' row row' - last hends ⟨v, h, u, b, hu, hopen, hstakes, hperiod, hkeep⟩ - -
    refine ⟨v, h ++ [(t, e)], u, b, hu, hopen, hstakes, .snoc hperiod last, ?_⟩
    intro x hx
    rcases List.mem_append.mp hx with hx | hx
    · exact hkeep x hx
    · obtain rfl := List.mem_singleton.mp hx
      exact hends

/-- A period begins with a row of its own, in a reachable state. -/
theorem Period.begins [Doubles]
    (hperiod : Period env owner productName v h w) :
    Reaches env v ∧ Run (Step env) v h w ∧
      (∀ q ∈ h, ¬ EndsPeriod env owner productName q.2.action) ∧
      ∃ ctx id i p₀ row₀, Fresh ctx p₀ row₀ ∧ StakeIn v.state owner productName id i p₀ row₀ ∧
        InPeriod owner productName id i p₀ row₀ v := by
  obtain ⟨u, b, hu, hopen, hstakes, hrun, hkeep⟩ := hperiod
  obtain ⟨_, _, hstake⟩ := stake_of_exec hstakes hopen.2.1
  obtain ⟨id, i, p₀, row₀, hin₀, -⟩ := exists_fresh_of_stake hstake
  obtain ⟨hfresh, inv⟩ := fresh_of_stakes hu hopen hstakes hin₀
  exact ⟨hu.succ hopen, hrun, hkeep, b.ctx, id, i, p₀, row₀, hfresh, hin₀, inv⟩

/-- What a period says about the row at its end. -/
theorem Period.spec [Doubles]
    (hperiod : Period env owner productName v h w)
    (hin : StakeIn w.state owner productName id i p row) :
    ∃ ctx p₀ row₀, Fresh ctx p₀ row₀ ∧ StakeIn v.state owner productName id i p₀ row₀ ∧
      InPeriod owner productName id i p₀ row₀ v ∧ SameTerms p₀ p ∧ SameStake row₀ row ∧
      StakingLedger w.state ∧ Accrual p.duration row w.time ∧
      row.ledRewards.amount.toInt = (h.map (claims owner productName)).sum := by
  obtain ⟨-, hrun, hkeep, ctx, _, _, p₀, row₀, hfresh, hin₀, inv⟩ := hperiod.begins
  obtain ⟨inv', hrewards⟩ := inv.run hrun hkeep
  obtain ⟨p', row', hin', hterms, hsame, acc⟩ := inv'.stake
  obtain ⟨rfl, rfl, rfl, rfl⟩ := hin'.unique inv'.ledger hin
  rw [hfresh.ledRewards hin₀, zero_add, ledRewards, Table.weight_of_find? hin.row] at hrewards
  exact ⟨ctx, p₀, row₀, hfresh, hin₀, inv, hterms, hsame, inv'.ledger, acc, hrewards⟩

/-- The claims of a period stay below the interest at any yield that they do not exceed. -/
theorem Period.capped [Doubles]
    {cap : ℚ} (hperiod : Period env owner productName v h w)
    (hin : StakeIn w.state owner productName id i p row) (hcap : 1 ≤ cap)
    (hclean : ∀ q ∈ h, CleanStep cap owner productName q) : Capped cap row := by
  obtain ⟨-, hrun, hkeep, -⟩ := hperiod.begins
  obtain ⟨_, _, _, hfresh, hin₀, inv, -⟩ := hperiod.spec hin
  refine inv.capped hrun hkeep hcap hclean ?_ p row hin
  intro p₁ row₁ hin₁
  obtain ⟨-, -, rfl, rfl⟩ := hin₀.unique inv.ledger hin₁
  exact hfresh.capped

/-- The claims of a period and the `unstake` that ends it pay the balance and the interest of
the whole period. -/
theorem Period.paid_of_unstake [Doubles]
    {e : Event} {w' : World} (hperiod : Period env owner productName v h w)
    (hin : StakeIn w.state owner productName id i p row) (hstep : Step env w e w')
    (hunstake : e.action = .unstake owner productName) :
    ∃ config2, w.state.config2 = some config2 ∧
      (h.map (claims owner productName)).sum + ledPaid owner e.sent =
        row.balance.amount.toInt +
          trunc (ledInterest row.balance.amount.toInt (finalYield p config2 row)
            (elapsed row (claimTime e.ctx p row))) := by
  obtain ⟨_, _, _, -, -, -, -, -, ledger, acc, hrewards⟩ := hperiod.spec hin
  obtain ⟨-, hexec, -⟩ := hstep
  rw [hunstake] at hexec
  obtain ⟨config2, hconfig2, hpaid⟩ := ledPaid_of_unstake ledger hin acc hexec
  exact ⟨config2, hconfig2, by omega⟩

end Histories

end Lemonade
