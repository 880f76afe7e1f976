import Lemonade.Safety.Settlement
import Lemonade.Safety.Timing
import Lemonade.Safety.Unlocking
import Mathlib.Tactic

/-!
# The settlement in LEM

What a stake earns in LEM is settled by `unstake` as well, but the loop that weighs reward
time is right only between two halvings: a round whose era ends before the interval does
counts from the end of the era on, and leaves out the era itself.  Two parts of an interval
can then weigh more than the whole, and claims are not taken back.  Without a halving inside
the term the claims do not matter.

The LEM of some weighted seconds is computed in doubles, so a claim can come out above its
share.  A term is a whole number of days, and what it earns is a multiple of 1 / 500: the
errors of the claims do not reach the next integer, and those of the settlement are no
smaller than it (`le_lemAmount`).
-/

namespace Lemonade

open Kernel

section Rounds

variable {H : Fin 4 → UInt32} {a b s e n : UInt32} {i k : Fin 3}

/-- No halving time lies inside an interval. -/
def Uncrossed (H : Fin 4 → UInt32) (s e : UInt32) : Prop :=
  ∀ k, ¬ (s < H k ∧ H k < e)

theorem rewardStep_of_before (h : a < H i.castSucc) : rewardStep H b (a, n) i = (a, n) := by
  unfold rewardStep
  rw [if_neg]
  rintro ⟨hle, -⟩
  exact UInt32.not_lt.mpr hle h

/-- The round of the era that the interval lies in counts it. -/
theorem rewardStep_of_era
    (hstart : H i.castSucc ≤ a) (hstop : a < H i.succ) (hend : b ≤ H i.succ) :
    rewardStep H b (a, n) i = (a, n + (b - a) / halvings i) := by
  unfold rewardStep
  rw [if_pos ⟨hstart, hstop⟩]
  dsimp only
  rw [if_neg (UInt32.not_lt.mpr hend)]

/-- An empty interval weighs nothing. -/
theorem rewardStep_self : rewardStep H a (a, n) i = (a, n) := by
  by_cases hround : H i.castSucc ≤ a ∧ a < H i.succ
  · obtain ⟨hstart, hstop⟩ := hround
    rw [rewardStep_of_era hstart hstop (UInt32.le_of_lt hstop), UInt32.sub_self,
      UInt32.zero_div, UInt32.add_zero]
  · exact if_neg hround

/-- If no round counts, the interval weighs nothing. -/
theorem rewardSecs_of_idle
    (h : ∀ i n, rewardStep H b (a, n) i = (a, n)) : rewardSecs H a b = 0 := by
  have hfold : ∀ l : List (Fin 3), l.foldl (rewardStep H b) (a, 0) = (a, 0) := by
    intro l
    induction l with
    | nil => rfl
    | cons i rest ih => rw [List.foldl_cons, h, ih]
  rw [rewardSecs, hfold]

/-- An interval in one era weighs its length over the divisor of the era. -/
theorem rewardSecs_of_era
    (hmono : ∀ i j, i ≤ j → H i ≤ H j) (hstart : H k.castSucc ≤ a) (hstop : a < H k.succ)
    (hend : b ≤ H k.succ) : rewardSecs H a b = (b - a) / halvings k := by
  have hround : ∀ (i : Fin 3) (n : UInt32), rewardStep H b (a, n) i =
      (a, if i = k then n + (b - a) / halvings k else n) := by
    intro i n
    rcases lt_trichotomy i k with hlt | rfl | hgt
    · have hpast := UInt32.le_trans (hmono _ _ (Fin.succ_le_castSucc_iff.mpr hlt)) hstart
      rw [rewardStep_of_past hpast, if_neg hlt.ne]
    · rw [rewardStep_of_era hstart hstop hend, if_pos rfl]
    · have hbefore := UInt32.lt_of_lt_of_le hstop (hmono _ _ (Fin.succ_le_castSucc_iff.mpr hgt))
      rw [rewardStep_of_before hbefore, if_neg hgt.ne']
  have hlist : List.finRange 3 = [0, 1, 2] := by decide
  rw [rewardSecs, hlist]
  simp only [List.foldl_cons, List.foldl_nil, hround]
  fin_cases k <;> simp

/-- Without a halving inside, all parts of an interval are weighed by one divisor. -/
theorem exists_divisor
    (hmono : ∀ i j, i ≤ j → H i ≤ H j) (h : Uncrossed H s e) :
    ∃ d, (d = 0 ∨ d ∣ 4) ∧ ∀ a b, s ≤ a → a ≤ b → b ≤ e →
      (rewardSecs H a b).toNat = (b.toNat - a.toNat) / d := by
  by_cases hera : ∃ k : Fin 3, H k.castSucc ≤ s ∧ e ≤ H k.succ
  · obtain ⟨k, hstart, hend⟩ := hera
    refine ⟨(halvings k).toNat, Or.inr ((by decide : ∀ k : Fin 3, (halvings k).toNat ∣ 4) k), ?_⟩
    intro a b hsa hab hbe
    rcases UInt32.lt_or_eq_of_le hab with hlt | rfl
    · have hbend := UInt32.le_trans hbe hend
      rw [rewardSecs_of_era hmono (UInt32.le_trans hstart hsa)
        (UInt32.lt_of_lt_of_le hlt hbend) hbend, UInt32.toNat_div, UInt32.toNat_sub_of_le _ _ hab]
    · rw [rewardSecs_of_idle fun _ _ => rewardStep_self, Nat.sub_self, Nat.zero_div]
      rfl
  · -- the interval lies behind the last halving, or before the first
    refine ⟨0, Or.inl rfl, ?_⟩
    intro a b hsa hab hbe
    have hidle : ∀ i n, rewardStep H b (a, n) i = (a, n) := by
      intro i n
      rcases UInt32.lt_or_eq_of_le hab with hlt | rfl
      · unfold rewardStep
        rw [if_neg]
        rintro ⟨hstart, hstop⟩
        have hinside := UInt32.lt_of_lt_of_le hlt hbe
        refine hera ⟨i, ?_, ?_⟩
        · refine UInt32.not_lt.mp fun hlt' => h i.castSucc ⟨hlt', ?_⟩
          exact UInt32.lt_of_le_of_lt hstart hinside
        · refine UInt32.not_lt.mp fun hlt' => h i.succ ⟨?_, hlt'⟩
          exact UInt32.lt_of_le_of_lt hsa hstop
      · exact rewardStep_self
    rw [rewardSecs_of_idle hidle, Nat.div_zero]
    rfl

/-- Two parts of an interval without a halving inside weigh at most the whole. -/
theorem rewardSecs_add_le
    (hmono : ∀ i j, i ≤ j → H i ≤ H j) (h : Uncrossed H s e) (hsa : s ≤ a) (hab : a ≤ b)
    (hbe : b ≤ e) :
    (rewardSecs H s a).toNat + (rewardSecs H a b).toNat ≤ (rewardSecs H s b).toNat := by
  obtain ⟨d, -, hd⟩ := exists_divisor hmono h
  rw [hd s a (UInt32.le_refl s) hsa (UInt32.le_trans hab hbe), hd a b hsa hab hbe,
    hd s b (UInt32.le_refl s) (UInt32.le_trans hsa hab) hbe]
  have hsplit : b.toNat - s.toNat = (a.toNat - s.toNat) + (b.toNat - a.toNat) := by
    have h1 := UInt32.le_iff_toNat_le.mp hsa
    have h2 := UInt32.le_iff_toNat_le.mp hab
    omega
  rw [hsplit]
  exact Nat.div_add_div_le_add_div

/-- Whole days weigh a multiple of a quarter of a day. -/
theorem dvd_rewardSecs
    (hmono : ∀ i j, i ≤ j → H i ≤ H j) (h : Uncrossed H s e) (hse : s ≤ e)
    (hdays : secondsPerDay.toNat ∣ e.toNat - s.toNat) : 21600 ∣ (rewardSecs H s e).toNat := by
  obtain ⟨d, hd, hweigh⟩ := exists_divisor hmono h
  rw [hweigh s e (UInt32.le_refl s) hse (UInt32.le_refl e)]
  rcases hd with rfl | ⟨c, hc⟩
  · rw [Nat.div_zero]
    exact dvd_zero _
  · obtain ⟨m, hm⟩ := hdays
    have hpos : 0 < d := Nat.pos_of_ne_zero (by rintro rfl; omega)
    have hday : secondsPerDay.toNat = d * (c * 21600) := by
      rw [← mul_assoc, ← hc]
      rfl
    rw [hm, hday, mul_assoc, Nat.mul_div_cancel_left _ hpos]
    exact ⟨c * m, by ring⟩

end Rounds

section Amounts

variable {balance : ℤ} {secs secs' : ℕ}

/-- LEM that a balance earns in some weighted seconds -/
def lemValue (balance : ℤ) (secs : ℕ) : ℚ :=
  ((balance * secs : ℤ) : ℚ) * lemRewardRate / secondsPerHour.toNat

/-- The LEM of some weighted seconds as it is computed. -/
def lemAmount [Doubles] (balance : ℤ) (secs : ℕ) : ℤ :=
  trunc (rnd (rnd (rnd ((balance * secs : ℤ) : ℚ) * rnd lemRewardRate) / secondsPerHour.toNat))

theorem lemRewardRate_nonneg : 0 ≤ lemRewardRate := by
  unfold lemRewardRate
  norm_num

theorem lemValue_nonneg (hbalance : 0 ≤ balance) : 0 ≤ lemValue balance secs := by
  have hprod : (0 : ℚ) ≤ ((balance * secs : ℤ) : ℚ) :=
    Int.cast_nonneg (mul_nonneg hbalance (Int.natCast_nonneg _))
  exact div_nonneg (mul_nonneg hprod lemRewardRate_nonneg) (Nat.cast_nonneg _)

theorem lemValue_add :
    lemValue balance (secs + secs') = lemValue balance secs + lemValue balance secs' := by
  unfold lemValue
  push_cast
  ring

theorem lemValue_mono (hbalance : 0 ≤ balance) (h : secs ≤ secs') :
    lemValue balance secs ≤ lemValue balance secs' := by
  obtain ⟨d, rfl⟩ := Nat.exists_eq_add_of_le h
  rw [lemValue_add]
  exact le_add_of_nonneg_right (lemValue_nonneg hbalance)

theorem rounded_lemAmount [Doubles] (product : ℤ) :
    Rounded 4 ((product : ℚ) * lemRewardRate / secondsPerHour.toNat)
      (rnd (rnd (rnd (product : ℚ) * rnd lemRewardRate) / secondsPerHour.toNat)) :=
  ((((Rounded.refl (product : ℚ)).rnd.mul (Rounded.refl lemRewardRate).rnd).rnd).div_const _).rnd

/-- The LEM that is computed is what is earned, up to rounding. -/
theorem lemAmount_le [Doubles] (hbalance : 0 ≤ balance) :
    (lemAmount balance secs : ℚ) ≤ lemValue balance secs * (1 + eps) ^ 4 := by
  have hvalue : 0 ≤ lemValue balance secs := lemValue_nonneg hbalance
  exact trunc_le_of_le ((rounded_lemAmount _).le hvalue)
    (mul_nonneg hvalue (Doubles.one_add_eps_pow_nonneg 4))

theorem lemAmount_nonneg [Doubles] (hbalance : 0 ≤ balance) : 0 ≤ lemAmount balance secs := by
  have hprod : (0 : ℚ) ≤ ((balance * secs : ℤ) : ℚ) :=
    Int.cast_nonneg (mul_nonneg hbalance (Int.natCast_nonneg _))
  refine trunc_nonneg (Doubles.rnd_nonneg (div_nonneg (Doubles.rnd_nonneg ?_) (Nat.cast_nonneg _)))
  exact mul_nonneg (Doubles.rnd_nonneg hprod) (Doubles.rnd_nonneg lemRewardRate_nonneg)

/-- The seconds of `claimlem` go through a signed int of 32 bits. -/
theorem toInt64_toInt32_of_lt
    {n : UInt32} (h : n.toNat < 2 ^ 31) : n.toInt32.toInt64 = Int64.ofNat n.toNat := by
  apply Int64.toInt_inj.mp
  rw [Int32.toInt_toInt64, Int64.toInt_ofNat_of_lt (by omega), ← Int32.toInt_toBitVec,
    UInt32.toBitVec_toInt32, BitVec.toInt_eq_toNat_of_lt (by simpa using by omega)]
  rfl

theorem toInt_of_lemReward [Doubles]
    {quantity r : Asset} {n : UInt32} (hbalance : 0 ≤ quantity.amount.toInt)
    (hsmall : quantity.amount.toInt * n.toNat < 2 ^ 63)
    (h : lemReward quantity (Int64.ofNat n.toNat) = .ok r) :
    r.amount.toInt = lemAmount quantity.amount.toInt n.toNat := by
  rw [(lemReward_eq_ok h).1, toInt_mul_ofNat hbalance hsmall, lemAmount]

section Doubles

open Binary64

theorem rnd_lemRewardRate : rnd lemRewardRate = 1152921504606847 / 2 ^ 60 := by
  decide +kernel

/-- The rate is rounded up, by more than the product of balance and seconds can be rounded
down, so a whole number of LEM units does not get lost. -/
theorem le_rnd_lemRate {n : ℤ} (hn : 0 < n) (hrange : 3600000 * n < 2 ^ 63) :
    (3600 * n : ℚ) ≤ rnd (rnd ((3600000 * n : ℤ) : ℚ) * rnd lemRewardRate) := by
  have hproduct : ((3600000 * n : ℤ) : ℚ) = 3600000 * n := by push_cast; rfl
  have hpos : (0 : ℚ) < ((3600000 * n : ℤ) : ℚ) := by exact_mod_cast (by omega : 0 < 3600000 * n)
  have hlt : ((3600000 * n : ℤ) : ℚ) < 2 ^ 63 := by exact_mod_cast hrange
  have hround : ((3600000 * n : ℤ) : ℚ) - 2 ^ Int.log 2 ((3600000 * n : ℤ) : ℚ) / 2 ^ 53 ≤
      rnd ((3600000 * n : ℤ) : ℚ) := sub_le_nearest 53 hpos
  have hlow : (2 : ℚ) ^ Int.log 2 ((3600000 * n : ℤ) : ℚ) ≤ ((3600000 * n : ℤ) : ℚ) := by
    exact_mod_cast Int.zpow_log_le_self (b := 2) (by norm_num) hpos
  have hhigh : rnd ((3600000 * n : ℤ) : ℚ) ≤ 2 ^ 63 := Doubles.rnd_le (isDouble_two_pow 63) hlt.le
  generalize Int.log 2 ((3600000 * n : ℤ) : ℚ) = l at hround hlow
  have hpow : (0 : ℚ) < 2 ^ l := by positivity
  rw [rnd_lemRewardRate]
  generalize hx : rnd ((3600000 * n : ℤ) : ℚ) * (1152921504606847 / 2 ^ 60) = x
  have hbelow : (((3600000 * n : ℤ) : ℚ) - 2 ^ l / 2 ^ 53) * (1152921504606847 / 2 ^ 60) ≤ x := by
    rw [← hx]
    exact mul_le_mul_of_nonneg_right hround (by norm_num)
  -- the last place of the result lies between `2 ^ (l - 62)` and `2`
  have hxlow : (2 : ℚ) ^ (l - 10) ≤ x := by
    rw [zpow_sub₀ two_ne_zero]
    norm_num at hbelow ⊢
    linarith
  have hxpos : 0 < x := lt_of_lt_of_le (by positivity) hxlow
  have hxhigh : x < 2 ^ (((53 : ℕ) : ℤ) + 1) := by
    rw [← hx]
    norm_num at hhigh ⊢
    linarith
  have hplace : (2 : ℚ) ^ l / 2 ^ 62 ≤ quantum 53 x := by
    have hshift : l - ((62 : ℕ) : ℤ) = l - 10 - ((53 : ℕ) : ℤ) + 1 := by omega
    rw [← zpow_natCast (2 : ℚ) 62, ← zpow_sub₀ two_ne_zero, hshift]
    exact zpow_le_quantum 53 hxlow
  obtain ⟨m, hm⟩ := exists_mul_quantum hxpos hxhigh (1800 * n)
  have hmultiple : (3600 * n : ℚ) = m * quantum 53 x := by
    rw [← hm]
    push_cast
    ring
  rw [hmultiple]
  refine le_nearest ?_
  rw [← hmultiple]
  norm_num at hbelow hplace
  linarith

/-- The LEM of a whole number of units is computed exactly. -/
theorem le_lemAmount_of_le {n : ℤ} (hrange : balance * secs < 2 ^ 63)
    (hbalance : 0 ≤ balance) (h : 3600000 * n ≤ balance * secs) : n ≤ lemAmount balance secs := by
  rcases le_or_gt n 0 with hn | hn
  · exact hn.trans (lemAmount_nonneg hbalance)
  · have hdouble : rnd (n : ℚ) = n :=
      Doubles.rnd_intCast (abs_le.mpr ⟨by omega, by omega⟩)
    have hhour : ((secondsPerHour.toNat : ℕ) : ℚ) = 3600 := by
      rw [show secondsPerHour.toNat = 3600 from rfl, Nat.cast_ofNat]
    have hrate : 0 ≤ rnd lemRewardRate := Doubles.rnd_nonneg lemRewardRate_nonneg
    have hproduct : (3600 * n : ℚ) ≤
        rnd (rnd ((balance * secs : ℤ) : ℚ) * rnd lemRewardRate) :=
      (le_rnd_lemRate hn (h.trans_lt hrange)).trans (Doubles.rnd_mono
        (mul_le_mul_of_nonneg_right (Doubles.rnd_mono (Int.cast_le.mpr h)) hrate))
    have hquotient : (n : ℚ) ≤
        rnd (rnd ((balance * secs : ℤ) : ℚ) * rnd lemRewardRate) / secondsPerHour.toNat := by
      rw [hhour, le_div_iff₀ (by norm_num)]
      linarith
    have htrunc := trunc_mono (Doubles.rnd_mono hquotient)
    rwa [hdouble, trunc_intCast] at htrunc

/-- What a term of whole days earns is a multiple of 1 / 500, and rounding does not reach
the next integer. -/
theorem le_lemAmount {n : ℤ} (hbalance : 0 ≤ balance) (hsecs : 21600 ∣ secs)
    (hrange : balance * secs < 2 ^ 63) (h : (n : ℚ) ≤ lemValue balance secs * (1 + eps) ^ 4) :
    n ≤ lemAmount balance secs := by
  refine le_lemAmount_of_le hrange hbalance ?_
  obtain ⟨m, rfl⟩ := hsecs
  by_contra hover
  have hproduct : balance * ((21600 * m : ℕ) : ℤ) = 7200 * (3 * (balance * m)) := by
    push_cast
    ring
  rw [hproduct] at hover hrange
  have hhour : ((secondsPerHour.toNat : ℕ) : ℚ) = 3600 := by
    rw [show secondsPerHour.toNat = 3600 from rfl, Nat.cast_ofNat]
  rw [lemValue, hproduct, hhour, lemRewardRate, eps_eq] at h
  generalize 3 * (balance * (m : ℤ)) = q at hover hrange h
  have hnext : (q : ℚ) + 1 ≤ 500 * n := by exact_mod_cast (by omega : q + 1 ≤ 500 * n)
  have hsmall : (q : ℚ) < 1300000000000000 := by
    exact_mod_cast (by omega : q < 1300000000000000)
  push_cast at h
  norm_num at h
  linarith

end Doubles

end Amounts

section Rows

variable {env : Env} {owner productName : Name} {id i : Nat} {p p' : Product}
variable {row row' : Staking} {u v w : World} {b e : Event} {config config' : Config}
variable {start : ℕ} {time time' : UInt32}

/-- The halving times stay what `init` has set. -/
theorem OnSchedule.halvings_eq
    (h : OnSchedule start config time) (h' : OnSchedule start config' time') :
    config'.lastHalfLifeUpdated = config.lastHalfLifeUpdated := by
  funext k
  rw [← UInt32.toNat_inj, h'.halvings, h.halvings]

theorem OnSchedule.ordered (h : OnSchedule start config time) :
    ∀ i j, i ≤ j → config.lastHalfLifeUpdated i ≤ config.lastHalfLifeUpdated j := by
  intro i j hij
  rw [UInt32.le_iff_toNat_le, h.halvings, h.halvings]
  exact halvingTime_monotone start hij

/-- The term of a row does not wrap, and the LEM of the whole term is computed in range. -/
structure TermInRange (H : Fin 4 → UInt32) (row : Staking) : Prop where
  ended : row.startedAt ≤ row.endedAt
  secs : (rewardSecs H row.startedAt row.endedAt).toNat < 2 ^ 31
  amount : row.balance.amount.toInt *
    (rewardSecs H row.startedAt row.endedAt).toNat < 2 ^ 63

theorem TermInRange.of_sameStake
    {H : Fin 4 → UInt32} (h : TermInRange H row) (hsame : SameStake row row') :
    TermInRange H row' := by
  obtain ⟨hended, hsecs, hamount⟩ := h
  rw [← hsame.startedAt, ← hsame.endedAt] at hended hsecs hamount
  rw [← hsame.balance] at hamount
  exact ⟨hended, hsecs, hamount⟩

/-- LEM of the whole term -/
def termLem [Doubles] (H : Fin 4 → UInt32) (row : Staking) : ℤ :=
  lemAmount row.balance.amount.toInt (rewardSecs H row.startedAt row.endedAt).toNat

/-- The claims of LEM are covered by the time up to the last claim, up to rounding. -/
structure LemEarned [Doubles] (H : Fin 4 → UInt32) (row : Staking) (time : UInt32) : Prop
    extends LemClaimable row time where
  earned : (row.lemRewards.amount.toInt : ℚ) ≤ lemValue row.balance.amount.toInt
    (rewardSecs H row.startedAt row.lastClaimLemReward).toNat * (1 + eps) ^ 4

theorem LemEarned.step [Doubles]
    {H : Fin 4 → UInt32} {ctx : Ctx} {s : State} {a : Action} {sent : List Inline}
    (h : LemEarned H row time) (hmono : ∀ i j, i ≤ j → H i ≤ H j)
    (hH : ∀ config, s.config = some config → config.lastHalfLifeUpdated = H)
    (hrange : TermInRange H row) (huncrossed : Uncrossed H row.startedAt row.endedAt)
    (hbalance : 0 ≤ row.balance.amount.toInt) (ok : RewardsOk row) (hnow : time ≤ ctx.now)
    (hrow : RowStep ctx s owner productName p row row' a sent) : LemEarned H row' ctx.now := by
  refine ⟨h.toLemClaimable.step hnow hrow, ?_⟩
  have hearned := h.earned
  cases hrow with
  | same eq =>
      rw [eq]
      exact hearned
  | claimled action pos h' add eq paid =>
      rw [eq]
      exact hearned
  | claimlem action config_eq pos h' add eq paid =>
      rw [hH _ config_eq] at h'
      have hlater := UInt32.le_trans h.le_time hnow
      have hend := le_rewardsEnd h.le_ended hlater
      have hended := (rewardsEnd_le row ctx.now).1
      -- the claim and the claims before it weigh no more than the time up to now
      have hparts := rewardSecs_add_le hmono huncrossed h.started_le hend hended
      have hwhole := rewardSecs_add_le hmono huncrossed
        (UInt32.le_trans h.started_le hend) hended (UInt32.le_refl _)
      have hsecs := hrange.secs
      rw [toInt64_toInt32_of_lt (by omega)] at h'
      have hclaim := toInt_of_lemReward hbalance (by
        refine lt_of_le_of_lt (mul_le_mul_of_nonneg_left ?_ hbalance) hrange.amount
        exact_mod_cast (show _ ≤ (rewardSecs H row.startedAt row.endedAt).toNat by omega)) h'
      obtain ⟨-, hinRange, rfl⟩ := Asset.add_eq_ok_iff.mp add
      have hsum := toInt_add_of_inRange ok.lem.inRange hinRange
      rw [eq]
      dsimp only
      rw [hsum, hclaim]
      push_cast
      refine (add_le_add hearned (lemAmount_le hbalance)).trans ?_
      rw [← add_mul, ← lemValue_add]
      exact mul_le_mul_of_nonneg_right (lemValue_mono hbalance hparts)
        (Doubles.one_add_eps_pow_nonneg 4)

/-- What is known of the LEM of a row in every state: if its term is in range and crosses no
halving, the claims are covered. -/
structure LemTracked [Doubles] (w : World) (p : Product) (row : Staking) : Prop where
  balance : 0 ≤ row.balance.amount.toInt
  term : p.duration ≠ 0 → row.endedAt = row.startedAt + secondsPerDay * p.duration
  rewards : RewardsOk row
  scheduled : ∃ start, Initialised start w
  covered : ∀ config, w.state.config = some config → p.hasLemRewards = true →
    TermInRange config.lastHalfLifeUpdated row →
    Uncrossed config.lastHalfLifeUpdated row.startedAt row.endedAt →
    LemEarned config.lastHalfLifeUpdated row w.time

theorem LemTracked.of_fresh [Doubles]
    (hu : Reaches env u) (hopen : Step env u b v) (hstakes : Stakes env owner productName b.action)
    (hin : StakeIn v.state owner productName id i p row) (hfresh : Fresh b.ctx p row) :
    LemTracked v p row := by
  obtain ⟨_, _, -, -, -, hconfig⟩ := exists_terms_before hu hopen hstakes hin
  obtain ⟨start, inv, -⟩ := initialised_of_reaches hu hconfig
  have hv := hu.succ hopen
  have hbalance := (hin.stakeOk (stakingLedger_of_reaches hv)).positive_toInt.le
  have hterm : p.duration ≠ 0 → row.endedAt = row.startedAt + secondsPerDay * p.duration := by
    intro hdur
    rw [hfresh.endedAt, periodEnd, if_pos hdur, hfresh.startedAt]
  refine ⟨hbalance, hterm, rewardsOk_of_reaches hv hin, ⟨start, (inv.step hopen).1⟩, ?_⟩
  intro config _ hrewards hrange _
  have hlast : row.lastClaimLemReward = row.startedAt := by
    rw [hfresh.lastLem, lastLemReward, if_pos hrewards, hfresh.startedAt]
  refine ⟨⟨?_, ?_, ?_⟩, ?_⟩
  · rw [hlast]
    exact UInt32.le_refl _
  · rw [hlast]
    exact hrange.ended
  · rw [hlast, hfresh.startedAt, hopen.2.2]
    exact UInt32.le_refl _
  · rw [hfresh.lemRewards]
    exact mul_nonneg (lemValue_nonneg hbalance) (Doubles.one_add_eps_pow_nonneg 4)

theorem LemTracked.step [Doubles]
    (h : LemTracked u p row) (hstep : Step env u e v) (hterms : SameTerms p p')
    (hrow : RowStep e.ctx u.state owner productName p row row' e.action e.sent) :
    LemTracked v p' row' := by
  obtain ⟨hbalance, hterm, ok, ⟨start, inv⟩, hcovered⟩ := h
  have hsame := hrow.sameStake
  have inv' := (inv.step hstep).1
  refine ⟨?_, ?_, ok.step hrow, ⟨start, inv'⟩, ?_⟩
  · rw [hsame.balance]
    exact hbalance
  · rw [hsame.endedAt, hsame.startedAt, hterms.duration]
    exact hterm
  · intro config' hconfig' hrewards hrange huncrossed
    obtain ⟨config, hconfig, hsched⟩ := inv
    obtain ⟨config₁, hconfig₁, hsched'⟩ := inv'
    obtain rfl := Option.some.inj (hconfig'.symm.trans hconfig₁)
    rw [hsched.halvings_eq hsched'] at hrange huncrossed ⊢
    rw [hsame.startedAt, hsame.endedAt] at huncrossed
    have hrange' := hrange.of_sameStake hsame.symm
    rw [hterms.hasLemRewards] at hrewards
    have hearned := hcovered config hconfig hrewards hrange' huncrossed
    rw [hstep.2.2]
    refine hearned.step hsched.ordered ?_ hrange' huncrossed hbalance ok hstep.1 hrow
    intro config₂ hconfig₂
    rw [← Option.some.inj (hconfig.symm.trans hconfig₂)]

theorem lemTracked_of_reaches [Doubles]
    (hw : Reaches env w) (hin : StakeIn w.state owner productName id i p row) :
    LemTracked w p row := by
  obtain ⟨w₀, h, hw₀, run⟩ := hw
  refine row_invariant (fun _ => True) LemTracked ?_ ?_ hw₀ run (fun _ _ => trivial) hin
  · intro u b v p row _ hu hopen hstakes hin hfresh
    exact .of_fresh hu hopen hstakes hin hfresh
  · intro u e v p p' row row' _ hstep _ htracked hterms hrow
    exact htracked.step hstep hterms hrow

end Rows

section Settlement

variable {env : Env} {owner productName : Name} {id i : Nat} {p p₀ : Product}
variable {row row₀ : Staking} {v w w' : World} {e : Event} {h : History} {config : Config}

/-- LEM that a step pays for a claim -/
def lemClaims (owner productName : Name) (q : World × Event) : ℤ :=
  lemClaimPaid owner productName q.2.action q.2.sent

/-- The LEM rewards of a row -/
def lemRewards (s : State) (key : Name × Nat) : ℤ :=
  s.stakings.weight (fun _ row => row.lemRewards.amount.toInt) key

/-- What the owner has been paid in LEM in a period that the event `e` ends -/
def lemSettled (owner productName : Name) (h : History) (e : Event) : ℤ :=
  (h.map (lemClaims owner productName)).sum + lemPaid owner "unstake" e.sent

theorem InPeriod.lemStep [Doubles]
    (inv : InPeriod owner productName id i p₀ row₀ w) (hw : Reaches env w)
    (hkeep : ¬ EndsPeriod env owner productName e.action) (hstep : Step env w e w') :
    lemRewards w'.state (owner, i) =
      lemRewards w.state (owner, i) + lemClaims owner productName (w, e) := by
  obtain ⟨p, row, hin, -⟩ := inv.stake
  obtain ⟨-, hexec, -⟩ := hstep
  obtain ⟨p', row', hin', -, hrowstep⟩ := rowStep_of_exec inv.ledger hin hkeep hexec
  rw [lemRewards, lemRewards, Table.weight_of_find? hin.row, Table.weight_of_find? hin'.row,
    lemClaims]
  cases hrowstep with
  | same eq _ lem =>
      rw [eq, lem, add_zero]
  | claimled action _ _ _ eq _ =>
      have hnone : lemClaimPaid owner productName e.action e.sent = 0 := by
        refine lemClaimPaid_of_ne ?_
        rw [action]
        simp
      rw [eq, hnone, add_zero]
  | claimlem _ _ _ _ add eq paid =>
      obtain ⟨-, hrange, rfl⟩ := Asset.add_eq_ok_iff.mp add
      rw [eq, paid]
      exact toInt_add_of_inRange (rewardsOk_of_reaches hw hin).lem.inRange hrange

/-- The state of a period is reachable, and a row of it holds what the claims have paid. -/
theorem Period.lemSpec [Doubles]
    (hperiod : Period env owner productName v h w) :
    Reaches env w ∧ ∃ id i p row, StakeIn w.state owner productName id i p row ∧
      row.lemRewards.amount.toInt = (h.map (lemClaims owner productName)).sum := by
  obtain ⟨hv, hrun, hkeep, _, id, i, p₀, row₀, hfresh, hin₀, inv⟩ := hperiod.begins
  have hboth : ∀ s e t, ¬ EndsPeriod env owner productName e.action →
      (Reaches env s ∧ InPeriod owner productName id i p₀ row₀ s) → Step env s e t →
      Reaches env t ∧ InPeriod owner productName id i p₀ row₀ t := by
    rintro s e t hq ⟨hs, invs⟩ hstep
    exact ⟨hs.succ hstep, (invs.step hq hstep).1⟩
  have hsum := hrun.balance_eq (fun q => ¬ EndsPeriod env owner productName q.2.action)
    (fun w => Reaches env w ∧ InPeriod owner productName id i p₀ row₀ w)
    (fun w => lemRewards w.state (owner, i)) (lemClaims owner productName) hboth
    (fun _ _ _ hq invs hstep => invs.2.lemStep invs.1 hq hstep) hkeep ⟨hv, inv⟩
  obtain ⟨inv', -⟩ := inv.run hrun hkeep
  obtain ⟨p, row, hin, -⟩ := inv'.stake
  refine ⟨hv.run hrun, id, i, p, row, hin, ?_⟩
  have hzero : row₀.lemRewards.amount.toInt = 0 := by
    rw [hfresh.lemRewards]
    rfl
  rwa [lemRewards, lemRewards, Table.weight_of_find? hin.row, Table.weight_of_find? hin₀.row,
    hzero, zero_add] at hsum

theorem rewardsEnd_endedAt (row : Staking) : rewardsEnd row row.endedAt = row.endedAt :=
  if_pos (UInt32.le_refl _)

/-- `unstake` pays the LEM of the whole term, less what has been claimed, if that is
positive. -/
theorem lemPaid_of_unstake [Doubles]
    {ctx : Ctx} {s s' : State} {sent : List Inline} (inv : StakingLedger s)
    (hin : StakeIn s owner productName id i p row) (ok : RewardsOk row)
    (hconfig : s.config = some config) (hrewards : p.hasLemRewards = true)
    (hdur : p.duration ≠ 0) (hrange : TermInRange config.lastHalfLifeUpdated row)
    (h : unstake env ctx s owner productName = .ok (s', sent)) :
    lemPaid owner "unstake" sent =
      max 0 (termLem config.lastHalfLifeUpdated row - row.lemRewards.amount.toInt) := by
  obtain ⟨_, _, _, q, _, old, _, _, _, _, _, _, _, -, hconfig', -, hissue, hlem, hproduct, hrow, -,
    -, hwith, hled, -, -, rfl⟩ := unstake_eq_ok h
  obtain rfl := Option.some.inj (hconfig.symm.trans hconfig')
  obtain ⟨-, rfl, rfl, rfl⟩ := hin.eq_of_find inv hproduct hrow
  obtain ⟨-, -, rfl⟩ := Asset.add_eq_ok_iff.mp hwith
  obtain ⟨hsymbol, -, rfl⟩ := Asset.sub_eq_ok_iff.mp hled
  have hbalance := (hin.stakeOk inv).positive_toInt.le
  rw [lemSettlement, if_pos hrewards, settlementTime, if_pos hdur, rewardsEnd_endedAt,
    bind_eq_ok_iff] at hlem
  obtain ⟨total, htotal, hsub⟩ := hlem
  have hvalue := toInt_of_lemReward hbalance hrange.amount htotal
  obtain ⟨-, hinRange, rfl⟩ := Asset.sub_eq_ok_iff.mp hsub
  have hlemSymbol : (⟨total.amount - old.lemRewards.amount, total.symbol⟩ : Asset).symbol =
      lemSymbol := (lemReward_eq_ok htotal).2.2
  -- the transfer of LED carries the same memo, but is in LED
  have hne : _ ≠ lemSymbol := fun heq =>
    ledSymbol_ne_lemSymbol ((ok.ledSymbol.symm.trans hsymbol).trans heq)
  rw [lemPaid_append, lemPaid_cons, lemPaid_of_issueLem (by decide +kernel) hissue,
    lemPaid_sendPositive "unstake" hlemSymbol]
  simp only [Inline.lemTo, hne, false_and, and_false, if_false, zero_add]
  rw [toInt_sub_of_inRange_right ok.lem.inRange hinRange, hvalue]
  rfl

/-- The length of a term is a whole number of days, unless it has wrapped. -/
theorem LemTracked.days [Doubles]
    (h : LemTracked w p row) (hdur : p.duration ≠ 0)
    (hdays : secondsPerDay.toNat * p.duration.toNat < 2 ^ 32)
    (hended : row.startedAt ≤ row.endedAt) :
    secondsPerDay.toNat ∣ row.endedAt.toNat - row.startedAt.toNat := by
  have hlength : (row.endedAt - row.startedAt).toNat =
      secondsPerDay.toNat * p.duration.toNat := by
    have hterm : row.endedAt - row.startedAt = secondsPerDay * p.duration := by
      rw [h.term hdur]
      grind
    rw [hterm, UInt32.toNat_mul, Nat.mod_eq_of_lt hdays]
  rw [← UInt32.toNat_sub_of_le _ _ hended, hlength]
  exact Nat.dvd_mul_right _ _

theorem Initialised.of_run [Doubles]
    {start : ℕ} (inv : Initialised start v) (hrun : Run (Step env) v h w) :
    Initialised start w :=
  hrun.invariant (Initialised start) (fun _ _ _ inv hstep => (inv.step hstep).1) inv

/-- Two periods of one stake see the same halving times. -/
theorem Period.halvings_eq [Doubles]
    {h₂ : History} {w₂ : World} {config₂ : Config} (hperiod : Period env owner productName v h w)
    (hperiod₂ : Period env owner productName v h₂ w₂) (hconfig : w.state.config = some config)
    (hconfig₂ : w₂.state.config = some config₂) :
    config₂.lastHalfLifeUpdated = config.lastHalfLifeUpdated := by
  obtain ⟨hv, hrun, -, _, _, _, _, _, -, hin₀, -⟩ := hperiod.begins
  obtain ⟨-, hrun₂, -⟩ := hperiod₂.begins
  obtain ⟨start, inv⟩ := (lemTracked_of_reaches hv hin₀).scheduled
  obtain ⟨_, hfound, hsched⟩ := inv.of_run hrun
  obtain ⟨_, hfound₂, hsched₂⟩ := inv.of_run hrun₂
  obtain rfl := Option.some.inj (hfound.symm.trans hconfig)
  obtain rfl := Option.some.inj (hfound₂.symm.trans hconfig₂)
  exact hsched.halvings_eq hsched₂

open Binary64

/-- The settlement of a period in closed form -/
theorem Period.lemSettled_eq
    (hperiod : Period env owner productName v h w)
    (hin : StakeIn w.state owner productName id i p row)
    (hconfig : w.state.config = some config) (hrewards : p.hasLemRewards = true)
    (hdur : p.duration ≠ 0) (hdays : secondsPerDay.toNat * p.duration.toNat < 2 ^ 32)
    (hrange : TermInRange config.lastHalfLifeUpdated row)
    (huncrossed : Uncrossed config.lastHalfLifeUpdated row.startedAt row.endedAt)
    (hstep : Step env w e w') (hunstake : e.action = .unstake owner productName) :
    lemSettled owner productName h e = termLem config.lastHalfLifeUpdated row := by
  obtain ⟨hw, _, _, _, _, hin', hclaims⟩ := hperiod.lemSpec
  have inv := stakingLedger_of_reaches hw
  obtain ⟨-, -, rfl, rfl⟩ := hin'.unique inv hin
  have htracked := lemTracked_of_reaches hw hin
  have hbalance := htracked.balance
  obtain ⟨start, inits⟩ := htracked.scheduled
  have hearned := htracked.covered config hconfig hrewards hrange huncrossed
  obtain ⟨_, hconfig', hsched⟩ := inits
  obtain rfl := Option.some.inj (hconfig.symm.trans hconfig')
  obtain ⟨-, hexec, -⟩ := hstep
  rw [hunstake] at hexec
  have hpaid := lemPaid_of_unstake inv hin htracked.rewards hconfig hrewards hdur hrange hexec
  have hparts := rewardSecs_add_le hsched.ordered huncrossed hearned.started_le hearned.le_ended
    (UInt32.le_refl _)
  have hcover : row.lemRewards.amount.toInt ≤ termLem config.lastHalfLifeUpdated row := by
    have hwhole := dvd_rewardSecs hsched.ordered huncrossed hrange.ended
      (htracked.days hdur hdays hrange.ended)
    refine le_lemAmount hbalance hwhole hrange.amount (hearned.earned.trans ?_)
    exact mul_le_mul_of_nonneg_right (lemValue_mono hbalance (le_of_add_le_left hparts))
      (Doubles.one_add_eps_pow_nonneg 4)
  rw [lemSettled, hpaid, ← hclaims]
  omega

/-- If no halving lies inside the term, the owner of a stake is paid the LEM of the whole
term.  Another run of the same stake, with other claims, pays the same. -/
theorem lem_settlement_exact
    (hperiod : Period env owner productName v h w)
    (hin : StakeIn w.state owner productName id i p row)
    (hconfig : w.state.config = some config) (hrewards : p.hasLemRewards = true)
    (hdur : p.duration ≠ 0) (hdays : secondsPerDay.toNat * p.duration.toNat < 2 ^ 32)
    (hrange : TermInRange config.lastHalfLifeUpdated row)
    (huncrossed : Uncrossed config.lastHalfLifeUpdated row.startedAt row.endedAt)
    (hstep : Step env w e w') (hunstake : e.action = .unstake owner productName) :
    lemSettled owner productName h e = termLem config.lastHalfLifeUpdated row ∧
      ∀ h₂ w₂ e₂ w₂', Period env owner productName v h₂ w₂ → Step env w₂ e₂ w₂' →
        e₂.action = .unstake owner productName →
        lemSettled owner productName h₂ e₂ = lemSettled owner productName h e := by
  have hsettled := hperiod.lemSettled_eq hin hconfig hrewards hdur hdays hrange huncrossed hstep
    hunstake
  refine ⟨hsettled, ?_⟩
  intro h₂ w₂ e₂ w₂' hperiod₂ hstep₂ hunstake₂
  obtain ⟨hw₂, _, _, p₂, row₂, hin₂, -⟩ := hperiod₂.lemSpec
  obtain ⟨hterms, hsame⟩ := hperiod.agree hin hperiod₂ hin₂
  obtain ⟨_, config₂, hconfig₂, -⟩ := (lemTracked_of_reaches hw₂ hin₂).scheduled
  have hhalvings := hperiod.halvings_eq hperiod₂ hconfig hconfig₂
  have hsettled₂ := hperiod₂.lemSettled_eq hin₂ hconfig₂ (hterms.hasLemRewards.trans hrewards)
    (by rwa [hterms.duration]) (by rwa [hterms.duration]) (hhalvings ▸ hrange.of_sameStake hsame)
    (by rwa [hhalvings, hsame.startedAt, hsame.endedAt]) hstep₂ hunstake₂
  rw [hsettled, hsettled₂, termLem, termLem, hhalvings, hsame.balance, hsame.startedAt,
    hsame.endedAt]

end Settlement

section Samples

variable {days : UInt32} {v : World} {times : List ℕ} {total : ℤ}

instance (H : Fin 4 → UInt32) (s e : UInt32) : Decidable (Uncrossed H s e) :=
  inferInstanceAs (Decidable (∀ k, ¬ (s < H k ∧ H k < e)))

instance (H : Fin 4 → UInt32) (row : Staking) : Decidable (TermInRange H row) :=
  decidable_of_iff (row.startedAt ≤ row.endedAt ∧
      (rewardSecs H row.startedAt row.endedAt).toNat < 2 ^ 31 ∧
      row.balance.amount.toInt * (rewardSecs H row.startedAt row.endedAt).toNat < 2 ^ 63)
    ⟨fun h => ⟨h.1, h.2.1, h.2.2⟩, fun h => ⟨h.1, h.2, h.3⟩⟩

open Binary64

/-- The state after alice's stake in a product with LEM rewards and some days of duration. -/
def sampleStaked (days : UInt32) : Option World :=
  (play (stepWith sampleEnv) sampleWorld ((sampleDuration (some days)).take 2)).bind fun r =>
    (stepWith sampleEnv r.2 sampleDeposit).map fun x => x.2

/-- A claim of LEM by alice. -/
def sampleLemClaim (now : ℕ) : Ctx × Action :=
  (sampleCtx now "alice", .claimlem (nameLiteral "alice") (nameLiteral "basic"))

/-- The settlement of alice's stake after claims at some times, and whether the term of the
row is in range and crosses no halving. -/
def sampleLemSettled (v : World) (times : List ℕ) (last : ℕ) : Option (ℤ × Bool) :=
  (play (stepWith sampleEnv) v (times.map sampleLemClaim)).bind fun r =>
    (stepWith sampleEnv r.2 (sampleCtx last "alice",
        .unstake (nameLiteral "alice") (nameLiteral "basic"))).bind fun x =>
      (r.2.state.products.find? 0).bind fun p =>
        (r.2.state.stakings.find? (nameLiteral "alice", 0)).bind fun row =>
          r.2.state.config.bind fun config =>
            if p.name = nameLiteral "basic" ∧ row.productId = 0 ∧ p.hasLemRewards = true ∧
                p.duration ≠ 0 ∧ secondsPerDay.toNat * p.duration.toNat < 2 ^ 32 ∧
                TermInRange config.lastHalfLifeUpdated row then
              some (lemSettled (nameLiteral "alice") (nameLiteral "basic") r.1 x.1,
                decide (Uncrossed config.lastHalfLifeUpdated row.startedAt row.endedAt))
            else none

theorem exists_of_sampleLemSettled
    {last : ℕ} {clear : Bool} (hv : sampleStaked days = some v)
    (h : sampleLemSettled v times last = some (total, clear)) :
    ∃ h w e w' p row config,
      Period sampleEnv (nameLiteral "alice") (nameLiteral "basic") v h w ∧
      Step sampleEnv w e w' ∧
      e.action = .unstake (nameLiteral "alice") (nameLiteral "basic") ∧
      StakeIn w.state (nameLiteral "alice") (nameLiteral "basic") 0 0 p row ∧
      w.state.config = some config ∧ p.hasLemRewards = true ∧ p.duration ≠ 0 ∧
      secondsPerDay.toNat * p.duration.toNat < 2 ^ 32 ∧
      TermInRange config.lastHalfLifeUpdated row ∧
      decide (Uncrossed config.lastHalfLifeUpdated row.startedAt row.endedAt) = clear ∧
      h.length = times.length ∧
      lemSettled (nameLiteral "alice") (nameLiteral "basic") h e = total := by
  simp only [sampleLemSettled, Option.bind_eq_some_iff, Option.ite_none_right_eq_some,
    Option.some.injEq, Prod.mk.injEq] at h
  obtain ⟨⟨h, w⟩, hplay, ⟨e, w'⟩, hstep, p, hp, row, hrow, config, hconfig,
    ⟨hname, hid, hrewards, hdur, hdays, hrange⟩, htotal, hclear⟩ := h
  obtain ⟨⟨tr, u⟩, hopening, hlast⟩ := Option.bind_eq_some_iff.mp hv
  obtain ⟨⟨b, v'⟩, hstake, rfl⟩ := Option.map_eq_some_iff.mp hlast
  have hstakes : Stakes sampleEnv (nameLiteral "alice") (nameLiteral "basic") sampleDeposit.2 :=
    ⟨_, _, _, _, rfl, by decide +kernel, by decide +kernel, by decide +kernel⟩
  have hperiod := period_of_play sampleWorld_genesis hopening hstake hstakes hplay (by
    intro y hy
    obtain ⟨now, -, rfl⟩ := List.mem_map.mp hy
    exact not_endsPeriod (by simp [sampleLemClaim]) (by simp [sampleLemClaim]))
  have hlength := congrArg List.length (map_of_play (input_of_stepWith sampleEnv) _ hplay)
  rw [List.length_map, List.length_map] at hlength
  exact ⟨h, w, e, w', p, row, config, hperiod, step_of_stepWith _ _ _ _ _ hstep,
    congrArg Prod.snd (input_of_stepWith _ _ _ _ _ hstep), ⟨hname, hid, hp, hrow⟩, hconfig,
    hrewards, hdur, hdays, hrange, hclear, hlength, htotal⟩

/-- Alice stakes for ten days.  With a claim and without it she is paid the same. -/
theorem lem_settlement_exact_sample :
    ∃ v h w e h₂ w₂ e₂,
      Period sampleEnv (nameLiteral "alice") (nameLiteral "basic") v h w ∧
      Period sampleEnv (nameLiteral "alice") (nameLiteral "basic") v h₂ w₂ ∧
      h.length = 1 ∧ h₂.length = 0 ∧
      lemSettled (nameLiteral "alice") (nameLiteral "basic") h e = 240000 ∧
      lemSettled (nameLiteral "alice") (nameLiteral "basic") h₂ e₂ =
        lemSettled (nameLiteral "alice") (nameLiteral "basic") h e := by
  obtain ⟨v, hv, hobs⟩ := Option.map_eq_some_iff.mp
    (show (sampleStaked 10).map (fun v =>
        (sampleLemSettled v [500000] 900000, sampleLemSettled v [] 900000)) =
      some (some (240000, true), some (240000, true)) by decide +kernel)
  obtain ⟨hend, hend₂⟩ := Prod.mk.inj hobs
  obtain ⟨h, w, e, w', p, row, config, hperiod, hstep, hunstake, hin, hconfig, hrewards, hdur,
    hdays, hrange, huncrossed, hlength, htotal⟩ := exists_of_sampleLemSettled hv hend
  obtain ⟨h₂, w₂, e₂, w₂', -, -, -, hperiod₂, hstep₂, hunstake₂, -, -, -, -, -, -, -, hlength₂,
    -⟩ := exists_of_sampleLemSettled hv hend₂
  obtain ⟨-, hall⟩ := lem_settlement_exact hperiod hin hconfig hrewards hdur hdays
    hrange (of_decide_eq_true huncrossed) hstep hunstake
  exact ⟨v, h, w, e, h₂, w₂, e₂, hperiod, hperiod₂, hlength, hlength₂, htotal,
    hall h₂ w₂ e₂ w₂' hperiod₂ hstep₂ hunstake₂⟩

/-- Alice stakes for 730 days, and the first halving lies inside: with a claim after a year
she is paid 876 LEM, without it 7.2416 LEM. -/
theorem lem_settlement_depends_on_claims :
    ¬ ∀ env owner productName v h w id i p row config e w' h₂ w₂ e₂ w₂',
      Period env owner productName v h w → StakeIn w.state owner productName id i p row →
      w.state.config = some config → p.hasLemRewards = true → p.duration ≠ 0 →
      secondsPerDay.toNat * p.duration.toNat < 2 ^ 32 →
      TermInRange config.lastHalfLifeUpdated row → Step env w e w' →
      e.action = .unstake owner productName → Period env owner productName v h₂ w₂ →
      Step env w₂ e₂ w₂' → e₂.action = .unstake owner productName →
      lemSettled owner productName h₂ e₂ = lemSettled owner productName h e := by
  intro hall
  obtain ⟨v, hv, hobs⟩ := Option.map_eq_some_iff.mp
    (show (sampleStaked 730).map (fun v =>
        (sampleLemSettled v [31538000] 63100000, sampleLemSettled v [] 63100000)) =
      some (some (8760000, false), some (72416, false)) by decide +kernel)
  obtain ⟨hend, hend₂⟩ := Prod.mk.inj hobs
  obtain ⟨h, w, e, w', p, row, config, hperiod, hstep, hunstake, hin, hconfig, hrewards, hdur,
    hdays, hrange, -, -, htotal⟩ := exists_of_sampleLemSettled hv hend
  obtain ⟨h₂, w₂, e₂, w₂', -, -, -, hperiod₂, hstep₂, hunstake₂, -, -, -, -, -, -, -, -, htotal₂⟩ :=
    exists_of_sampleLemSettled hv hend₂
  have hsame := hall _ _ _ v h w 0 0 p row config e w' h₂ w₂ e₂ w₂' hperiod hin hconfig hrewards
    hdur hdays hrange hstep hunstake hperiod₂ hstep₂ hunstake₂
  rw [htotal, htotal₂] at hsame
  exact absurd hsame (by decide)

end Samples

end Lemonade
