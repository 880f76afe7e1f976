import Lemonade.Safety.RewardTime
import Mathlib.Tactic

/-!
# The range of reward products

`claimled` multiplies a balance by the seconds since the last claim, and `claimlem`, `unstake`
and the top-up of a stake multiply it by weighted seconds.  These products are taken in 64 bits
before the rate, a double, brings them down.  Where the product fits, the reward is the exact
one up to four roundings, which can carry it over an integer either way.
-/

namespace Lemonade

open Kernel

section Sites

/-- The places where a balance is multiplied by seconds. -/
inductive RewardSite where
  | claimled
  | loop (l : RewardLoop)
deriving DecidableEq, Repr

variable (config : Config) (product : Product) (row : Staking) (ctx : Ctx)

/-- Where the time begins that is paid for. -/
def RewardSite.start : RewardSite → UInt32
  | .claimled => row.lastClaimLedReward
  | .loop .topUp => row.startedAt
  | .loop .unstake => row.startedAt
  | .loop .claimlem => row.lastClaimLemReward

/-- Where the time ends that is paid for. -/
def RewardSite.stop : RewardSite → UInt32
  | .claimled => claimTime ctx product row
  | .loop .topUp => rewardsEnd row ctx.now
  | .loop .unstake => rewardsEnd row (settlementTime ctx product row)
  | .loop .claimlem => rewardsEnd row ctx.now

/-- Seconds that a balance is multiplied by, as a number. -/
def RewardSite.seconds (site : RewardSite) : ℕ :=
  match site with
  | .claimled => (site.stop product row ctx - site.start row).toNat
  | .loop _ =>
      (rewardSecs config.lastHalfLifeUpdated (site.start row) (site.stop product row ctx)).toNat

/-- The same seconds as the source multiplies them. -/
def RewardSite.factor (site : RewardSite) : Int64 :=
  match site with
  | .claimled => Int64.ofNat (site.stop product row ctx - site.start row).toNat
  | .loop l => l.secs config.lastHalfLifeUpdated (site.start row) (site.stop product row ctx)

/-- The reward that the source computes. -/
def RewardSite.reward [Doubles] (site : RewardSite) : Result Int64 :=
  match site with
  | .claimled => claimAmount row (site.stop product row ctx - site.start row)
  | .loop _ => Asset.amount <$> lemReward row.balance (site.factor config product row ctx)

/-- The exact value of the reward -/
def RewardSite.value (site : RewardSite) : ℚ :=
  match site with
  | .claimled => interest row.balance.amount.toInt row.currentYield
      (site.seconds config product row ctx)
  | .loop _ => lemValue row.balance.amount.toInt (site.seconds config product row ctx)

/-- The product is below `2 ^ 63`.  The seconds of `claimlem` go through a signed int. -/
structure RewardFits (site : RewardSite) : Prop where
  product_lt : row.balance.amount.toInt * site.seconds config product row ctx < 2 ^ 63
  seconds_lt : site = .loop .claimlem → site.seconds config product row ctx < 2 ^ 31

/-- The product of a site has not overflowed.  The reward is cut off from the exact value up to
rounding, and is not negative unless a yield below one makes it so. -/
structure RewardNear [Doubles] (site : RewardSite) : Prop where
  product_eq : (row.balance.amount * site.factor config product row ctx).toInt =
    row.balance.amount.toInt * site.seconds config product row ctx
  reward_near : ∀ r, site.reward config product row ctx = .ok r →
    ∃ v : ℚ, r.toInt = trunc v ∧
      |v - site.value config product row ctx| ≤ |site.value config product row ctx| / 2 ^ 49
  reward_nonneg : ∀ r, site.reward config product row ctx = .ok r →
    (site = .claimled → 1 ≤ row.currentYield) → 0 ≤ r.toInt

instance (site : RewardSite) : Decidable (RewardFits config product row ctx site) :=
  decidable_of_iff (row.balance.amount.toInt * site.seconds config product row ctx < 2 ^ 63 ∧
      (site = .loop .claimlem → site.seconds config product row ctx < 2 ^ 31))
    ⟨fun h => ⟨h.1, h.2⟩, fun h => ⟨h.1, h.2⟩⟩

end Sites

section Products

variable {a : Int64} {n : UInt32}

theorem toInt_mul_ofNat_eq_iff (ha : 0 ≤ a.toInt) :
    (a * Int64.ofNat n.toNat).toInt = a.toInt * n.toNat ↔ a.toInt * n.toNat < 2 ^ 63 := by
  constructor
  · intro h
    rw [← h]
    exact (a * Int64.ofNat n.toNat).toInt_lt
  · exact toInt_mul_ofNat ha

/-- Seconds from `2 ^ 31` on turn negative in a signed int, and no product hides that. -/
theorem toInt_mul_toInt32_eq_iff (ha : 0 < a.toInt) :
    (a * n.toInt32.toInt64).toInt = a.toInt * n.toNat ↔
      a.toInt * n.toNat < 2 ^ 63 ∧ n.toNat < 2 ^ 31 := by
  rcases lt_or_ge n.toNat (2 ^ 31) with hn | hn
  · rw [toInt64_toInt32_of_lt hn, toInt_mul_ofNat_eq_iff ha.le]
    exact (and_iff_left hn).symm
  · have hsigned : n.toInt32.toInt64.toInt = n.toNat - 2 ^ 32 := by
      rw [Int32.toInt_toInt64, ← Int32.toInt_toBitVec, UInt32.toBitVec_toInt32,
        BitVec.toInt_eq_toNat_cond, UInt32.toNat_toBitVec]
      split_ifs
      · omega
      · norm_num
    constructor
    · intro h
      have hlt := (a * n.toInt32.toInt64).toInt_lt
      have hlow : a.toInt * 2 ^ 31 ≤ a.toInt * n.toNat :=
        mul_le_mul_of_nonneg_left (by exact_mod_cast hn) ha.le
      rw [h] at hlt
      rw [Int64.toInt_mul, hsigned, mul_sub, Int.bmod_def] at h
      split_ifs at h <;> omega
    · rintro ⟨-, hsmall⟩
      omega

end Products

section Exactness

variable {config : Config} {product : Product} {row : Staking} {ctx : Ctx}

/-- What a site multiplies its balance by, and when that is exact. -/
theorem product_eq_iff (hpos : 0 < row.balance.amount.toInt) (site : RewardSite) :
    (row.balance.amount * site.factor config product row ctx).toInt =
        row.balance.amount.toInt * site.seconds config product row ctx ↔
      row.balance.amount.toInt * site.seconds config product row ctx < 2 ^ 63 ∧
        (site = .loop .claimlem → site.seconds config product row ctx < 2 ^ 31) := by
  cases site with
  | claimled =>
      refine (toInt_mul_ofNat_eq_iff hpos.le).trans ?_
      simp [RewardSite.seconds]
  | loop l =>
      cases l with
      | topUp =>
          refine (toInt_mul_ofNat_eq_iff hpos.le).trans ?_
          simp [RewardSite.seconds]
      | unstake =>
          refine (toInt_mul_ofNat_eq_iff hpos.le).trans ?_
          simp [RewardSite.seconds]
      | claimlem =>
          refine (toInt_mul_toInt32_eq_iff hpos).trans ?_
          simp [RewardSite.seconds]

/-- A claim of LED is the interest of its time, up to rounding. -/
theorem claimAmount_near [Doubles]
    {n : UInt32} {r : Int64} (hbalance : 0 ≤ row.balance.amount.toInt)
    (hsmall : row.balance.amount.toInt * n.toNat < 2 ^ 63) (h : claimAmount row n = .ok r) :
    (∃ v : ℚ, r.toInt = trunc v ∧
      |v - interest row.balance.amount.toInt row.currentYield n.toNat| ≤
        |interest row.balance.amount.toInt row.currentYield n.toNat| / 2 ^ 49) ∧
      (1 ≤ row.currentYield → 0 ≤ r.toInt) := by
  have hvalue : r.toInt = trunc (claimInterest (row.balance.amount.toInt * n.toNat)
      row.currentYield) := by
    rw [← toInt_mul_ofNat hbalance hsmall]
    exact toInt64_eq_ok_iff.mp h
  refine ⟨⟨_, hvalue, (rounded_claimInterest _ _ _).abs_sub_le (by norm_num)⟩, ?_⟩
  intro hyield
  have hproduct : (0 : ℚ) ≤ ((row.balance.amount.toInt * n.toNat : ℤ) : ℚ) :=
    Int.cast_nonneg (mul_nonneg hbalance (Int.natCast_nonneg _))
  rw [hvalue]
  exact trunc_nonneg (Doubles.rnd_nonneg
    (mul_nonneg (Doubles.rnd_nonneg hproduct) (yieldPerSec_nonneg hyield)))

/-- Where the product of a site fits, its reward is near the exact one. -/
theorem rewardNear_of_fits [Doubles]
    (hpos : 0 < row.balance.amount.toInt) {site : RewardSite}
    (hfits : RewardFits config product row ctx site) : RewardNear config product row ctx site := by
  have hproduct := (product_eq_iff hpos site).mpr ⟨hfits.product_lt, hfits.seconds_lt⟩
  cases site with
  | claimled =>
      refine ⟨hproduct, ?_, ?_⟩
      · intro r hr
        exact (claimAmount_near hpos.le hfits.product_lt hr).1
      · intro r hr hyield
        exact (claimAmount_near hpos.le hfits.product_lt hr).2 (hyield rfl)
  | loop l =>
      have hamount : ∀ r, (RewardSite.loop l).reward config product row ctx = .ok r →
          r.toInt = lemAmount row.balance.amount.toInt
            ((RewardSite.loop l).seconds config product row ctx) := by
        intro r hr
        simp only [RewardSite.reward, map_eq_ok_iff] at hr
        obtain ⟨reward, hlem, rfl⟩ := hr
        rw [(lemReward_eq_ok hlem).1, hproduct, lemAmount]
      refine ⟨hproduct, ?_, ?_⟩
      · intro r hr
        exact ⟨_, hamount r hr, (rounded_lemAmount _).abs_sub_le (by norm_num)⟩
      · intro r hr _
        rw [hamount r hr]
        exact lemAmount_nonneg hpos.le

end Exactness

section Actions

variable [Doubles]
variable {env : Env} {ctx : Ctx} {s : State} {w : World} {owner productName : Name} {id i : Nat}
variable {config : Config} {product : Product} {row : Staking}

/-- The rewards that the actions compute for a row are those of the sites. -/
structure RewardsOf (env : Env) (ctx : Ctx) (s : State) (owner productName : Name)
    (config : Config) (product : Product) (row : Staking) : Prop where
  claimled : ∀ s' sent, claimled ctx s owner productName = .ok (s', sent) →
    ∃ r, RewardSite.claimled.reward config product row ctx = .ok r ∧
      sent = if 0 < r then [.transfer ledTokenContract owner ⟨r, ledSymbol⟩ "claim led".toList]
        else []
  claimlem : ∀ s' sent, claimlem env ctx s owner productName = .ok (s', sent) →
    ∃ issued r, (RewardSite.loop .claimlem).reward config product row ctx = .ok r ∧
      sent = issued ++ if 0 < r then
        [.transfer ledTokenContract owner ⟨r, lemSymbol⟩ "claim lem".toList] else []
  topUp : ∀ quantity pricePrediction s' sent,
    stake env ctx s owner quantity productName pricePrediction = .ok (s', sent) →
    product.hasLemRewards = true →
    ∃ (paid : List Inline) (total owed : Asset),
      (RewardSite.loop .topUp).reward config product row ctx = .ok total.amount ∧
      total.sub row.lemRewards = .ok owed ∧ sent = paid ++ sendPositive owner owed "stake reward"
  unstake : ∀ s' sent, unstake env ctx s owner productName = .ok (s', sent) →
    product.hasLemRewards = true →
    ∃ (paid : List Inline) (total owed : Asset),
      (RewardSite.loop .unstake).reward config product row ctx = .ok total.amount ∧
      total.sub row.lemRewards = .ok owed ∧ sent = paid ++ sendPositive owner owed "unstake"

theorem lemSettlement_eq_ok
    {current : UInt32} {owed : Asset} (hrewards : product.hasLemRewards = true)
    (h : lemSettlement config product row current = .ok owed) :
    ∃ total, lemReward row.balance (Int64.ofNat
        (rewardSecs config.lastHalfLifeUpdated row.startedAt (rewardsEnd row current)).toNat) =
          .ok total ∧ total.sub row.lemRewards = .ok owed := by
  rw [lemSettlement, if_pos hrewards] at h
  simp only [bind_eq_ok_iff] at h
  exact h

theorem rewardsOf_of_stakeIn
    (inv : StakingLedger s) (hin : StakeIn s owner productName id i product row)
    (hconfig : s.config = some config) :
    RewardsOf env ctx s owner productName config product row := by
  refine ⟨?_, ?_, ?_, ?_⟩
  · intro s' sent h
    obtain ⟨_, _, _, _, amount, -, hproduct, hrow, hamount, hsent⟩ := claimled_eq_ok h
    obtain ⟨-, -, rfl, rfl⟩ := hin.eq_of_find inv hproduct hrow
    refine ⟨amount, hamount, ?_⟩
    rcases hsent with ⟨hnot, -, rfl⟩ | ⟨_, hpos, -, -, rfl⟩
    · exact (if_neg hnot).symm
    · exact (if_pos hpos).symm
  · intro s' sent h
    obtain ⟨_, _, issued, _, _, _, _, reward, -, hconfig', -, hproduct, hrow, -, hlem, hsent⟩ :=
      claimlem_eq_ok h
    obtain rfl := Option.some.inj (hconfig.symm.trans hconfig')
    obtain ⟨-, -, rfl, rfl⟩ := hin.eq_of_find inv hproduct hrow
    refine ⟨issued, reward.amount, map_eq_ok_iff.mpr ⟨reward, hlem, rfl⟩, ?_⟩
    rcases hsent with ⟨hnot, -, rfl⟩ | ⟨_, hpos, -, -, rfl⟩
    · rw [if_neg hnot, List.append_nil]
    · rw [if_pos hpos, ← (lemReward_eq_ok hlem).2.2]
  · intro quantity pricePrediction s' sent h hrewards
    obtain ⟨_, _, _, _, -, -, -, hproduct, hconfig', -, hcase⟩ := stake_eq_ok h
    obtain rfl := Option.some.inj (hconfig.symm.trans hconfig')
    rcases hcase with ⟨hnone, -, -⟩ | ⟨_, _, hrow, hmore⟩
    · obtain ⟨hp, hname⟩ := findProduct_eq_some hproduct
      obtain rfl := inv.names _ _ _ _ hin.product hp (hin.name.trans hname.symm)
      exact absurd hin.productId (findStaking_eq_none hnone hin.row)
    · obtain ⟨-, -, rfl, rfl⟩ := hin.eq_of_find inv hproduct hrow
      obtain ⟨_, _, _, _, owed, _, _, -, hlem, -, -, -, -, -, -, -, rfl⟩ := stakeMore_eq_ok hmore
      obtain ⟨total, htotal, howed⟩ := lemSettlement_eq_ok hrewards hlem
      exact ⟨_, total, owed, map_eq_ok_iff.mpr ⟨total, htotal, rfl⟩, howed, rfl⟩
  · intro s' sent h hrewards
    obtain ⟨_, _, _, _, _, _, _, issued, _, _, toOwnerLed, owed, _, -, hconfig', -, -, hlem,
      hproduct, hrow, -, -, -, -, -, -, rfl⟩ := unstake_eq_ok h
    obtain rfl := Option.some.inj (hconfig.symm.trans hconfig')
    obtain ⟨-, -, rfl, rfl⟩ := hin.eq_of_find inv hproduct hrow
    obtain ⟨total, htotal, howed⟩ := lemSettlement_eq_ok hrewards hlem
    exact ⟨issued ++ [.transfer ledTokenContract owner toOwnerLed "unstake".toList], total, owed,
      map_eq_ok_iff.mpr ⟨total, htotal, rfl⟩, howed, by simp⟩

/-- In every reachable state, each reward that an action computes for a row is near the exact
one if its product fits into 64 bits. -/
theorem rewards_near_exact
    (hw : Reaches env w) (hin : StakeIn w.state owner productName id i product row)
    (hconfig : w.state.config = some config) :
    RewardsOf env ctx w.state owner productName config product row ∧
      ∀ site, RewardFits config product row ctx site →
        RewardNear config product row ctx site := by
  have inv := stakingLedger_of_reaches hw
  refine ⟨rewardsOf_of_stakeIn inv hin hconfig, ?_⟩
  intro site hfits
  exact rewardNear_of_fits (hin.stakeOk inv).positive_toInt hfits

end Actions

section Samples

open Binary64

/-- A claim on 100 LED after a day -/
theorem rewards_near_exact_sample :
    ∃ w config product row, Reaches sampleEnv w ∧
      StakeIn w.state (nameLiteral "alice") (nameLiteral "basic") 0 0 product row ∧
      row.balance.amount = 1000000 ∧
      RewardNear config product row (sampleCtx 88400 "alice") .claimled := by
  obtain ⟨h, w, hplay, hobs⟩ := exists_of_play
    (show (play (stepWith sampleEnv) sampleWorld (sampleYield 2 none 1000000)).map (fun r =>
        sampleRow (fun config _ p row => decide (p.name = nameLiteral "basic" ∧
          row.productId = 0 ∧ row.balance.amount = 1000000 ∧
          RewardFits config p row (sampleCtx 88400 "alice") .claimled)) r.2.state) =
      some (some true) by decide +kernel)
  obtain ⟨row, p, config, _, hrow, hp, hconfig, -, htest⟩ := exists_of_sampleRow hobs
  obtain ⟨hname, hid, hbalance, hfits⟩ := of_decide_eq_true htest
  have hw := reaches_of_play sampleWorld_genesis hplay
  have hin : StakeIn w.state (nameLiteral "alice") (nameLiteral "basic") 0 0 p row :=
    ⟨hname, hid, hid ▸ hp, hrow⟩
  exact ⟨w, config, p, row, hw, hin, hbalance,
    (rewards_near_exact hw hin hconfig).2 .claimled hfits⟩

/-- A statement holds of all rows, at all times. -/
def ForAllRows (P : Config → Product → Staking → Ctx → Prop) : Prop :=
  ∀ env w ctx config owner productName id i product row, Reaches env w →
    w.state.config = some config → StakeIn w.state owner productName id i product row →
    P config product row ctx

theorem not_forAllRows
    {P : Config → Product → Staking → Ctx → Prop} (yield : ℚ) (days : Option UInt32)
    (amount : Int64) (now : ℕ) (test : Config → Product → Staking → Bool)
    (hplay : (play (stepWith sampleEnv) sampleWorld (sampleYield yield days amount)).map (fun r =>
        sampleRow (fun config _ p row => decide (p.name = nameLiteral "basic" ∧
          row.productId = 0) && test config p row) r.2.state) = some (some true))
    (htest : ∀ config p row, test config p row = true →
      ¬ P config p row (sampleCtx now "alice")) : ¬ ForAllRows P := by
  intro hall
  obtain ⟨h, w, hplay, hobs⟩ := exists_of_play hplay
  obtain ⟨row, p, config, _, hrow, hp, hconfig, -, hrest⟩ := exists_of_sampleRow hobs
  rw [Bool.and_eq_true, decide_eq_true_eq] at hrest
  obtain ⟨⟨hname, hid⟩, hfails⟩ := hrest
  exact htest config p row hfails (hall sampleEnv w _ config _ _ 0 0 p row
    (reaches_of_play sampleWorld_genesis hplay) hconfig ⟨hname, hid, hid ▸ hp, hrow⟩)

/-- The product of a site fits, and the source computes the first number where the exact
reward is the second. -/
def RewardOff (config : Config) (product : Product) (row : Staking) (ctx : Ctx)
    (site : RewardSite) (r : Int64) (expected : ℤ) : Prop :=
  RewardFits config product row ctx site ∧
    (site.reward config product row ctx).toOption = some r ∧
    trunc (site.value config product row ctx) = expected

instance (config : Config) (product : Product) (row : Staking) (ctx : Ctx) (site : RewardSite)
    (r : Int64) (expected : ℤ) : Decidable (RewardOff config product row ctx site r expected) :=
  inferInstanceAs (Decidable (_ ∧ _ ∧ _))

/-- Products overflow: 10 million LED for 100 million seconds.  Those that fit do not make a
reward exact: the interest of 100 LED for 235872 seconds at a yield of two should be 7500
units, and a claim of LEM on 101544.7319 LED after 8757721 seconds pays a unit too much.  At a
yield of zero the reward is negative. -/
theorem rewards_not_exact :
    ¬ ForAllRows (fun config product row ctx => row.balance.amount.toInt *
        RewardSite.claimled.seconds config product row ctx < 2 ^ 63) ∧
      (∀ site, site = .claimled ∨ site = .loop .claimlem →
        ¬ ForAllRows (fun config product row ctx => RewardFits config product row ctx site →
          ∀ r, site.reward config product row ctx = .ok r →
            r.toInt = trunc (site.value config product row ctx))) ∧
      ¬ ForAllRows (fun config product row ctx => RewardFits config product row ctx .claimled →
        ∀ r, RewardSite.claimled.reward config product row ctx = .ok r → 0 ≤ r.toInt) := by
  have hok : ∀ {x : Result Int64} {r : Int64}, x.toOption = some r → x = .ok r := by
    intro x r h
    cases x with
    | error e => cases h
    | ok a => exact congrArg Except.ok (Option.some.inj h)
  refine ⟨?_, ?_, ?_⟩
  · refine not_forAllRows 2 none 100000000000 100002000
      (fun config p row => decide (2 ^ 63 ≤ row.balance.amount.toInt *
        RewardSite.claimled.seconds config p row (sampleCtx 100002000 "alice")))
      (by decide +kernel) ?_
    intro config p row hover
    exact not_lt.mpr (of_decide_eq_true hover)
  · rintro site (rfl | rfl)
    · refine not_forAllRows 2 none 1000000 237872
        (fun config p row => decide (RewardOff config p row (sampleCtx 237872 "alice")
          .claimled 7499 7500)) (by decide +kernel) ?_
      intro config p row hoff hexact
      obtain ⟨hfits, hreward, hvalue⟩ := of_decide_eq_true hoff
      have heq := hexact hfits 7499 (hok hreward)
      rw [hvalue] at heq
      exact absurd heq (by decide)
    · refine not_forAllRows 2 (some 365) 1015447319 8759721
        (fun config p row => decide (RewardOff config p row (sampleCtx 8759721 "alice")
          (.loop .claimlem) 2470278975 2470278974)) (by decide +kernel) ?_
      intro config p row hoff hexact
      obtain ⟨hfits, hreward, hvalue⟩ := of_decide_eq_true hoff
      have heq := hexact hfits 2470278975 (hok hreward)
      rw [hvalue] at heq
      exact absurd heq (by decide)
  · refine not_forAllRows 0 none 1000000 88400
      (fun config p row => decide (RewardOff config p row (sampleCtx 88400 "alice")
        .claimled (-2747) (-2747))) (by decide +kernel) ?_
    intro config p row hoff hnonneg
    obtain ⟨hfits, hreward, -⟩ := of_decide_eq_true hoff
    exact absurd (hnonneg hfits (-2747) (hok hreward)) (by decide)

end Samples

end Lemonade
