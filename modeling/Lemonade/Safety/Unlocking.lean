import Lemonade.Safety.Deposits
import Lemonade.Safety.Issuance
import Lemonade.Safety.StakingPeriod
import Mathlib.Tactic

/-!
# When a stake can be taken out

Once the lock of a stake has expired, nearly all checks on the way of `unstake` pass in
every state that can come about: the product and the row are found, LEM can be issued, and
the total of the product covers the balance.  What remains are the amounts.  They can fail
for products with yields below one, with claims above the final yield, or with a token
other than LED.
-/

namespace Lemonade

open Kernel

section Issuing

variable {env : Env} {ctx : Ctx} {s : State} {q : ℚ}

theorem exists_toInt64
    (hlow : -maxAmount ≤ trunc q) (hhigh : trunc q ≤ maxAmount) :
    ∃ a, toInt64 q = .ok a ∧ a.toInt = trunc q ∧ AmountInRange a := by
  unfold maxAmount at hlow hhigh
  have htoInt : (Int64.ofInt (trunc q)).toInt = trunc q := by
    rw [Int64.toInt_ofInt]
    exact Int.bmod_eq_of_le (by norm_num [Int64.size]; omega) (by norm_num [Int64.size]; omega)
  refine ⟨Int64.ofInt (trunc q), toInt64_eq_ok_iff.mpr htoInt, htoInt, ?_⟩
  unfold AmountInRange maxAmount
  omega

/-- A number between two doubles that are integers is cut off between them. -/
theorem abs_trunc_le_of_abs_le {q : ℚ} {n : ℤ} (h : |q| ≤ n) : |trunc q| ≤ n := by
  have hle := (abs_trunc_le q).trans h
  exact_mod_cast hle

/-- A share of an amount is an amount: half of the largest amount is far from the limit,
whatever way it is rounded. -/
theorem exists_share [Doubles]
    {a : Int64} {rate : ℚ} (hrange : AmountInRange a) (hrate : 0 ≤ rate) (hle : rate ≤ 1 / 2) :
    ∃ b, toInt64 (rnd (rnd a.toInt * rnd rate)) = .ok b ∧ AmountInRange b := by
  have ha : |(a.toInt : ℚ)| ≤ 2 ^ 62 := by
    have habs : |a.toInt| ≤ 2 ^ 62 := by
      obtain ⟨hlow, hhigh⟩ := hrange
      unfold maxAmount at hlow hhigh
      exact abs_le.mpr ⟨by omega, by omega⟩
    exact_mod_cast habs
  have hhalf : |rate| ≤ 1 / 2 ^ 1 := by
    rw [abs_of_nonneg hrate, pow_one]
    exact hle
  have hproduct : |rnd (a.toInt : ℚ) * rnd rate| ≤ 2 ^ 61 := by
    calc |rnd (a.toInt : ℚ) * rnd rate| = |rnd (a.toInt : ℚ)| * |rnd rate| := abs_mul _ _
      _ ≤ 2 ^ 62 * (1 / 2 ^ 1) := by
        gcongr
        · exact Doubles.abs_rnd_le (isDouble_two_pow 62) ha
        · exact Doubles.abs_rnd_le (isDouble_inv_two_pow 1) hhalf
      _ = 2 ^ 61 := by norm_num
  have hround : |rnd (rnd (a.toInt : ℚ) * rnd rate)| ≤ ((2 ^ 61 : ℤ) : ℚ) := by
    push_cast
    exact Doubles.abs_rnd_le (isDouble_two_pow 61) hproduct
  obtain ⟨hlow, hhigh⟩ := abs_le.mp (abs_trunc_le_of_abs_le hround)
  obtain ⟨b, hb, -, hbrange⟩ := exists_toInt64 (q := rnd (rnd (a.toInt : ℚ) * rnd rate))
    (by unfold maxAmount; omega) (by unfold maxAmount; omega)
  exact ⟨b, hb, hbrange⟩

theorem exists_distribute [Doubles]
    {token : Asset} (hrange : AmountInRange token.amount) :
    ∃ sent, distribute env token = .ok sent := by
  have hshare : ∀ rate : ℚ, 0 ≤ rate → rate ≤ 1 / 2 → ∃ r, (do
      let amount ← toInt64 (rnd (rnd token.amount.toInt * rnd rate))
      Asset.make amount lemSymbol) = .ok r := by
    intro rate hrate hle
    obtain ⟨b, hb, hbrange⟩ := exists_share hrange hrate hle
    refine ⟨⟨b, lemSymbol⟩, ?_⟩
    rw [bind_eq_ok_iff]
    exact ⟨b, hb, Asset.make_eq_ok_iff.mpr ⟨hbrange, by decide +kernel, rfl⟩⟩
  obtain ⟨_, h1⟩ := hshare (3 / 10) (by norm_num) (by norm_num)
  obtain ⟨_, h2⟩ := hshare (1 / 10) (by norm_num) (by norm_num)
  obtain ⟨_, h3⟩ := hshare (5 / 100) (by norm_num) (by norm_num)
  simp only [distribute, bind_eq_ok_iff, pure_eq_ok_iff] at h1 h2 h3 ⊢
  exact ⟨_, _, h1, _, h2, _, h3, _, h3, rfl⟩

/-- New LEM can be counted as long as the supply of LEM is an amount. -/
theorem exists_newToken
    {stat : LedTokenStat} (hstat : ctx.lemStat = some stat) (hissuer : stat.issuer = env.self)
    (hsupply : AmountInRange stat.supply.amount) (secs : UInt32) :
    ∃ token, newToken env ctx secs = .ok token ∧ AmountInRange token.amount := by
  have hsecs := toInt_scaledFill secs
  have hrange : AmountInRange (scaledFill secs) := by
    unfold AmountInRange maxAmount
    omega
  have hmax : lemMax.toInt = 2207520000000 := by decide
  have hsum : (scaledFill secs + stat.supply.amount).toInt =
      (scaledFill secs).toInt + stat.supply.amount.toInt := toInt_add_of_inRange_both hrange hsupply
  have hvalid : lemSymbol.isValid = true := by decide +kernel
  simp only [newToken, bind_eq_ok_iff, Asset.make_eq_ok_iff, require_eq_ok_iff,
    Option.filter_eq_some_iff]
  by_cases hover : lemMax < scaledFill secs + stat.supply.amount
  · have hover' := Int64.lt_iff_toInt_lt.mp hover
    have hrest : AmountInRange (lemMax - stat.supply.amount) := by
      unfold AmountInRange maxAmount at *
      rw [Int64.toInt_sub, Int.bmod_def]
      split_ifs <;> omega
    refine ⟨⟨lemMax - stat.supply.amount, lemSymbol⟩, ⟨⟨scaledFill secs, lemSymbol⟩,
      ⟨hrange, hvalid, rfl⟩, stat, ⟨hstat, decide_eq_true hissuer⟩, ?_⟩, hrest⟩
    rw [if_pos hover, Asset.make_eq_ok_iff]
    exact ⟨hrest, hvalid, rfl⟩
  · refine ⟨⟨scaledFill secs, lemSymbol⟩, ⟨⟨scaledFill secs, lemSymbol⟩,
      ⟨hrange, hvalid, rfl⟩, stat, ⟨hstat, decide_eq_true hissuer⟩, ?_⟩, hrange⟩
    rw [if_neg hover]
    rfl

/-- `issue_lem` does not fail. -/
theorem exists_issueLem [Doubles]
    {config : Config} {stat : LedTokenStat} (hconfig : s.config = some config)
    (hstat : ctx.lemStat = some stat) (hissuer : stat.issuer = env.self)
    (hsupply : AmountInRange stat.supply.amount) :
    ∃ t issued, issueLem env ctx s = .ok (t, issued) := by
  obtain ⟨token, htoken, hrange⟩ := exists_newToken hstat hissuer hsupply
    (fillLoop config ctx.now).secsSinceLastFill
  by_cases hover : config.halfLifeCount = 3
  · refine ⟨s, [], ?_⟩
    simp [issueLem, hconfig, hover]
  · by_cases hpos : 0 < token.amount
    · obtain ⟨sent, hsent⟩ : ∃ sent, distribute env token = .ok sent :=
        exists_distribute hrange
      refine ⟨{ s with config := some { config with
        halfLifeCount := (fillLoop config ctx.now).halfLife
        lastLemBucketFill := ctx.now } }, sent, ?_⟩
      simp [issueLem, hconfig, hover, htoken, hpos, hsent]
    · refine ⟨s, [], ?_⟩
      simp [issueLem, hconfig, hover, htoken, hpos]

end Issuing

section Rows

variable {env : Env} {w : World} {owner productName : Name} {id i : Nat} {p : Product}
variable {row : Staking}

/-- The rewards of a row are amounts of LED and LEM. -/
structure RewardsOk (row : Staking) : Prop where
  ledSymbol : row.ledRewards.symbol = ledSymbol
  led : Holdable row.ledRewards.amount
  lemSymbol : row.lemRewards.symbol = lemSymbol
  lem : Holdable row.lemRewards.amount

/-- What a claim has added is an amount again. -/
theorem holdable_of_add
    {x y r : Asset} (hx : Holdable x.amount) (hy : 0 < y.amount) (h : x.add y = .ok r) :
    Holdable r.amount ∧ r.symbol = x.symbol := by
  obtain ⟨-, hrange, rfl⟩ := Asset.add_eq_ok_iff.mp h
  have hpos : 0 < y.amount.toInt := Int64.lt_iff_toInt_lt.mp hy
  have hsum := toInt_add_of_inRange hx.inRange hrange
  have hnonneg := hx.nonneg
  refine ⟨⟨?_, hrange⟩, rfl⟩
  dsimp only
  omega

theorem RewardsOk.step [Doubles]
    {ctx : Ctx} {s : State} {row' : Staking} {a : Action} {sent : List Inline}
    (ok : RewardsOk row) (h : RowStep ctx s owner productName p row row' a sent) :
    RewardsOk row' := by
  obtain ⟨hledSymbol, hled, hlemSymbol, hlem⟩ := ok
  cases h with
  | same eq =>
      rw [eq]
      exact ⟨hledSymbol, hled, hlemSymbol, hlem⟩
  | claimled action pos h add eq paid =>
      obtain ⟨hheld, hsymbol⟩ := holdable_of_add hled pos add
      rw [eq]
      exact ⟨hsymbol.trans hledSymbol, hheld, hlemSymbol, hlem⟩
  | claimlem action config_eq pos h add eq paid =>
      obtain ⟨hheld, hsymbol⟩ := holdable_of_add hlem pos add
      rw [eq]
      exact ⟨hledSymbol, hled, hsymbol.trans hlemSymbol, hheld⟩

theorem rewardsOk_of_reaches [Doubles]
    (hw : Reaches env w) (hin : StakeIn w.state owner productName id i p row) :
    RewardsOk row := by
  obtain ⟨w₀, h, hw₀, run⟩ := hw
  refine row_invariant (fun _ => True) (fun _ _ row => RewardsOk row) ?_ ?_ hw₀ run
    (fun _ _ => trivial) hin
  · intro u b v p row _ _ _ _ _ hfresh
    refine ⟨?_, ?_, ?_, ?_⟩
    · rw [hfresh.rewards]
      rfl
    · rw [hfresh.rewards]
      exact holdable_zero
    · rw [hfresh.lemRewards]
      rfl
    · rw [hfresh.lemRewards]
      exact holdable_zero
  · intro u e v p p' row row' _ _ _ ok _ hrowstep
    exact ok.step hrowstep

/-- The totals of products are amounts. -/
def TotalsInRange (s : State) : Prop :=
  ∀ id p, s.products.find? id = some p → AmountInRange p.currentAmount.amount

theorem TotalsInRange.put
    {s s' : State} {p' : Product} (h : TotalsInRange s)
    (hproducts : s'.products = s.products.put id p')
    (hrange : AmountInRange p'.currentAmount.amount) : TotalsInRange s' := by
  intro j q hq
  rw [hproducts, Table.find?_put] at hq
  split_ifs at hq
  · obtain rfl := Option.some.inj hq
    exact hrange
  · exact h j q hq

theorem TotalsInRange.of_products
    {s s' : State} (h : TotalsInRange s) (hproducts : s'.products = s.products) :
    TotalsInRange s' := by
  intro j q hq
  rw [hproducts] at hq
  exact h j q hq

theorem TotalsInRange.move [Doubles]
    {ctx : Ctx} {s s' : State} {a : Action} {sent : List Inline} (inv : TotalsInRange s)
    (h : StakeMove env ctx s a s' sent) : TotalsInRange s' := by
  cases h with
  | addproduct h =>
      obtain ⟨_, p, -, -, -, hzero, -, -, -, -, rfl⟩ := addproduct_eq_ok h
      refine inv.put rfl ?_
      rw [hzero]
      exact amountInRange_zero
  | rmproduct h =>
      obtain ⟨_, _, -, -, -, rfl⟩ := rmproduct_eq_ok h
      intro j q hq
      dsimp only at hq
      rw [Table.find?_erase] at hq
      split_ifs at hq
      exact inv j q hq
  | stake _ _ _ h =>
      obtain ⟨_, _, _, -, hproducts, -, hadd⟩ := stake_products h
      obtain ⟨-, hrange, heq⟩ := Asset.add_eq_ok_iff.mp hadd
      refine inv.put hproducts ?_
      rw [heq]
      exact hrange
  | unstake h =>
      obtain ⟨_, _, _, _, _, total, -, -, -, hsub, rfl⟩ := unstake_tables h
      obtain ⟨-, hrange, rfl⟩ := Asset.sub_eq_ok_iff.mp hsub
      exact inv.put rfl hrange
  | claimled h => exact inv.of_products (claimled_rewritten h).products
  | claimlem h => exact inv.of_products (claimlem_rewritten h).products
  | changeyield h => exact inv.of_products (changeyield_rewritten h).products

theorem totalsInRange_of_reaches [Doubles] (hw : Reaches env w) : TotalsInRange w.state := by
  refine hw.invariant (fun w => TotalsInRange w.state) ?_ ?_
  · intro w hgenesis
    rw [hgenesis]
    intro _ _ hp
    cases hp
  · rintro w e w' inv ⟨-, hexec, -⟩
    cases exec_area hexec with
    | stakes move => exact inv.move move
    | games _ _ products => exact inv.of_products products
    | dex _ stakes => exact inv.of_products stakes.1
    | idle stakes => exact inv.of_products stakes.1

end Rows

section Success

variable {env : Env} {ctx : Ctx} {s : State} {w : World} {owner productName : Name} {id i : Nat}
variable {p : Product} {row : Staking} {config : Config} {config2 : Config2}

/-- The lock of a row has expired. -/
def Unlocked (ctx : Ctx) (row : Staking) : Prop :=
  (row.endedAt ≠ 0 → row.endedAt ≤ ctx.now) ∧
    (row.endedAt = 0 → row.startedAt + secondsPerDay ≤ ctx.now)

/-- The balance and the interest of the period at the yield that `unstake` selects -/
def ledDue [Doubles] (ctx : Ctx) (config2 : Config2) (p : Product) (row : Staking) : ℤ :=
  row.balance.amount.toInt + trunc (ledInterest row.balance.amount.toInt
    (finalYield p config2 row) (settlementTime ctx p row - row.startedAt).toNat)

/-- The LEM of the period.  The product of balance and seconds is taken in 64 bits. -/
def lemDue [Doubles] (ctx : Ctx) (config : Config) (p : Product) (row : Staking) : ℤ :=
  let secs := rewardSecs config.lastHalfLifeUpdated row.startedAt
    (rewardsEnd row (settlementTime ctx p row))
  trunc (rnd (rnd (rnd (row.balance.amount * Int64.ofNat secs.toNat).toInt *
    rnd lemRewardRate) / secondsPerHour.toNat))

/-- The amounts that are due to the owner of a row can be paid: the stake is in LED, more
than the claims is due, and no sum leaves the range of amounts. -/
structure Payable [Doubles] (ctx : Ctx) (config : Config) (config2 : Config2) (p : Product)
    (row : Staking) : Prop where
  symbol : row.balance.symbol = ledSymbol
  claims_lt : row.ledRewards.amount.toInt < ledDue ctx config2 p row
  due_le : ledDue ctx config2 p row ≤ maxAmount
  lem_ge : p.hasLemRewards = true →
    -maxAmount ≤ lemDue ctx config p row - row.lemRewards.amount.toInt

/-- The index finds the product and the row. -/
theorem StakeIn.find
    (hin : StakeIn s owner productName id i p row) (inv : StakingLedger s) :
    findProduct s productName = some (id, p) ∧
      findStaking s owner id = some ((owner, i), row) := by
  have hproduct : findProduct s productName = some (id, p) := by
    cases hfound : findProduct s productName with
    | none => exact absurd hin.name (findProduct_eq_none hfound hin.product)
    | some found =>
        obtain ⟨id', p'⟩ := found
        obtain ⟨hp', hname⟩ := findProduct_eq_some hfound
        obtain rfl := inv.names id id' p p' hin.product hp' (hin.name.trans hname.symm)
        obtain rfl := Option.some.inj (hin.product.symm.trans hp')
        rfl
  refine ⟨hproduct, ?_⟩
  cases hfound : findStaking s owner id with
  | none => exact absurd hin.productId (findStaking_eq_none hfound hin.row)
  | some found =>
      obtain ⟨key, row'⟩ := found
      obtain ⟨rfl, -, -, rfl⟩ := hin.eq_of_find inv hproduct hfound
      rfl

/-- The LEM of a period is far below the largest amount. -/
theorem abs_lemDue_le [Doubles] : |lemDue ctx config p row| ≤ 2 ^ 43 := by
  unfold lemDue
  dsimp only
  generalize row.balance.amount * Int64.ofNat _ = x
  have hx : |(x.toInt : ℚ)| ≤ 2 ^ 63 := by
    have hlow := x.le_toInt
    have hhigh := x.toInt_lt
    have habs : |x.toInt| ≤ 2 ^ 63 := abs_le.mpr ⟨by omega, by omega⟩
    exact_mod_cast habs
  -- the rate is below `2 ^ (-9)`, and an hour has more than `2 ^ 11` seconds
  have hrate : |lemRewardRate| ≤ 1 / 2 ^ 9 := by norm_num [lemRewardRate]
  have hproduct : |rnd (x.toInt : ℚ) * rnd lemRewardRate| ≤ 2 ^ 54 := by
    calc |rnd (x.toInt : ℚ) * rnd lemRewardRate|
        = |rnd (x.toInt : ℚ)| * |rnd lemRewardRate| := abs_mul _ _
      _ ≤ 2 ^ 63 * (1 / 2 ^ 9) := by
        gcongr
        · exact Doubles.abs_rnd_le (isDouble_two_pow 63) hx
        · exact Doubles.abs_rnd_le (isDouble_inv_two_pow 9) hrate
      _ = 2 ^ 54 := by norm_num
  have hhour : ((secondsPerHour.toNat : ℕ) : ℚ) = 3600 := by
    rw [show secondsPerHour.toNat = 3600 from rfl, Nat.cast_ofNat]
  have hquotient : |rnd (rnd (x.toInt : ℚ) * rnd lemRewardRate) / secondsPerHour.toNat| ≤
      2 ^ 43 := by
    rw [hhour, abs_div, abs_of_pos (show (0 : ℚ) < 3600 by norm_num),
      div_le_iff₀ (by norm_num)]
    exact (Doubles.abs_rnd_le (isDouble_two_pow 54) hproduct).trans (by norm_num)
  refine abs_trunc_le_of_abs_le ?_
  push_cast
  exact Doubles.abs_rnd_le (isDouble_two_pow 43) hquotient

theorem lemSettlement_eq_ok_iff [Doubles]
    (ok : RewardsOk row) :
    (∃ r, lemSettlement config p row (settlementTime ctx p row) = .ok r) ↔
      (p.hasLemRewards = true →
        -maxAmount ≤ lemDue ctx config p row - row.lemRewards.amount.toInt) := by
  unfold lemSettlement
  by_cases hrewards : p.hasLemRewards = true
  · rw [if_pos hrewards]
    have hbounds : -2 ^ 43 ≤ lemDue ctx config p row ∧ lemDue ctx config p row ≤ 2 ^ 43 :=
      abs_le.mp abs_lemDue_le
    obtain ⟨a, ha, hvalue, hrange⟩ := exists_toInt64
      (show -maxAmount ≤ lemDue ctx config p row by unfold maxAmount; omega)
      (show lemDue ctx config p row ≤ maxAmount by unfold maxAmount; omega)
    have hnonneg := ok.lem.nonneg
    have hheld := ok.lem.inRange
    have hvalid : lemSymbol.isValid = true := by decide +kernel
    have hdiff : (a - row.lemRewards.amount).toInt =
        lemDue ctx config p row - row.lemRewards.amount.toInt := by
      unfold AmountInRange maxAmount at hheld
      rw [Int64.toInt_sub, hvalue, Int.bmod_def]
      unfold lemDue at hbounds ⊢
      dsimp only at hbounds ⊢
      split_ifs <;> omega
    simp only [lemReward, bind_eq_ok_iff, toInt64_eq_ok_iff, Asset.make_eq_ok_iff,
      Asset.sub_eq_ok_iff]
    constructor
    · rintro ⟨_, _, ⟨b, hb, -, -, rfl⟩, -, hdue, -⟩ -
      obtain rfl : b = a := Int64.toInt_inj.mp (hb.trans hvalue.symm)
      rw [← hdiff]
      exact hdue.1
    · intro hge
      have hge' := hge hrewards
      refine ⟨⟨a - row.lemRewards.amount, lemSymbol⟩, ⟨a, lemSymbol⟩,
        ⟨a, hvalue, hrange, hvalid, rfl⟩, ok.lemSymbol, ⟨?_, ?_⟩, rfl⟩
      · exact hge'.trans hdiff.ge
      · refine hdiff.le.trans ?_
        unfold maxAmount
        omega
  · rw [if_neg hrewards]
    exact iff_of_true ⟨zeroLem, rfl⟩ fun h => absurd h hrewards

theorem ledSettlement_eq_ok_iff [Doubles]
    (hok : StakeOk row p) (ok : RewardsOk row) :
    (∃ total withReward toOwnerLed,
      ledReward row.balance (finalYield p config2 row)
        (settlementTime ctx p row - row.startedAt) = .ok total ∧
      row.balance.add total = .ok withReward ∧
      withReward.sub row.ledRewards = .ok toOwnerLed ∧ 0 < toOwnerLed.amount) ↔
    row.balance.symbol = ledSymbol ∧ row.ledRewards.amount.toInt < ledDue ctx config2 p row ∧
      ledDue ctx config2 p row ≤ maxAmount := by
  have hbalance := hok.positive_toInt
  have hnonneg := ok.led.nonneg
  constructor
  · rintro ⟨total, withReward, toOwnerLed, htotal, hwith, hled, hpos⟩
    obtain ⟨hinterest, -, -⟩ := ledReward_eq_ok htotal
    obtain ⟨-, hrange, rfl⟩ := Asset.add_eq_ok_iff.mp hwith
    obtain ⟨hsymbol, hrange', rfl⟩ := Asset.sub_eq_ok_iff.mp hled
    have hsum := toInt_add_of_inRange hok.inRange hrange
    have hdiff := toInt_sub_of_inRange_right ok.led.inRange hrange'
    have hdue : (row.balance.amount + total.amount).toInt = ledDue ctx config2 p row := by
      rw [hsum, hinterest]
      rfl
    have hpos' := Int64.lt_iff_toInt_lt.mp hpos
    have hzero : (0 : Int64).toInt = 0 := rfl
    dsimp only at hdiff hpos'
    refine ⟨hsymbol.symm.trans ok.ledSymbol, by omega, ?_⟩
    rw [← hdue]
    exact hrange.2
  · rintro ⟨hsymbol, hclaims, hdue⟩
    -- the interest lies between the balance, taken negatively, and the largest amount
    obtain ⟨a, ha, hvalue, hrange⟩ := exists_toInt64 (q := ledInterest row.balance.amount.toInt
      (finalYield p config2 row) (settlementTime ctx p row - row.startedAt).toNat)
      (by
        have hle := hok.inRange.2
        unfold ledDue at hclaims
        omega)
      (by
        unfold ledDue at hdue
        omega)
    have hsum : (row.balance.amount + a).toInt = ledDue ctx config2 p row := by
      rw [toInt_add_of_inRange_both hok.inRange hrange, hvalue]
      rfl
    have hrange' : AmountInRange (row.balance.amount + a) := by
      unfold AmountInRange
      rw [hsum]
      exact ⟨by unfold maxAmount; omega, hdue⟩
    have hdiff : (row.balance.amount + a - row.ledRewards.amount).toInt =
        ledDue ctx config2 p row - row.ledRewards.amount.toInt := by
      unfold maxAmount at hdue
      rw [Int64.toInt_sub, hsum, Int.bmod_def]
      split_ifs <;> omega
    have hvalid : row.balance.symbol.isValid = true := by
      rw [hsymbol]
      decide +kernel
    refine ⟨⟨a, row.balance.symbol⟩, ⟨row.balance.amount + a, row.balance.symbol⟩,
      ⟨row.balance.amount + a - row.ledRewards.amount, row.balance.symbol⟩, ?_, ?_, ?_, ?_⟩
    · simp only [ledReward, bind_eq_ok_iff, toInt64_eq_ok_iff, Asset.make_eq_ok_iff]
      exact ⟨a, hvalue, hrange, hvalid, rfl⟩
    · exact Asset.add_eq_ok_iff.mpr ⟨rfl, hrange', rfl⟩
    · refine Asset.sub_eq_ok_iff.mpr ⟨ok.ledSymbol.trans hsymbol.symm, ?_, rfl⟩
      unfold AmountInRange
      dsimp only
      rw [hdiff]
      unfold maxAmount at *
      omega
    · have hzero : (0 : Int64).toInt = 0 := rfl
      rw [Int64.lt_iff_toInt_lt, hdiff, hzero]
      omega

theorem balance_le_currentAmount
    (inv : StakingLedger s) (hin : StakeIn s owner productName id i p row) :
    row.balance.amount.toInt ≤ p.currentAmount.amount.toInt := by
  have hle := Table.weight_le_sum (inv.stakeOf_nonneg id) (owner, i)
  rw [Table.weight_of_find? hin.row, stakeOf, if_pos hin.productId] at hle
  rw [(inv.product id p hin.product).total]
  exact hle

/-- The total of a product covers each stake in it. -/
theorem exists_currentAmount
    (inv : StakingLedger s) (totals : TotalsInRange s)
    (hin : StakeIn s owner productName id i p row) :
    ∃ r, p.currentAmount.sub row.balance = .ok r := by
  have hok := hin.stakeOk inv
  have hle := balance_le_currentAmount inv hin
  have hbalance := hok.positive_toInt
  have htotal := (totals id p hin.product).2
  have hdiff : (p.currentAmount.amount - row.balance.amount).toInt =
      p.currentAmount.amount.toInt - row.balance.amount.toInt := by
    unfold maxAmount at htotal
    rw [Int64.toInt_sub, Int.bmod_def]
    split_ifs <;> omega
  refine ⟨_, Asset.sub_eq_ok_iff.mpr ⟨?_, ?_, rfl⟩⟩
  · rw [hok.symbol, (inv.product id p hin.product).symbol]
  · unfold AmountInRange
    rw [hdiff]
    unfold maxAmount at *
    omega

/-- In every reachable state, the owner of a row whose lock has expired can take the stake
out iff the amounts that are due can be paid. -/
theorem unlocked_stake_unstakes_iff [Doubles]
    (hw : Reaches env w) (hrow : w.state.stakings.find? (owner, i) = some row)
    (hauth : owner ∈ ctx.auths) (hconfig : w.state.config = some config)
    (hconfig2 : w.state.config2 = some config2) {stat : LedTokenStat}
    (hstat : ctx.lemStat = some stat) (hissuer : stat.issuer = env.self)
    (hsupply : AmountInRange stat.supply.amount) (hunlocked : Unlocked ctx row) :
    ∃ p, w.state.products.find? row.productId = some p ∧
      ((∃ s' sent, unstake env ctx w.state owner p.name = .ok (s', sent)) ↔
        Payable ctx config config2 p row) := by
  have inv := stakingLedger_of_reaches hw
  obtain ⟨p, hp, hok⟩ := inv.stake _ row hrow
  have hin : StakeIn w.state owner p.name row.productId i p row := ⟨rfl, rfl, hp, hrow⟩
  have ok := rewardsOk_of_reaches hw hin
  obtain ⟨hproduct, hfound⟩ := hin.find inv
  refine ⟨p, hp, ?_⟩
  constructor
  · rintro ⟨s', sent, h⟩
    obtain ⟨_, _, _, _, _, _, _, _, total, withReward, toOwnerLed, toOwnerLem, _, -, hconfig',
      hconfig2', hproduct', hfound', -, -, -, htotal, hwith, hled, hlem, hpos, -, -, -⟩ :=
      unstake_eq_ok_iff.mp h
    obtain rfl := Option.some.inj (hconfig.symm.trans hconfig')
    obtain rfl := Option.some.inj (hconfig2.symm.trans hconfig2')
    obtain ⟨-, -, rfl, rfl⟩ := hin.eq_of_find inv hproduct' hfound'
    obtain ⟨hsymbol, hclaims, hdue⟩ := (ledSettlement_eq_ok_iff hok ok).mp
      ⟨total, withReward, toOwnerLed, htotal, hwith, hled, hpos⟩
    exact ⟨hsymbol, hclaims, hdue, (lemSettlement_eq_ok_iff ok).mp ⟨toOwnerLem, hlem⟩⟩
  · intro hpayable
    obtain ⟨total, withReward, toOwnerLed, htotal, hwith, hled, hpos⟩ :=
      (ledSettlement_eq_ok_iff hok ok).mpr
        ⟨hpayable.symbol, hpayable.claims_lt, hpayable.due_le⟩
    obtain ⟨toOwnerLem, hlem⟩ := (lemSettlement_eq_ok_iff ok).mpr hpayable.lem_ge
    obtain ⟨t, issued, hissue⟩ := exists_issueLem hconfig hstat hissuer hsupply
    obtain ⟨currentAmount, hcurrent⟩ :=
      exists_currentAmount inv (totalsInRange_of_reaches hw) hin
    exact ⟨_, _, unstake_eq_ok_iff.mpr ⟨config, config2, row.productId, p, (owner, i), row, t,
      issued, total, withReward, toOwnerLed, toOwnerLem, currentAmount, hauth, hconfig, hconfig2,
      hproduct, hfound, hunlocked.1, hunlocked.2, hissue, htotal, hwith, hled, hlem, hpos,
      hcurrent, rfl, rfl⟩⟩

instance (ctx : Ctx) (row : Staking) : Decidable (Unlocked ctx row) :=
  inferInstanceAs (Decidable (_ ∧ _))

instance [Doubles] (ctx : Ctx) (config : Config) (config2 : Config2) (p : Product) (row : Staking) :
    Decidable (Payable ctx config config2 p row) :=
  decidable_of_iff (row.balance.symbol = ledSymbol ∧
      row.ledRewards.amount.toInt < ledDue ctx config2 p row ∧
      ledDue ctx config2 p row ≤ maxAmount ∧
      (p.hasLemRewards = true →
        -maxAmount ≤ lemDue ctx config p row - row.lemRewards.amount.toInt))
    ⟨fun h => ⟨h.1, h.2.1, h.2.2.1, h.2.2.2⟩, fun h => ⟨h.1, h.2, h.3, h.4⟩⟩

/-- Alice stakes some LED in a product at some yield. -/
def sampleYield (yield : ℚ) (days : Option UInt32) (amount : Int64) : List (Ctx × Action) :=
  [(sampleCtx 1000 "lemonade.c", .init),
    (sampleCtx 1000 "lemonade.c",
      .addproduct (nameLiteral "basic") yield 2 true false zeroLed none days),
    (sampleCtx 2000 "alice", sampleTransfer "alice" amount "stake/basic")]

/-- What a condition says of alice's row -/
def sampleRow (test : Config → Config2 → Product → Staking → Bool) (s : State) : Option Bool :=
  (s.stakings.find? (nameLiteral "alice", 0)).bind fun row =>
    (s.products.find? row.productId).bind fun p =>
      s.config.bind fun config => s.config2.map fun config2 => test config config2 p row

theorem exists_of_sampleRow
    {test : Config → Config2 → Product → Staking → Bool} {s : State}
    (h : sampleRow test s = some true) :
    ∃ row p config config2, s.stakings.find? (nameLiteral "alice", 0) = some row ∧
      s.products.find? row.productId = some p ∧ s.config = some config ∧
      s.config2 = some config2 ∧ test config config2 p row = true := by
  simp only [sampleRow, Option.bind_eq_some_iff, Option.map_eq_some_iff] at h
  obtain ⟨row, hrow, p, hp, config, hconfig, config2, hconfig2, htest⟩ := h
  exact ⟨row, p, config, config2, hrow, hp, hconfig, hconfig2, htest⟩

open Binary64

/-- At a yield of one alice can take her stake out after a day. -/
theorem unlocked_stake_unstakes_iff_sample :
    ∃ w s' sent, Reaches sampleEnv w ∧
      unstake sampleEnv (sampleCtx 88400 "alice") w.state (nameLiteral "alice")
        (nameLiteral "basic") = .ok (s', sent) := by
  obtain ⟨h, w, hplay, hobs⟩ := exists_of_play
    (show (play (stepWith sampleEnv) sampleWorld (sampleYield 1 none 1000000)).map (fun r =>
        sampleRow (fun config config2 p row => decide (Unlocked (sampleCtx 88400 "alice") row ∧
          p.name = nameLiteral "basic" ∧
          Payable (sampleCtx 88400 "alice") config config2 p row)) r.2.state) =
      some (some true) by decide +kernel)
  obtain ⟨row, p, config, config2, hrow, hp, hconfig, hconfig2, htest⟩ := exists_of_sampleRow hobs
  obtain ⟨hunlocked, hname, hpayable⟩ := of_decide_eq_true htest
  have hw := reaches_of_play sampleWorld_genesis hplay
  obtain ⟨q, hq, hiff⟩ := unlocked_stake_unstakes_iff hw hrow
    (show nameLiteral "alice" ∈ (sampleCtx 88400 "alice").auths from List.mem_singleton_self _)
    hconfig hconfig2 rfl rfl amountInRange_zero hunlocked
  obtain rfl := Option.some.inj (hp.symm.trans hq)
  obtain ⟨s', sent, hok⟩ := hiff.mpr hpayable
  rw [hname] at hok
  exact ⟨w, s', sent, hw, hok⟩

/-- At a yield of zero nothing is left of alice's stake after a year, and she cannot take
it out. -/
theorem unlocked_stake_stuck_at_low_yield :
    ¬ ∀ (env : Env) (ctx : Ctx) (w : World) (owner : Name) (i : ℕ) (row : Staking) (p : Product)
      (config : Config) (config2 : Config2) (stat : LedTokenStat), Reaches env w →
      w.state.stakings.find? (owner, i) = some row →
      w.state.products.find? row.productId = some p → owner ∈ ctx.auths →
      w.state.config = some config → w.state.config2 = some config2 →
      ctx.lemStat = some stat → stat.issuer = env.self → AmountInRange stat.supply.amount →
      Unlocked ctx row →
      ∃ s' sent, unstake env ctx w.state owner p.name = .ok (s', sent) := by
  intro hall
  obtain ⟨h, w, hplay, hobs⟩ := exists_of_play
    (show (play (stepWith sampleEnv) sampleWorld (sampleYield 0 none 1000000)).map (fun r =>
        sampleRow (fun _ _ p row => decide (Unlocked (sampleCtx 31451600 "alice") row) &&
          !(unstake sampleEnv (sampleCtx 31451600 "alice") r.2.state (nameLiteral "alice")
            p.name).isOk) r.2.state) =
      some (some true) by decide +kernel)
  obtain ⟨row, p, config, config2, hrow, hp, hconfig, hconfig2, htest⟩ := exists_of_sampleRow hobs
  rw [Bool.and_eq_true, decide_eq_true_eq, Bool.not_eq_true'] at htest
  obtain ⟨hunlocked, hfails⟩ := htest
  obtain ⟨s', sent, hok⟩ := hall sampleEnv (sampleCtx 31451600 "alice") w (nameLiteral "alice") 0
    row p config config2 _ (reaches_of_play sampleWorld_genesis hplay) hrow hp
    (List.mem_singleton_self _) hconfig hconfig2 rfl rfl amountInRange_zero hunlocked
  rw [hok] at hfails
  cases hfails

end Success

end Lemonade
