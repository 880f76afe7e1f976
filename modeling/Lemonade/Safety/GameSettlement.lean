import Lemonade.Safety.GameLifecycle
import Mathlib.Tactic

/-!
# The settlement of a finished game

`claimbet` divides by the total of the winners, and adds to each stake its part of the losing
total in doubles.  With positive bets the total is positive, and a price leaves the range of an
asset only by rounding: the double of a stake from `stakeLimit` on is `2 ^ 62`, one more than an
asset can hold.  With smaller winning stakes a game whose time has passed can be settled.
-/

namespace Lemonade

open Kernel

section Prices

theorem le_betted_of_mem
    {bets : List (Name × Asset)} (hpos : ∀ b ∈ bets, 0 < b.2.amount.toInt) {b : Name × Asset}
    (hb : b ∈ bets) : b.2.amount.toInt ≤ betted bets := by
  refine List.single_le_sum ?_ _ (List.mem_map.mpr ⟨b, hb, rfl⟩)
  intro x hx
  obtain ⟨c, hc, rfl⟩ := List.mem_map.mp hx
  exact (hpos c hc).le

/-- The part of the losing total that goes to a stake. -/
def partOf (stake losersTotal winnersTotal : Int64) : ℕ :=
  (stake.toUInt64 * losersTotal.toUInt64 / winnersTotal.toUInt64).toNat

/-- A stake and 95 percent of its part, as the code adds them. -/
def priceOf [Doubles] (stake : ℤ) (part : ℕ) : ℚ :=
  rnd (rnd stake + rnd (rnd part * rnd bettingRatio))

theorem partOf_mul_le
    {stake losersTotal winnersTotal : Int64} (hstake : 0 ≤ stake.toInt)
    (hlosers : 0 ≤ losersTotal.toInt) (hwinners : 0 ≤ winnersTotal.toInt) :
    partOf stake losersTotal winnersTotal * winnersTotal.toInt ≤
      stake.toInt * losersTotal.toInt := by
  have hquotient := wrapped_quotient_mul_le stake.toUInt64 losersTotal.toUInt64
    winnersTotal.toUInt64
  rw [← toNat_toUInt64 hstake, ← toNat_toUInt64 hlosers, ← toNat_toUInt64 hwinners]
  exact_mod_cast hquotient

/-- The product is taken in 64 bits. -/
theorem partOf_mul_lt
    {stake losersTotal winnersTotal : Int64} (hwinners : 0 ≤ winnersTotal.toInt) :
    partOf stake losersTotal winnersTotal * winnersTotal.toInt < 2 ^ 64 := by
  have hquotient : partOf stake losersTotal winnersTotal * winnersTotal.toUInt64.toNat ≤
      (stake.toUInt64 * losersTotal.toUInt64).toNat := by
    rw [partOf, UInt64.toNat_div]
    exact Nat.div_mul_le_self _ _
  have hlt := (stake.toUInt64 * losersTotal.toUInt64).toNat_lt
  rw [← toNat_toUInt64 hwinners]
  exact_mod_cast hquotient.trans_lt hlt

/-- The part of a stake is at most the losing total. -/
theorem partOf_le
    {stake losersTotal winnersTotal : Int64} (hstake : 0 < stake.toInt)
    (hle : stake.toInt ≤ winnersTotal.toInt) (hlosers : 0 ≤ losersTotal.toInt) :
    (partOf stake losersTotal winnersTotal : ℤ) ≤ losersTotal.toInt := by
  have hwinners : 0 < winnersTotal.toInt := by omega
  refine le_of_mul_le_mul_right ?_ hwinners
  calc (partOf stake losersTotal winnersTotal : ℤ) * winnersTotal.toInt
      ≤ stake.toInt * losersTotal.toInt := partOf_mul_le hstake.le hlosers hwinners.le
    _ ≤ winnersTotal.toInt * losersTotal.toInt := mul_le_mul_of_nonneg_right hle hlosers
    _ = losersTotal.toInt * winnersTotal.toInt := mul_comm _ _

/-- The rate is a positive number below one. -/
theorem rnd_bettingRatio_mem [Doubles] : 0 ≤ rnd bettingRatio ∧ rnd bettingRatio ≤ 31 / 32 := by
  have hhigh : IsDouble (31 / 32) := ⟨31, -5, by norm_num, by norm_num⟩
  unfold bettingRatio
  exact ⟨Doubles.rnd_nonneg (by norm_num), Doubles.rnd_le hhigh (by norm_num)⟩

theorem rnd_le_priceOf [Doubles] (stake : ℤ) (part : ℕ) : rnd stake ≤ priceOf stake part := by
  have hpart : 0 ≤ rnd (rnd (part : ℚ) * rnd bettingRatio) :=
    Doubles.rnd_nonneg (mul_nonneg (Doubles.rnd_nonneg (Nat.cast_nonneg part))
      rnd_bettingRatio_mem.1)
  rw [priceOf, ← Doubles.rnd_rnd stake]
  exact Doubles.rnd_mono (by rw [Doubles.rnd_rnd]; exact le_add_of_nonneg_right hpart)

/-- The part of a stake, bounded by a double. -/
theorem rnd_part_le [Doubles]
    {part : ℕ} {x y : ℚ} (hx : IsDouble x) (hy : IsDouble y) (hpart : part ≤ x)
    (hxy : x * (31 / 32) ≤ y) : rnd (rnd part * rnd bettingRatio) ≤ y := by
  have hpart0 : (0 : ℚ) ≤ part := Nat.cast_nonneg part
  refine Doubles.rnd_le hy (le_trans ?_ hxy)
  exact mul_le_mul (Doubles.rnd_le hx hpart) rnd_bettingRatio_mem.2 rnd_bettingRatio_mem.1
    (hpart0.trans hpart)

/-- The price of a winner exists iff it is one of an asset. -/
theorem winnerPrice_succeeds_iff [Doubles]
    {stake : Asset} {losersTotal winnersTotal : Int64} (hstake : 0 ≤ stake.amount.toInt)
    (hne : winnersTotal ≠ 0) (hsymbol : stake.symbol.isValid = true) :
    Succeeds (winnerPrice stake losersTotal winnersTotal) ↔
      trunc (priceOf stake.amount.toInt (partOf stake.amount losersTotal winnersTotal)) ≤
        maxAmount := by
  have hmax : maxAmount = 2 ^ 62 - 1 := rfl
  have hnonneg := trunc_nonneg ((Doubles.rnd_nonneg (by exact_mod_cast hstake)).trans
    (rnd_le_priceOf stake.amount.toInt (partOf stake.amount losersTotal winnersTotal)))
  simp only [winnerPrice, succeeds_bind_iff, demand_eq_ok_iff, toInt64_eq_ok_iff]
  constructor
  · rintro ⟨_, -, amount, hamount, _, hmake⟩
    obtain ⟨hrange, -⟩ := Asset.make_eq_ok_iff.mp hmake
    exact hamount.symm.trans_le hrange.2
  · intro hle
    obtain ⟨amount, hamount⟩ := succeeds_toInt64 (by omega) (hle.trans_lt (by omega))
    rw [toInt64_eq_ok_iff] at hamount
    refine ⟨⟨⟩, hne, amount, hamount, ⟨amount, stake.symbol⟩, ?_⟩
    refine Asset.make_eq_ok_iff.mpr ⟨?_, hsymbol, rfl⟩
    have hvalue : amount.toInt = trunc (priceOf stake.amount.toInt
      (partOf stake.amount losersTotal winnersTotal)) := hamount
    unfold AmountInRange
    omega

/-- The payments can be made iff there is a price for every winner. -/
theorem winnings_succeed_iff [Doubles]
    {betId : ℕ} {losersTotal winnersTotal : Int64} {winners : List (Name × Asset)} :
    Succeeds (winnings betId losersTotal winnersTotal winners) ↔
      ∀ b ∈ winners, Succeeds (winnerPrice b.2 losersTotal winnersTotal) := by
  induction winners with
  | nil => simp [winnings]
  | cons k winners ih =>
      rw [List.forall_mem_cons, ← ih]
      simp only [winnings, succeeds_bind_iff, succeeds_pure, and_true]
      exact exists_and_right

end Prices

section Settlements

variable {env : Env} {ctx : Ctx} {w : World} {id : ℕ} {game : Betting}

/-- The claim of a game goes through iff there is a price for every winner. -/
theorem claimbet_succeeds_iff [Doubles]
    {s : State} (ok : GameOk game) (hgame : s.bettings.find? id = some game)
    (hstatus : game.status = .notClaimed) (hauth : env.self ∈ ctx.auths)
    (hended : game.endedAt ≤ ctx.now) :
    Succeeds (claimbet env ctx s id) ↔
      ∀ b ∈ game.betters game.winPosition, Succeeds (winnerPrice b.2
        (game.amount game.winPosition.opposite).amount (game.amount game.winPosition).amount) := by
  have hbets : ∀ side, game.betters side ≠ [] := by
    refine ok.contested ?_
    rw [hstatus]
    trivial
  have hlengths : game.longBetters.length ≠ 0 ∧ game.shortBetters.length ≠ 0 :=
    ⟨fun hl => hbets .long (List.length_eq_zero_iff.mp hl),
      fun hs => hbets .short (List.length_eq_zero_iff.mp hs)⟩
  refine Iff.trans ?_ (winnings_succeed_iff : Succeeds (winnings id _ _ _) ↔ _)
  simp only [claimbet, succeeds_bind_iff, requireAuth_eq_ok_iff, check_eq_ok_iff,
    require_eq_ok_iff, succeeds_pure, and_true]
  constructor
  · rintro ⟨_, -, game', hgame', _, -, _, -, _, -, sent, hsent⟩
    obtain rfl := Option.some.inj (hgame.symm.trans hgame')
    exact ⟨sent, hsent⟩
  · rintro ⟨sent, hsent⟩
    exact ⟨⟨⟩, hauth, game, hgame, ⟨⟩, hstatus, ⟨⟩, hended, ⟨⟩, hlengths, sent, hsent⟩

/-- What a claim does that goes through. -/
theorem claimbet_completes [Doubles]
    {s : State} (hgame : s.bettings.find? id = some game)
    (h : Succeeds (claimbet env ctx s id)) :
    ∃ sent, winnings id (game.amount game.winPosition.opposite).amount
        (game.amount game.winPosition).amount (game.betters game.winPosition) = .ok sent ∧
      claimbet env ctx s id = .ok ({ s with
        bettings := s.bettings.put id (game.moved .finished game.basePrice game.finalPrice) },
        sent) := by
  obtain ⟨⟨s', sent⟩, hclaim⟩ := h
  obtain ⟨game', hgame', -, hsent, rfl⟩ := claimbet_eq_ok hclaim
  obtain rfl := Option.some.inj (hgame.symm.trans hgame')
  exact ⟨sent, hsent, hclaim⟩

open Binary64

/-- The least stake whose double is `2 ^ 62`. -/
def stakeLimit : ℤ := 2 ^ 62 - 256

/-- A price fits in an asset unless the double of the stake does not. -/
theorem priceOf_le_iff
    {stake losers winners : ℤ} {part : ℕ} (hstake : 0 < stake) (hle : stake ≤ winners)
    (hpart : part ≤ losers) (hcut : part * winners < 2 ^ 64)
    (hsum : winners + losers ≤ maxAmount) :
    trunc (priceOf stake part) ≤ maxAmount ↔ stake < stakeLimit := by
  have hmax : maxAmount = 2 ^ 62 - 1 := rfl
  have hlimit : stakeLimit = 2 ^ 62 - 256 := rfl
  constructor
  · intro hfits
    by_contra hlarge
    have hdouble : rnd ((2 ^ 62 - 256 : ℤ) : ℚ) = ((2 ^ 62 : ℤ) : ℚ) := by decide +kernel
    have hprice : ((2 ^ 62 : ℤ) : ℚ) ≤ priceOf stake part := by
      rw [← hdouble]
      exact (Doubles.rnd_mono (Int.cast_le.mpr (by omega))).trans (rnd_le_priceOf stake part)
    have htrunc := trunc_mono hprice
    rw [trunc_intCast] at htrunc
    omega
  · intro hsmall
    have hdouble : rnd ((2 ^ 62 - 257 : ℤ) : ℚ) = ((2 ^ 62 - 512 : ℤ) : ℚ) := by decide +kernel
    have hrounded : rnd (stake : ℚ) ≤ ((2 ^ 62 - 512 : ℤ) : ℚ) := by
      rw [← hdouble]
      exact Doubles.rnd_mono (Int.cast_le.mpr (by omega))
    -- the sum stays below the numbers that are rounded to `2 ^ 62`
    have hprice : rnd stake + rnd (rnd (part : ℚ) * rnd bettingRatio) ≤
        ((2 ^ 62 - 257 : ℤ) : ℚ) := by
      rcases le_or_gt stake (2 ^ 61) with hhalf | hhalf
      · rcases le_or_gt 16 winners with hmany | hfew
        · have hquarter : (part : ℤ) ≤ 2 ^ 60 := by nlinarith
          have hwon := rnd_part_le (isDouble_two_pow 60) (isDouble_two_pow 60)
            (by exact_mod_cast hquarter) (by norm_num)
          have hstake' := Doubles.rnd_le (isDouble_two_pow 61) (x := stake)
            (by exact_mod_cast hhalf)
          push_cast
          linarith
        · have hfull : (part : ℤ) ≤ 2 ^ 62 := by omega
          have hwon := rnd_part_le (isDouble_two_pow 62) (y := 31 * 2 ^ 57)
            ⟨31, 57, by norm_num, by norm_num⟩ (by exact_mod_cast hfull) (by norm_num)
          have hstake' := Doubles.rnd_le (x := stake) (y := 16) ⟨16, 0, by norm_num, by norm_num⟩
            (by exact_mod_cast (by omega : stake ≤ 16))
          push_cast
          linarith
      · -- the product is cut off, so the part is small
        have hcutoff : (part : ℤ) ≤ 8 := by nlinarith
        have hwon := rnd_part_le (x := 8) (y := 8) ⟨8, 0, by norm_num, by norm_num⟩
          ⟨8, 0, by norm_num, by norm_num⟩ (by exact_mod_cast hcutoff) (by norm_num)
        push_cast at hrounded ⊢
        linarith
    have htrunc := trunc_mono ((Doubles.rnd_mono hprice).trans_eq hdouble)
    rw [trunc_intCast] at htrunc
    exact htrunc.trans (by omega)

/-- The claim of a game with positive bets that fit in one asset goes through iff the winning
stakes are below the limit. -/
theorem claimbet_succeeds_iff_stakes
    {s : State} (ok : GameOk game)
    (hpos : ∀ side, ∀ b ∈ game.betters side, 0 < b.2.amount.toInt)
    (hsum : (game.amount .short).amount.toInt + (game.amount .long).amount.toInt ≤ maxAmount)
    (hgame : s.bettings.find? id = some game) (hstatus : game.status = .notClaimed)
    (hauth : env.self ∈ ctx.auths) (hended : game.endedAt ≤ ctx.now) :
    Succeeds (claimbet env ctx s id) ↔
      ∀ b ∈ game.betters game.winPosition, b.2.amount.toInt < stakeLimit := by
  have hsum' : (game.amount game.winPosition).amount.toInt +
      (game.amount game.winPosition.opposite).amount.toInt ≤ maxAmount := by
    cases game.winPosition with
    | short => exact hsum
    | long =>
        rw [add_comm]
        exact hsum
  have hlosers : 0 ≤ (game.amount game.winPosition.opposite).amount.toInt := by
    rw [ok.total]
    exact betted_nonneg (hpos _)
  rw [claimbet_succeeds_iff ok hgame hstatus hauth hended]
  refine forall₂_congr ?_
  intro b hb
  have hstake := hpos _ b hb
  have hle : b.2.amount.toInt ≤ (game.amount game.winPosition).amount.toInt := by
    rw [ok.total]
    exact le_betted_of_mem (hpos _) hb
  have hne : (game.amount game.winPosition).amount ≠ 0 := by
    intro hzero
    rw [hzero, Int64.toInt_zero] at hle
    omega
  have hvalid : b.2.symbol.isValid = true := by
    rw [ok.betSymbol _ b hb]
    decide +kernel
  rw [winnerPrice_succeeds_iff hstake.le hne hvalid]
  exact priceOf_le_iff hstake hle (partOf_le hstake hle hlosers) (partOf_mul_lt (by omega)) hsum'

/-- The game is settled by `claimbet`: the total of the winners is positive and the sum of
their positive stakes, and the call succeeds and finishes the game. -/
structure Settles (env : Env) (ctx : Ctx) (s : State) (id : ℕ) (game : Betting) : Prop where
  positive : 0 < (game.amount game.winPosition).amount.toInt
  total : (game.amount game.winPosition).amount.toInt = betted (game.betters game.winPosition)
  stakes : ∀ b ∈ game.betters game.winPosition, 0 < b.2.amount.toInt
  completes : (game.amount .short).amount.toInt + (game.amount .long).amount.toInt ≤ maxAmount →
    ∃ s' sent game', claimbet env ctx s id = .ok (s', sent) ∧
      s'.bettings.find? id = some game' ∧ game'.status = .finished

/-- In a run with positive bets a game that is not yet claimed settles iff its winning stakes
are below the limit, or both sides are more than an asset can hold. -/
theorem finished_game_settles_iff
    {w₀ : World} {h : History} (hw : w₀.Genesis) (hrun : Run (Step env) w₀ h w)
    (hpos : ∀ q ∈ h, PositiveBets env q) (hgame : w.state.bettings.find? id = some game)
    (hstatus : game.status = .notClaimed) (hauth : env.self ∈ ctx.auths)
    (hended : game.endedAt ≤ ctx.now) :
    Settles env ctx w.state id game ↔
      ((game.amount .short).amount.toInt + (game.amount .long).amount.toInt ≤ maxAmount →
        ∀ b ∈ game.betters game.winPosition, b.2.amount.toInt < stakeLimit) := by
  have ok := gamesOk_of_reaches ⟨w₀, h, hw, hrun⟩ id game hgame
  have hvalued := gamesValued_of_run hw hrun hpos id game hgame
  have hbets : ∀ side, game.betters side ≠ [] := by
    refine ok.contested ?_
    rw [hstatus]
    trivial
  have hstakes := hvalued.positive game.winPosition
  have htotal := ok.total game.winPosition
  constructor
  · intro hsettles hsum
    obtain ⟨s', sent, -, hclaim, -⟩ := hsettles.completes hsum
    exact (claimbet_succeeds_iff_stakes ok hvalued.positive hsum hgame hstatus hauth hended).mp
      ⟨_, hclaim⟩
  · intro hlimit
    refine ⟨?_, htotal, hstakes, ?_⟩
    · rw [htotal]
      exact betted_pos (hbets _) hstakes
    · intro hsum
      obtain ⟨sent, -, hclaim⟩ := claimbet_completes hgame
        ((claimbet_succeeds_iff_stakes ok hvalued.positive hsum hgame hstatus hauth hended).mpr
          (hlimit hsum))
      exact ⟨_, sent, _, hclaim, Table.find?_put_self _ _ _, rfl⟩

/-- The sample game before its last step, the claim, settles. -/
theorem finished_game_settles_iff_sample :
    ∃ w game, Reaches sampleEnv w ∧ w.state.bettings.find? 0 = some game ∧
      game.status = .notClaimed ∧
      Settles sampleEnv (sampleCtx 4500 "lemonade.c") w.state 0 game := by
  obtain ⟨h, w, hplay, hobs⟩ := exists_of_play
    (show (play (stepWith sampleEnv) sampleWorld (sampleGame.take 9)).map (fun r =>
        (r.1.all fun q => positiveBet sampleEnv q.2,
          (r.2.state.bettings.find? 0).map fun game =>
            (game.status, decide (game.endedAt ≤ 4500 ∧
              ∀ b ∈ game.betters game.winPosition, b.2.amount.toInt < stakeLimit)))) =
      some (true, some (.notClaimed, true)) by decide +kernel)
  obtain ⟨hpositive, hgame⟩ := Prod.mk.inj hobs
  obtain ⟨game, hgame, hvalues⟩ := Option.map_eq_some_iff.mp hgame
  simp only [Prod.mk.injEq, decide_eq_true_eq] at hvalues
  obtain ⟨hstatus, hended, hlimit⟩ := hvalues
  have hrun := run_of_play (step_of_stepWith sampleEnv) _ hplay
  have hpos : ∀ q ∈ h, PositiveBets sampleEnv q := fun q hq =>
    positiveBets_of_positiveBet (List.all_eq_true.mp hpositive q hq)
  refine ⟨w, game, reaches_of_play sampleWorld_genesis hplay, hgame, hstatus, ?_⟩
  exact (finished_game_settles_iff sampleWorld_genesis hrun hpos hgame hstatus
    (List.mem_singleton_self _) hended).mpr fun _ => hlimit

/-- The inputs of a game whose short side sums up to zero: mallory bets a negative amount
of a token of her own. -/
def stuckGame : List (Ctx × Action) :=
  [(sampleCtx 1000 "lemonade.c", .init),
    (sampleCtx 1000 "lemonade.c", .setbtcprice 100),
    (sampleCtx 1500 "lemonade.c", .createbet 2000 3000 4000),
    (sampleCtx 2000 "lemonade.c", .setbet 0 1),
    (sampleCtx 2100 "alice", sampleTransfer "alice" 100 "bet/0/short"),
    (sampleCtx 2200 "bob", sampleTransfer "bob" 300 "bet/0/long"),
    (sampleCtx 2300 "mallory", samplePayment "mallory"
      ⟨⟨-100, ledSymbol⟩, nameLiteral "faketoken"⟩ "bet/0/short"),
    (sampleCtx 3000 "lemonade.c", .setbet 0 2),
    (sampleCtx 3500 "lemonade.c", .setbtcprice 50),
    (sampleCtx 4000 "lemonade.c", .setbet 0 3)]

/-- How a computation has failed. -/
def failureOf {α : Type} : Result α → Option Failure
  | .error failure => some failure
  | .ok _ => none

/-- The claim of that game divides by zero. -/
theorem finished_game_stuck_by_negative_bet :
    ¬ ∀ (env : Env) (ctx : Ctx) (w : World) (id : ℕ) (game : Betting), Reaches env w →
      w.state.bettings.find? id = some game → game.status = .notClaimed →
      env.self ∈ ctx.auths → game.endedAt ≤ ctx.now → Settles env ctx w.state id game := by
  intro hall
  let ctx := sampleCtx 4500 "lemonade.c"
  obtain ⟨h, w, hplay, hobs⟩ := exists_of_play
    (show (play (stepWith sampleEnv) sampleWorld stuckGame).map (fun r =>
        ((r.2.state.bettings.find? 0).map fun game =>
            (game.status, decide (game.endedAt ≤ 4500),
              decide ((game.amount .short).amount.toInt + (game.amount .long).amount.toInt ≤
                maxAmount)),
          failureOf (claimbet sampleEnv ctx r.2.state 0))) =
      some (some (.notClaimed, true, true), some (.trap "integer divide by zero")) by
        decide +kernel)
  obtain ⟨hgame, hfailure⟩ := Prod.mk.inj hobs
  obtain ⟨game, hgame, hvalues⟩ := Option.map_eq_some_iff.mp hgame
  simp only [Prod.mk.injEq, decide_eq_true_eq] at hvalues
  obtain ⟨hstatus, hended, hsum⟩ := hvalues
  have hsettles := hall sampleEnv ctx w 0 game (reaches_of_play sampleWorld_genesis hplay) hgame
    hstatus (List.mem_singleton_self _) hended
  obtain ⟨s', sent, -, hclaim, -⟩ := hsettles.completes hsum
  dsimp only at hfailure
  rw [hclaim] at hfailure
  cases hfailure

end Settlements

end Lemonade
