import Lemonade.Safety.GameSettlement
import Mathlib.Tactic

/-!
# The price of a winner

A winner is owed its stake and 95 percent of its part of the losing total.  `claimbet`
takes that part of a product modulo `2 ^ 64`.  Two legal amounts can exceed the modulus
although their pot fits in one asset; the winner is then paid less.  Doubles are idealised
here.
-/

namespace Lemonade

open Kernel
open Idealised

section Prices

variable {stake price : Asset} {losersTotal winnersTotal : Int64}

/-- What a stake wins, with the product taken over the integers. -/
def fairPrice (losersTotal winnersTotal stake : ℤ) : ℤ :=
  trunc ((stake : ℚ) + ((stake * losersTotal / winnersTotal : ℤ) : ℚ) * bettingRatio)

/-- The product of a winner is taken without loss. -/
def ProductFits (losersTotal stake : ℤ) : Prop := stake * losersTotal < 2 ^ 64

/-- The price as the code computes it: the part comes from the wrapped product. -/
theorem winnerPrice_amount
    (h : winnerPrice stake losersTotal winnersTotal = .ok price) :
    price.symbol = stake.symbol ∧
      price.amount.toInt = trunc ((stake.amount.toInt : ℚ) +
        ((stake.amount.toUInt64.toNat * losersTotal.toUInt64.toNat % 2 ^ 64 /
          winnersTotal.toUInt64.toNat : ℕ) : ℚ) * bettingRatio) := by
  simp only [winnerPrice, bind_eq_ok_iff, demand_eq_ok_iff, toInt64_eq_ok_iff,
    Asset.make_eq_ok_iff] at h
  obtain ⟨_, -, amount, hamount, -, -, rfl⟩ := h
  rw [UInt64.toNat_div, UInt64.toNat_mul] at hamount
  exact ⟨rfl, hamount⟩

/-- The price of a winner exists: its part of the losing total is at most that total. -/
theorem winnerPrice_succeeds
    (hstake : 0 < stake.amount.toInt) (hle : stake.amount.toInt ≤ winnersTotal.toInt)
    (hlosers : 0 ≤ losersTotal.toInt)
    (hsum : winnersTotal.toInt + losersTotal.toInt ≤ maxAmount)
    (hsymbol : stake.symbol.isValid = true) :
    Succeeds (winnerPrice stake losersTotal winnersTotal) := by
  have hne : winnersTotal ≠ 0 := by
    rintro rfl
    rw [Int64.toInt_zero] at hle
    omega
  have hpart := partOf_le hstake hle hlosers
  have hpart0 : (0 : ℚ) ≤ partOf stake.amount losersTotal winnersTotal := Nat.cast_nonneg _
  rw [winnerPrice_succeeds_iff hstake.le hne hsymbol]
  have hhigh : priceOf stake.amount.toInt (partOf stake.amount losersTotal winnersTotal) ≤
      ((maxAmount : ℤ) : ℚ) := by
    have hbound : (stake.amount.toInt : ℚ) + partOf stake.amount losersTotal winnersTotal ≤
        (maxAmount : ℤ) := by
      have hint : stake.amount.toInt + partOf stake.amount losersTotal winnersTotal ≤
          maxAmount := by omega
      exact_mod_cast hint
    simp only [priceOf, rnd_eq]
    unfold bettingRatio
    linarith
  have htrunc := trunc_mono hhigh
  rwa [trunc_intCast] at htrunc

/-- Four units of the part are lost at least, which is more than the ratio takes away. -/
theorem trunc_part_lt
    {s part fair : ℕ} (h : part + 4 ≤ fair) :
    trunc ((s : ℚ) + (part : ℚ) * bettingRatio) <
      trunc ((s : ℚ) + (fair : ℚ) * bettingRatio) := by
  have hcast : (part : ℚ) + 4 ≤ fair := by exact_mod_cast h
  unfold bettingRatio
  refine trunc_lt_trunc (by positivity) ?_
  linarith

/-- A winner is paid its fair price exactly if its product fits. -/
theorem winnerPrice_fair_iff
    (hstake : 0 ≤ stake.amount.toInt) (hlosers : 0 ≤ losersTotal.toInt)
    (hwinners : 0 < winnersTotal.toInt) (hmax : winnersTotal.toInt ≤ maxAmount)
    (h : winnerPrice stake losersTotal winnersTotal = .ok price) :
    price.amount.toInt = fairPrice losersTotal.toInt winnersTotal.toInt stake.amount.toInt ↔
      ProductFits losersTotal.toInt stake.amount.toInt := by
  have hs := toNat_toUInt64 hstake
  have hl := toNat_toUInt64 hlosers
  have hw := toNat_toUInt64 hwinners.le
  rw [(winnerPrice_amount h).2]
  unfold fairPrice ProductFits
  rw [← hw] at hmax hwinners
  rw [← hs, ← hl, ← hw]
  generalize stake.amount.toUInt64.toNat = s
  generalize losersTotal.toUInt64.toNat = l
  generalize winnersTotal.toUInt64.toNat = w at hmax hwinners
  have hw0 : 0 < w := by exact_mod_cast hwinners
  have hw62 : w ≤ 2 ^ 62 := by
    have hle : (w : ℤ) ≤ 2 ^ 62 := hmax.trans (by decide)
    exact_mod_cast hle
  have hquotient : ((s : ℤ) * l / w : ℤ) = ((s * l / w : ℕ) : ℤ) := by push_cast; rfl
  have hproduct : (s : ℤ) * l < 2 ^ 64 ↔ s * l < 2 ^ 64 := by
    rw [← Nat.cast_mul]
    exact Nat.cast_lt_ofNat (α := ℤ)
  rw [hquotient, hproduct, Int.cast_natCast, Int.cast_natCast]
  constructor
  · intro heq
    by_contra hwrap
    have hlost := wrapped_div_add_le (w := w) (not_lt.mp hwrap)
    have hfour : 4 ≤ 2 ^ 64 / w := (Nat.le_div_iff_mul_le hw0).mpr (by omega)
    have hlt := trunc_part_lt (s := s) (show s * l % 2 ^ 64 / w + 4 ≤ s * l / w by omega)
    exact absurd heq hlt.ne
  · intro hfits
    rw [Nat.mod_eq_of_lt hfits]

end Prices

section Payments

/-- A winner is paid its fair price in the token of its stake. -/
def PaidFairly (losersTotal winnersTotal : ℤ) (better : Name × Asset) (i : Inline) : Prop :=
  ∃ price memo, i = .transfer ledTokenContract better.1 price memo ∧
    price.symbol = better.2.symbol ∧
    price.amount.toInt = fairPrice losersTotal winnersTotal better.2.amount.toInt

theorem winnings_fair_iff
    {betId : ℕ} {losersTotal winnersTotal : Int64} {winners : List (Name × Asset)}
    {sent : List Inline}
    (hstake : ∀ b ∈ winners, 0 < b.2.amount.toInt) (hlosers : 0 ≤ losersTotal.toInt)
    (hwinners : 0 < winnersTotal.toInt) (hmax : winnersTotal.toInt ≤ maxAmount)
    (h : winnings betId losersTotal winnersTotal winners = .ok sent) :
    List.Forall₂ (PaidFairly losersTotal.toInt winnersTotal.toInt) winners sent ↔
      ∀ b ∈ winners, ProductFits losersTotal.toInt b.2.amount.toInt := by
  induction winners generalizing sent with
  | nil =>
      obtain rfl := pure_eq_ok_iff.mp h
      simp
  | cons k winners ih =>
      simp only [winnings, bind_eq_ok_iff, pure_eq_ok_iff] at h
      obtain ⟨price, hprice, rest, hrest, rfl⟩ := h
      have hk : 0 < k.2.amount.toInt := hstake k List.mem_cons_self
      have hle := (winnerPrice_eq_ok hk.le hlosers hwinners.le hprice).2.1
      have hne : price.amount ≠ 0 := by
        intro hzero
        rw [hzero, Int64.toInt_zero] at hle
        omega
      have hhead : PaidFairly losersTotal.toInt winnersTotal.toInt k
            (.transfer ledTokenContract k.1 price
              ("winner of ".toList ++ (toString betId).toList ++ "game!".toList)) ↔
          ProductFits losersTotal.toInt k.2.amount.toInt := by
        rw [← winnerPrice_fair_iff hk.le hlosers hwinners hmax hprice]
        constructor
        · rintro ⟨price', memo, hsent, -, hfair⟩
          rw [Inline.transfer.injEq] at hsent
          obtain ⟨-, -, rfl, -⟩ := hsent
          exact hfair
        · intro hfair
          exact ⟨price, _, rfl, (winnerPrice_amount hprice).1, hfair⟩
      rw [if_neg hne, List.forall₂_cons, List.forall_mem_cons, hhead,
        ih (fun b hb => hstake b (List.mem_cons_of_mem k hb)) hrest]

variable {env : Env} {ctx : Ctx} {w : World} {id : ℕ} {game : Betting}

/-- Every winner of the game is paid its fair price, in the order of the bets. -/
def Betting.PaidProRata (game : Betting) (sent : List Inline) : Prop :=
  List.Forall₂ (PaidFairly (game.amount game.winPosition.opposite).amount.toInt
    (game.amount game.winPosition).amount.toInt) (game.betters game.winPosition) sent

/-- A game with positive bets that fit in one asset is settled, and its winners are paid
pro rata exactly if the product of every winner fits. -/
theorem winners_paid_pro_rata_iff
    (hw : Reaches env w) (hgame : w.state.bettings.find? id = some game)
    (hpos : ∀ side, ∀ b ∈ game.betters side, 0 < b.2.amount.toInt)
    (hsum : (game.amount .short).amount.toInt + (game.amount .long).amount.toInt ≤ maxAmount)
    (hstatus : game.status = .notClaimed) (hauth : env.self ∈ ctx.auths)
    (hended : game.endedAt ≤ ctx.now) :
    ∃ s' sent, claimbet env ctx w.state id = .ok (s', sent) ∧
      (game.PaidProRata sent ↔
        ∀ b ∈ game.betters game.winPosition,
          ProductFits (game.amount game.winPosition.opposite).amount.toInt
            b.2.amount.toInt) := by
  have ok := gamesOk_of_reaches hw id game hgame
  have hsum' : (game.amount game.winPosition).amount.toInt +
      (game.amount game.winPosition.opposite).amount.toInt ≤ maxAmount := by
    cases game.winPosition with
    | short => exact hsum
    | long =>
        rw [add_comm]
        exact hsum
  obtain ⟨sent, hwinnings, hclaim⟩ := by
    refine claimbet_completes hgame
      ((claimbet_succeeds_iff ok hgame hstatus hauth hended).mpr ?_)
    intro b hb
    refine winnerPrice_succeeds (hpos _ b hb) ?_ ?_ hsum' ?_
    · rw [ok.total]
      exact le_betted_of_mem (hpos _) hb
    · rw [ok.total]
      exact betted_nonneg (hpos _)
    · rw [ok.betSymbol _ b hb]
      decide +kernel
  have hcontested : game.status.Contested := by
    rw [hstatus]
    trivial
  have htotal : ∀ side, 0 < (game.amount side).amount.toInt := by
    intro side
    rw [ok.total]
    exact betted_pos (ok.contested hcontested side) (hpos side)
  refine ⟨_, sent, hclaim, ?_⟩
  exact winnings_fair_iff (hpos _) (htotal _).le (htotal _)
    (ok.inRange game.winPosition).2 hwinnings

/-- The inputs of a game that alice wins against bob with the given bets. -/
def gameOf (stake loss : Int64) : List (Ctx × Action) :=
  [(sampleCtx 1000 "lemonade.c", .init),
    (sampleCtx 1000 "lemonade.c", .setbtcprice 100),
    (sampleCtx 1500 "lemonade.c", .createbet 2000 3000 4000),
    (sampleCtx 2000 "lemonade.c", .setbet 0 1),
    (sampleCtx 2100 "alice", sampleTransfer "alice" stake "bet/0/short"),
    (sampleCtx 2200 "bob", sampleTransfer "bob" loss "bet/0/long"),
    (sampleCtx 3000 "lemonade.c", .setbet 0 2),
    (sampleCtx 3500 "lemonade.c", .setbtcprice 50),
    (sampleCtx 4000 "lemonade.c", .setbet 0 3)]

/-- A game that can be settled now, with positive bets that fit in one asset. -/
def Betting.claimableAt (game : Betting) (now : UInt32) : Bool :=
  decide (game.status = .notClaimed) && decide (game.endedAt ≤ now) &&
    decide ((game.amount .short).amount.toInt + (game.amount .long).amount.toInt ≤ maxAmount) &&
    (game.betters .short ++ game.betters .long).all fun b => decide (0 < b.2.amount.toInt)

theorem Betting.claimableAt_spec
    {now : UInt32} (h : game.claimableAt now = true) :
    game.status = .notClaimed ∧ game.endedAt ≤ now ∧
      (game.amount .short).amount.toInt + (game.amount .long).amount.toInt ≤ maxAmount ∧
      ∀ side, ∀ b ∈ game.betters side, 0 < b.2.amount.toInt := by
  simp only [Betting.claimableAt, Bool.and_eq_true, decide_eq_true_eq, List.all_eq_true,
    List.mem_append] at h
  obtain ⟨⟨⟨hstatus, hended⟩, hsum⟩, hpos⟩ := h
  refine ⟨hstatus, hended, hsum, ?_⟩
  intro side b hb
  cases side with
  | short => exact hpos b (Or.inl hb)
  | long => exact hpos b (Or.inr hb)

/-- Alice wins the bet of bob in full, less 5 percent. -/
theorem winners_paid_pro_rata_sample :
    ∃ w game s' sent, Reaches sampleEnv w ∧ w.state.bettings.find? 0 = some game ∧
      claimbet sampleEnv (sampleCtx 4500 "lemonade.c") w.state 0 = .ok (s', sent) ∧
      game.PaidProRata sent ∧ fairPrice 300 100 100 = 385 := by
  obtain ⟨h, w, hplay, hobs⟩ := exists_of_play
    (show (play (stepWith sampleEnv) sampleWorld (gameOf 100 300)).map (fun r =>
        (r.2.state.bettings.find? 0).map fun game =>
          (game.claimableAt 4500, (game.amount game.winPosition.opposite).amount.toInt,
            (game.betters game.winPosition).map fun b => b.2.amount.toInt)) =
      some (some (true, 300, [100])) by decide +kernel)
  obtain ⟨game, hgame, hvalues⟩ := Option.map_eq_some_iff.mp hobs
  simp only [Prod.mk.injEq] at hvalues
  obtain ⟨hclaimable, hlosers, hstakes⟩ := hvalues
  obtain ⟨hstatus, hended, hsum, hpos⟩ := Betting.claimableAt_spec hclaimable
  let ctx := sampleCtx 4500 "lemonade.c"
  have hnow : game.endedAt ≤ ctx.now := hended
  obtain ⟨s', sent, hclaim, hiff⟩ :=
    winners_paid_pro_rata_iff (reaches_of_play sampleWorld_genesis hplay) hgame hpos hsum
      hstatus (List.mem_singleton_self _) hnow
  refine ⟨w, game, s', sent, reaches_of_play sampleWorld_genesis hplay, hgame, hclaim,
    hiff.mpr ?_, by decide +kernel⟩
  intro b hb
  have hmem := List.mem_map_of_mem (f := fun b : Name × Asset => b.2.amount.toInt) hb
  rw [hstakes, List.mem_singleton] at hmem
  rw [hlosers, hmem]
  norm_num [ProductFits]

/-- Two bets of `2 ^ 33` units: the product is a multiple of `2 ^ 64`, and the winner only
gets its stake back. -/
theorem winner_unpaid_by_wrapped_product :
    ¬ ∀ (env : Env) (ctx : Ctx) (w : World) (id : ℕ) (game : Betting), Reaches env w →
      w.state.bettings.find? id = some game →
      (∀ side, ∀ b ∈ game.betters side, 0 < b.2.amount.toInt) →
      (game.amount .short).amount.toInt + (game.amount .long).amount.toInt ≤ maxAmount →
      game.status = .notClaimed → env.self ∈ ctx.auths → game.endedAt ≤ ctx.now →
      ∃ s' sent, claimbet env ctx w.state id = .ok (s', sent) ∧ game.PaidProRata sent := by
  intro hall
  let ctx := sampleCtx 4500 "lemonade.c"
  obtain ⟨h, w, hplay, hobs⟩ := exists_of_play
    (show (play (stepWith sampleEnv) sampleWorld (gameOf 8589934592 8589934592)).map (fun r =>
        (((r.2.state.bettings.find? 0).map fun game =>
          (game.claimableAt 4500, (game.amount game.winPosition.opposite).amount.toInt ::
            (game.amount game.winPosition).amount.toInt ::
              (game.betters game.winPosition).map fun b => b.2.amount.toInt)),
          (claimbet sampleEnv ctx r.2.state 0).toOption.map fun x => x.2.map Inline.paid)) =
      some (some (true, [8589934592, 8589934592, 8589934592]), some [8589934592]) by decide +kernel)
  obtain ⟨hgame, hpaid⟩ := Prod.mk.inj hobs
  obtain ⟨game, hgame, hvalues⟩ := Option.map_eq_some_iff.mp hgame
  simp only [Prod.mk.injEq, List.cons.injEq] at hvalues
  obtain ⟨hclaimable, hlosers, hwinners, hstakes⟩ := hvalues
  obtain ⟨hstatus, hended, hsum, hpos⟩ := Betting.claimableAt_spec hclaimable
  obtain ⟨s', sent, hclaim, hfair⟩ := hall sampleEnv ctx w 0 game
    (reaches_of_play sampleWorld_genesis hplay) hgame hpos hsum hstatus
    (List.mem_singleton_self _) hended
  dsimp only at hpaid
  rw [hclaim] at hpaid
  unfold Betting.PaidProRata at hfair
  rw [hlosers, hwinners] at hfair
  generalize game.betters game.winPosition = bets at hfair hstakes
  cases hfair with
  | nil => cases hpaid
  | @cons b i _ _ hpay _ =>
      obtain ⟨price, memo, rfl, -, hprice⟩ := hpay
      simp only [List.map_cons, List.cons.injEq] at hstakes
      simp only [Except.toOption, Option.map_some, Option.some.injEq, List.map_cons,
        List.cons.injEq, Inline.paid] at hpaid
      rw [hstakes.1, hpaid.1] at hprice
      exact absurd hprice (by decide +kernel)

end Payments

end Lemonade
