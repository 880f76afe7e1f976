import Lemonade.Contract.Issue
import Mathlib.Tactic

/-!
# Price bets

A game is created by the contract's own account, goes live with the current btc
price, takes bets on one of two sides until `betting_ended_at`, and is settled
with a second price: by a refund of the only side that was betted on, or by
payments to the side that was right.
-/

namespace Lemonade

open Kernel

/-- `betting_ratio` -/
def bettingRatio : ℚ := 95 / 100

/-- One of the two sides of a game. -/
inductive Position where
  | short
  | long
deriving DecidableEq, Repr

namespace Betting

/-- The list of betters of a side. -/
def betters (b : Betting) : Position → List (Name × Asset)
  | .short => b.shortBetters
  | .long => b.longBetters

/-- The total betted on a side. -/
def amount (b : Betting) : Position → Asset
  | .short => b.shortBettingAmount
  | .long => b.longBettingAmount

/-- `short_better_exists` and `long_better_exists` -/
def betterExists (b : Betting) (side : Position) (owner : Name) : Prop :=
  ∃ better ∈ b.betters side, better.1 = owner

instance (b : Betting) (side : Position) (owner : Name) :
    Decidable (b.betterExists side owner) :=
  inferInstanceAs (Decidable (∃ better ∈ b.betters side, better.1 = owner))

/-- The dividend of a side. -/
def dividendOn (b : Betting) : Position → ℚ
  | .short => b.shortDividend
  | .long => b.longDividend

/-- `win_position` -/
def winPosition (b : Betting) : Position :=
  if b.finalPrice ≤ b.basePrice then .short else .long

end Betting

/-- The other side. -/
def Position.opposite : Position → Position
  | short => long
  | long => short

section Lifecycle

/-- `createbet` -/
def createbet (env : Env) (ctx : Ctx) (s : State)
    (startedAt bettingEndedAt endedAt : UInt32) : Result State := do
  requireAuth ctx env.self
  let zero ← Asset.make 0 ledSymbol
  check (startedAt ≤ bettingEndedAt ∧ bettingEndedAt ≤ endedAt) "timestamp is not correct"
  check (ctx.now ≤ startedAt) "start time must greater than now"
  let id ← availablePrimaryKey (s.bettings.rows.map Prod.fst)
  let bettings ← emplace s.bettings id {
    basePrice := 0
    finalPrice := 0
    shortBetters := []
    longBetters := []
    shortBettingAmount := zero
    longBettingAmount := zero
    shortDividend := 0
    longDividend := 0
    startedAt := startedAt
    bettingEndedAt := bettingEndedAt
    endedAt := endedAt
    status := .notStarted }
  return { s with bettings := bettings }

/-- `rmbet` -/
def rmbet (env : Env) (ctx : Ctx) (s : State) (betId : Nat) : Result State := do
  requireAuth ctx env.self
  let game ← require (s.bettings.find? betId) "game does not exist"
  check (game.status = .finished) "game not finished"
  return { s with bettings := s.bettings.erase betId }

/-- The refunds of a game that only one side has betted on.  With no better at
all both loops of the source run over empty lists. -/
def refunds (betId : Nat) (game : Betting) : List Inline :=
  let memo := "refund ".toList ++ (toString betId).toList ++ "game, game not started".toList
  (if game.longBetters.length = 0 then
    game.shortBetters.map fun k => Inline.transfer ledTokenContract k.1 k.2 memo else []) ++
  (if game.shortBetters.length = 0 then
    game.longBetters.map fun k => Inline.transfer ledTokenContract k.1 k.2 memo else [])

/-- `setbet`.  The branches exclude each other, as do the bytes they compare with;
a byte that is none of the three is accepted and changes nothing. -/
def setbet (env : Env) (ctx : Ctx) (s : State) (betId : Nat) (status : UInt8) :
    Result (State × List Inline) := do
  requireAuth ctx env.self
  let config ← require s.config "contract not initialized"
  let game ← require (s.bettings.find? betId) "game does not exist"
  check (status ≠ Status.notStarted.code ∧ status ≠ Status.finished.code)
    "you give wrong status"
  if status = Status.isLive.code then
    check (game.status = .notStarted) "game status has wrong value"
    check (game.startedAt ≤ ctx.now) "the start time has not passed."
    return ({ s with bettings := s.bettings.put betId { game with
      status := .isLive
      basePrice := config.btcPrice } }, [])
  else if status = Status.bettingFinish.code then
    check (game.status = .isLive) "game status has wrong value"
    check (game.bettingEndedAt ≤ ctx.now) "the betting end time has not passed."
    if game.longBetters.length = 0 ∨ game.shortBetters.length = 0 then
      return ({ s with bettings := s.bettings.put betId { game with
        status := .noGame
        finalPrice := config.btcPrice } }, refunds betId game)
    else
      return ({ s with bettings := s.bettings.put betId { game with
        status := .bettingFinish } }, [])
  else if status = Status.notClaimed.code then
    check (game.status = .bettingFinish) "game status has wrong value"
    check (game.endedAt ≤ ctx.now) "the end time has not passed."
    return ({ s with bettings := s.bettings.put betId { game with
      status := .notClaimed
      finalPrice := config.btcPrice } }, [])
  else
    return (s, [])

theorem createbet_eq_ok
    {env : Env} {ctx : Ctx} {s s' : State} {startedAt bettingEndedAt endedAt : UInt32}
    (h : createbet env ctx s startedAt bettingEndedAt endedAt = .ok s') :
    ∃ id game, s.bettings.find? id = none ∧
      (∀ side, game.betters side = []) ∧ (∀ side, game.amount side = zeroLed) ∧
      (∀ side, game.dividendOn side = 0) ∧ game.status = .notStarted ∧
      s' = { s with bettings := s.bettings.put id game } := by
  simp only [createbet, bind_eq_ok_iff, check_eq_ok_iff, Asset.make_eq_ok_iff,
    emplace_eq_ok_iff, pure_eq_ok_iff] at h
  obtain ⟨_, -, zero, ⟨-, -, rfl⟩, _, -, _, -, id, -, _, ⟨hfresh, rfl⟩, rfl⟩ := h
  refine ⟨id, _, hfresh, ?_, ?_, ?_, rfl, rfl⟩
  · intro side
    cases side <;> rfl
  · intro side
    cases side <;> rfl
  · intro side
    cases side <;> rfl

theorem rmbet_eq_ok
    {env : Env} {ctx : Ctx} {s s' : State} {betId : Nat}
    (h : rmbet env ctx s betId = .ok s') :
    ∃ game, s.bettings.find? betId = some game ∧ game.status = .finished ∧
      s' = { s with bettings := s.bettings.erase betId } := by
  simp only [rmbet, bind_eq_ok_iff, check_eq_ok_iff, require_eq_ok_iff, pure_eq_ok_iff] at h
  obtain ⟨_, -, game, hgame, _, hstatus, rfl⟩ := h
  exact ⟨game, hgame, hstatus, rfl⟩

/-- A game after `setbet`: only its status and its prices may have changed. -/
def Betting.moved (game : Betting) (status : Status) (basePrice finalPrice : ℚ) : Betting :=
  { game with status := status, basePrice := basePrice, finalPrice := finalPrice }

@[simp] theorem Betting.moved_betters
    (game : Betting) (status : Status) (basePrice finalPrice : ℚ) (side : Position) :
    (game.moved status basePrice finalPrice).betters side = game.betters side := by
  cases side <;> rfl

@[simp] theorem Betting.moved_amount
    (game : Betting) (status : Status) (basePrice finalPrice : ℚ) (side : Position) :
    (game.moved status basePrice finalPrice).amount side = game.amount side := by
  cases side <;> rfl

@[simp] theorem Betting.moved_dividendOn
    (game : Betting) (status : Status) (basePrice finalPrice : ℚ) (side : Position) :
    (game.moved status basePrice finalPrice).dividendOn side = game.dividendOn side := by
  cases side <;> rfl

/-- The moves that `setbet` makes without paying anything. -/
inductive Status.Quiet : Status → Status → Prop
  | start : Quiet notStarted isLive
  | close : Quiet isLive bettingFinish
  | score : Quiet bettingFinish notClaimed

/-- The prices of a game that moves to a status: the base price is set at the start, the
final price at the score. -/
structure Betting.Priced (game : Betting) (next : Status) (basePrice finalPrice : ℚ) :
    Prop where
  base : next ≠ .isLive → basePrice = game.basePrice
  final : next ≠ .notClaimed → finalPrice = game.finalPrice

theorem setbet_eq_ok
    {env : Env} {ctx : Ctx} {s s' : State} {betId : Nat} {status : UInt8}
    {sent : List Inline}
    (h : setbet env ctx s betId status = .ok (s', sent)) :
    ∃ game, s.bettings.find? betId = some game ∧
      (s' = s ∧ sent = [] ∧ status ≠ Status.bettingFinish.code ∨
        (∃ next basePrice finalPrice, game.status.Quiet next ∧ status = next.code ∧
          (next = .bettingFinish → ∀ side, game.betters side ≠ []) ∧
          game.Priced next basePrice finalPrice ∧
          s' = { s with
            bettings := s.bettings.put betId (game.moved next basePrice finalPrice) } ∧
          sent = []) ∨
        ∃ finalPrice, game.status = .isLive ∧ status = Status.bettingFinish.code ∧
          (game.longBetters = [] ∨ game.shortBetters = []) ∧
          s' = { s with
            bettings := s.bettings.put betId (game.moved .noGame game.basePrice finalPrice) } ∧
          sent = refunds betId game) := by
  simp only [setbet, bind_eq_ok_iff, check_eq_ok_iff, require_eq_ok_iff] at h
  obtain ⟨_, -, config, -, game, hgame, _, -, h⟩ := h
  refine ⟨game, hgame, ?_⟩
  split_ifs at h with hlive hfinish hside hclaim
  · simp only [bind_eq_ok_iff, check_eq_ok_iff, pure_eq_ok_iff, Prod.mk.injEq] at h
    obtain ⟨_, hstatus, _, -, rfl, rfl⟩ := h
    refine Or.inr (Or.inl ⟨.isLive, config.btcPrice, game.finalPrice, ?_, hlive, ?_,
      ⟨fun hne => absurd rfl hne, fun _ => rfl⟩, rfl, rfl⟩)
    · rw [hstatus]
      exact .start
    · intro hnext
      cases hnext
  · simp only [bind_eq_ok_iff, check_eq_ok_iff, pure_eq_ok_iff, Prod.mk.injEq] at h
    obtain ⟨_, hstatus, _, -, rfl, rfl⟩ := h
    refine Or.inr (Or.inr ⟨config.btcPrice, hstatus, hfinish, ?_, rfl, rfl⟩)
    simpa using hside
  · simp only [bind_eq_ok_iff, check_eq_ok_iff, pure_eq_ok_iff, Prod.mk.injEq] at h
    obtain ⟨_, hstatus, _, -, rfl, rfl⟩ := h
    refine Or.inr (Or.inl
      ⟨.bettingFinish, game.basePrice, game.finalPrice, ?_, hfinish, ?_,
        ⟨fun _ => rfl, fun _ => rfl⟩, rfl, rfl⟩)
    · rw [hstatus]
      exact .close
    · rintro - side
      rw [not_or] at hside
      cases side with
      | short => simpa [Betting.betters] using hside.2
      | long => simpa [Betting.betters] using hside.1
  · simp only [bind_eq_ok_iff, check_eq_ok_iff, pure_eq_ok_iff, Prod.mk.injEq] at h
    obtain ⟨_, hstatus, _, -, rfl, rfl⟩ := h
    refine Or.inr (Or.inl ⟨.notClaimed, game.basePrice, config.btcPrice, ?_, hclaim, ?_,
      ⟨fun _ => rfl, fun hne => absurd rfl hne⟩, rfl, rfl⟩)
    · rw [hstatus]
      exact .score
    · intro hnext
      cases hnext
  · simp only [pure_eq_ok_iff, Prod.mk.injEq] at h
    obtain ⟨rfl, rfl⟩ := h
    exact Or.inl ⟨rfl, rfl, hfinish⟩

end Lifecycle

section Bets

/-- `(short + long) / side * betting_ratio` -/
def dividend [Doubles] (short long side : Int64) : ℚ :=
  rnd (rnd (rnd (short + long).toInt / rnd side.toInt) * rnd bettingRatio)

/-- `bet` on a side -/
def placeBet [Doubles] (game : Betting) (owner : Name) (quantity : Asset) :
    Position → Result Betting
  | .long => do
      let long ← game.longBettingAmount.add quantity
      let short := game.shortBettingAmount
      return { game with
        longBettingAmount := long
        longBetters := game.longBetters ++ [(owner, quantity)]
        shortDividend :=
          if short.amount ≠ 0 then dividend short.amount long.amount short.amount else 0
        longDividend := dividend short.amount long.amount long.amount }
  | .short => do
      let short ← game.shortBettingAmount.add quantity
      let long := game.longBettingAmount
      return { game with
        shortBettingAmount := short
        shortBetters := game.shortBetters ++ [(owner, quantity)]
        shortDividend := dividend short.amount long.amount short.amount
        longDividend :=
          if long.amount ≠ 0 then dividend short.amount long.amount long.amount else 0 }

/-- The side that a memo names. -/
def readPosition (position : Text) : Option Position :=
  if position = "long".toList then some .long
  else if position = "short".toList then some .short
  else none

/-- `bet` -/
def bet [Doubles] (ctx : Ctx) (s : State) (owner : Name) (quantity : Asset) (betId : Nat)
    (position : Text) : Result State := do
  requireAuth ctx owner
  let game ← require (s.bettings.find? betId) "game does not exist"
  let side ← require (readPosition position) "you must bet long or short position"
  check (¬ game.betterExists .long owner ∧ ¬ game.betterExists .short owner)
    "you already betted"
  check (game.status = .isLive) "game is not lived"
  check (ctx.now ≤ game.bettingEndedAt) "betting time is over"
  let game ← placeBet game owner quantity side
  return { s with bettings := s.bettings.put betId game }

/-- What a winner with a stake is paid: the stake and 95 percent of its part of
the losing total.  The product is taken modulo `2 ^ 64`. -/
def winnerPrice [Doubles] (stake : Asset) (losersTotal winnersTotal : Int64) : Result Asset := do
  demand (winnersTotal ≠ 0) (.trap "integer divide by zero")
  let part := stake.amount.toUInt64 * losersTotal.toUInt64 / winnersTotal.toUInt64
  let amount ← toInt64
    (rnd (rnd stake.amount.toInt + rnd (rnd part.toNat * rnd bettingRatio)))
  Asset.make amount stake.symbol

/-- The payments of `claimbet`, one winner after the other. -/
def winnings [Doubles] (betId : Nat) (losersTotal winnersTotal : Int64) :
    List (Name × Asset) → Result (List Inline)
  | [] => return []
  | k :: winners => do
      let price ← winnerPrice k.2 losersTotal winnersTotal
      let rest ← winnings betId losersTotal winnersTotal winners
      let memo := "winner of ".toList ++ (toString betId).toList ++ "game!".toList
      return if price.amount = 0 then rest
        else .transfer ledTokenContract k.1 price memo :: rest

/-- `claimbet` -/
def claimbet [Doubles] (env : Env) (ctx : Ctx) (s : State) (betId : Nat) :
    Result (State × List Inline) := do
  requireAuth ctx env.self
  let game ← require (s.bettings.find? betId) "game does not exist"
  check (game.status = .notClaimed) "game is not finished"
  check (game.endedAt ≤ ctx.now) "betting is not over"
  check (game.longBetters.length ≠ 0 ∧ game.shortBetters.length ≠ 0) "no betters"
  let side := game.winPosition
  let sent ← winnings betId (game.amount side.opposite).amount (game.amount side).amount
    (game.betters side)
  return ({ s with bettings := s.bettings.put betId { game with status := .finished } }, sent)

theorem bet_eq_ok [Doubles]
    {ctx : Ctx} {s s' : State} {owner : Name} {quantity : Asset} {betId : Nat}
    {position : Text}
    (h : bet ctx s owner quantity betId position = .ok s') :
    ∃ game side game',
      owner ∈ ctx.auths ∧
      s.bettings.find? betId = some game ∧
      readPosition position = some side ∧
      (∀ side, ¬ game.betterExists side owner) ∧
      game.status = .isLive ∧
      placeBet game owner quantity side = .ok game' ∧
      s' = { s with bettings := s.bettings.put betId game' } := by
  simp only [bet, bind_eq_ok_iff, requireAuth_eq_ok_iff, check_eq_ok_iff, require_eq_ok_iff,
    pure_eq_ok_iff] at h
  obtain ⟨_, hauth, game, hgame, side, hside, _, hnew, _, hlive, _, -, game', hplace, rfl⟩ := h
  refine ⟨game, side, game', hauth, hgame, hside, ?_, hlive, hplace, rfl⟩
  intro side
  cases side with
  | short => exact hnew.2
  | long => exact hnew.1

/-- A bet extends one side and leaves the other one alone. -/
theorem placeBet_eq_ok [Doubles]
    {game game' : Betting} {owner : Name} {quantity : Asset} {side : Position}
    (h : placeBet game owner quantity side = .ok game') :
    (game.amount side).add quantity = .ok (game'.amount side) ∧
      game'.betters side = game.betters side ++ [(owner, quantity)] ∧
      game'.amount side.opposite = game.amount side.opposite ∧
      game'.betters side.opposite = game.betters side.opposite ∧
      game'.status = game.status := by
  cases side with
  | long =>
      simp only [placeBet, bind_eq_ok_iff, pure_eq_ok_iff] at h
      obtain ⟨long, hadd, rfl⟩ := h
      exact ⟨hadd, rfl, rfl, rfl, rfl⟩
  | short =>
      simp only [placeBet, bind_eq_ok_iff, pure_eq_ok_iff] at h
      obtain ⟨short, hadd, rfl⟩ := h
      exact ⟨hadd, rfl, rfl, rfl, rfl⟩

/-- A bet keeps the prices, and sets the dividends of both sides. -/
theorem placeBet_dividends [Doubles]
    {game game' : Betting} {owner : Name} {quantity : Asset} {side : Position}
    (h : placeBet game owner quantity side = .ok game') :
    game'.basePrice = game.basePrice ∧ game'.finalPrice = game.finalPrice ∧
      ∀ side', game'.dividendOn side' =
        if side' = side ∨ (game'.amount side').amount ≠ 0 then
          dividend (game'.amount .short).amount (game'.amount .long).amount
            (game'.amount side').amount
        else 0 := by
  cases side with
  | long =>
      simp only [placeBet, bind_eq_ok_iff, pure_eq_ok_iff] at h
      obtain ⟨long, -, rfl⟩ := h
      refine ⟨rfl, rfl, ?_⟩
      intro side'
      cases side' with
      | long => rfl
      | short => simp [Betting.dividendOn, Betting.amount]
  | short =>
      simp only [placeBet, bind_eq_ok_iff, pure_eq_ok_iff] at h
      obtain ⟨short, -, rfl⟩ := h
      refine ⟨rfl, rfl, ?_⟩
      intro side'
      cases side' with
      | long => simp [Betting.dividendOn, Betting.amount]
      | short => rfl

theorem claimbet_eq_ok [Doubles]
    {env : Env} {ctx : Ctx} {s s' : State} {betId : Nat} {sent : List Inline}
    (h : claimbet env ctx s betId = .ok (s', sent)) :
    ∃ game,
      s.bettings.find? betId = some game ∧
      game.status = .notClaimed ∧
      winnings betId (game.amount game.winPosition.opposite).amount
        (game.amount game.winPosition).amount (game.betters game.winPosition) = .ok sent ∧
      s' = { s with
        bettings := s.bettings.put betId
          (game.moved .finished game.basePrice game.finalPrice) } := by
  simp only [claimbet, bind_eq_ok_iff, check_eq_ok_iff, require_eq_ok_iff, pure_eq_ok_iff,
    Prod.mk.injEq] at h
  obtain ⟨_, -, game, hgame, _, hstatus, _, -, _, -, sent, hwin, rfl, rfl⟩ := h
  exact ⟨game, hgame, hstatus, hwin, rfl⟩

end Bets

end Lemonade
