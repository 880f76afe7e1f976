import Lemonade.Kernel.ProRata
import Lemonade.Safety.BettingLedger
import Mathlib.Tactic

/-!
# A pot is paid once and never overspent

The history of one game, from its creation on.  `PotStep` lists what a step can do
to the game: nothing, a move of its status, a bet, the refund, the payment of the
winners.  What the game owes is read off the history, so the ledger of the game and
the payments made for it can be compared.  Doubles are idealised here.
-/

namespace Lemonade

open Kernel
open Idealised

section Observations

/-- The game, the side and the bet that a notification places. -/
def placedBet (env : Env) (e : Event) : Option (Nat × Position × Name × Asset) :=
  match e.action with
  | .notify _ source dest quantity memo =>
      if dest = env.self ∧ source ≠ env.self ∧
          field (memoParser memo) 0 = .ok "bet".toList then
        match betTarget (memoParser memo) with
        | .ok (betId, position) =>
            (readPosition position).map fun side => (betId, side, source, quantity)
        | .error _ => none
      else none
  | _ => none

/-- The bets that an event places on a side of a game. -/
def betsOn (env : Env) (id : Nat) (side : Position) (p : World × Event) :
    List (Name × Asset) :=
  match placedBet env p.2 with
  | some (betId, position, better) => if betId = id ∧ position = side then [better] else []
  | none => []

/-- The event is the `setbet` that ends the betting on a game with an empty side. -/
def refunding (id : Nat) (p : World × Event) : Bool :=
  match p.2.action with
  | .setbet betId status =>
      decide (betId = id) && decide (status = Status.bettingFinish.code) &&
        (p.1.state.bettings.find? id).any fun game =>
          game.longBetters.isEmpty || game.shortBetters.isEmpty
  | _ => false

/-- The event is a `claimbet` of the game. -/
def claiming (id : Nat) (p : World × Event) : Bool :=
  match p.2.action with
  | .claimbet betId => decide (betId = id)
  | _ => false

/-- Does the event pay out the game? -/
def payout (id : Nat) (p : World × Event) : Bool := refunding id p || claiming id p

/-- The amount that an inline action pays. -/
def Inline.paid : Inline → ℤ
  | .issue _ _ _ _ => 0
  | .transfer _ _ quantity _ => quantity.amount.toInt

/-- All that an action on the game pays. -/
def paidFor (id : Nat) (p : World × Event) : ℤ :=
  match p.2.action with
  | .setbet betId _ => if betId = id then (p.2.sent.map Inline.paid).sum else 0
  | .claimbet betId => if betId = id then (p.2.sent.map Inline.paid).sum else 0
  | _ => 0

end Observations

section Winnings

/-- A payment to a winner: no less than its stake, in the token of the stake. -/
def PaysWinner (better : Name × Asset) (i : Inline) : Prop :=
  ∃ price memo, i = .transfer ledTokenContract better.1 price memo ∧
    price.symbol = better.2.symbol ∧ better.2.amount.toInt ≤ price.amount.toInt

theorem toNat_toUInt64
    {x : Int64} (h : 0 ≤ x.toInt) : (x.toUInt64.toNat : ℤ) = x.toInt := by
  rw [Int64.toNat_toUInt64_of_le (Int64.le_iff_toInt_le.mpr h), ← Int64.toNat_toInt,
    Int.toNat_of_nonneg h]

/-- A product cut off at 64 bits and divided is at most the exact quotient. -/
theorem wrapped_quotient_mul_le (a b c : UInt64) :
    (a * b / c).toNat * c.toNat ≤ a.toNat * b.toNat := by
  rw [UInt64.toNat_div, UInt64.toNat_mul]
  calc a.toNat * b.toNat % 2 ^ 64 / c.toNat * c.toNat
      ≤ a.toNat * b.toNat % 2 ^ 64 := Nat.div_mul_le_self _ _
    _ ≤ a.toNat * b.toNat := Nat.mod_le _ _

/-- The price of a winner is its stake and a part of the losing total. -/
theorem winnerPrice_eq_ok
    {stake price : Asset} {losersTotal winnersTotal : Int64}
    (hstake : 0 ≤ stake.amount.toInt) (hlosers : 0 ≤ losersTotal.toInt)
    (hwinners : 0 ≤ winnersTotal.toInt)
    (h : winnerPrice stake losersTotal winnersTotal = .ok price) :
    price.symbol = stake.symbol ∧
      stake.amount.toInt ≤ price.amount.toInt ∧
      WithinShare winnersTotal.toInt losersTotal.toInt stake.amount.toInt
        (price.amount.toInt - stake.amount.toInt) := by
  simp only [winnerPrice, bind_eq_ok_iff, demand_eq_ok_iff, toInt64_eq_ok_iff,
    Asset.make_eq_ok_iff, rnd_eq] at h
  obtain ⟨_, -, amount, hamount, -, -, rfl⟩ := h
  have hquotient := wrapped_quotient_mul_le stake.amount.toUInt64 losersTotal.toUInt64
    winnersTotal.toUInt64
  generalize hpart : (stake.amount.toUInt64 * losersTotal.toUInt64 /
    winnersTotal.toUInt64).toNat = part at hquotient hamount
  have hshare : WithinShare winnersTotal.toInt losersTotal.toInt stake.amount.toInt
      (part : ℤ) := by
    unfold WithinShare
    rw [← toNat_toUInt64 hstake, ← toNat_toUInt64 hlosers, ← toNat_toUInt64 hwinners]
    exact_mod_cast hquotient
  have hpart0 : (0 : ℚ) ≤ (part : ℚ) := Nat.cast_nonneg part
  have hlow : (stake.amount.toInt : ℚ) ≤ stake.amount.toInt + part * bettingRatio := by
    unfold bettingRatio
    linarith
  have hhigh : (stake.amount.toInt : ℚ) + part * bettingRatio ≤
      ((stake.amount.toInt + part : ℤ) : ℚ) := by
    unfold bettingRatio
    push_cast
    linarith
  refine ⟨rfl, ?_, ?_⟩
  · simp only [hamount]
    exact le_trunc_of_le hstake hlow
  · refine hshare.of_le hwinners ?_
    have hle := trunc_mono hhigh
    rw [trunc_intCast] at hle
    simp only [hamount]
    omega

/-- Every winner is paid once, and all of them together no more than their stakes and
the losing total. -/
theorem winnings_eq_ok
    {betId : Nat} {losersTotal winnersTotal : Int64} {winners : List (Name × Asset)}
    {sent : List Inline}
    (hstake : ∀ b ∈ winners, 0 < b.2.amount.toInt) (hlosers : 0 ≤ losersTotal.toInt)
    (hwinners : 0 ≤ winnersTotal.toInt)
    (h : winnings betId losersTotal winnersTotal winners = .ok sent) :
    List.Forall₂ PaysWinner winners sent ∧
      WithinShare winnersTotal.toInt losersTotal.toInt (betted winners)
        ((sent.map Inline.paid).sum - betted winners) := by
  induction winners generalizing sent with
  | nil =>
      obtain rfl := pure_eq_ok_iff.mp h
      exact ⟨.nil, by simpa using WithinShare.zero⟩
  | cons k winners ih =>
      simp only [winnings, bind_eq_ok_iff, pure_eq_ok_iff] at h
      obtain ⟨price, hprice, rest, hrest, rfl⟩ := h
      have hk : 0 < k.2.amount.toInt := hstake k List.mem_cons_self
      obtain ⟨hsymbol, hle, hshare⟩ := winnerPrice_eq_ok hk.le hlosers hwinners hprice
      obtain ⟨hpays, hshares⟩ := ih (fun b hb => hstake b (List.mem_cons_of_mem k hb)) hrest
      have hne : price.amount ≠ 0 := by
        intro hzero
        rw [hzero, Int64.toInt_zero] at hle
        omega
      rw [if_neg hne]
      refine ⟨.cons ⟨price, _, rfl, hsymbol, hle⟩ hpays, ?_⟩
      have hadd := hshare.add hshares
      simp only [List.map_cons, List.sum_cons, Inline.paid, betted_cons]
      convert hadd using 1
      ring

end Winnings

section Steps

/-- The event places no bet on the game. -/
def NoBets (env : Env) (id : Nat) (p : World × Event) : Prop :=
  ∀ side, betsOn env id side p = []

/-- The event neither closes nor pays the game. -/
def Unpaid (id : Nat) (p : World × Event) : Prop :=
  refunding id p = false ∧ claiming id p = false ∧ paidFor id p = 0

/-- What a step does to a game and pays for it. -/
inductive PotStep (env : Env) (id : Nat) (p : World × Event) (game : Betting) :
    Betting → Prop
  | idle (bets : NoBets env id p) (unpaid : Unpaid id p) : PotStep env id p game game
  | quiet {next : Status} {basePrice finalPrice : ℚ} (move : game.status.Quiet next)
      (bets : NoBets env id p) (unpaid : Unpaid id p) :
      PotStep env id p game (game.moved next basePrice finalPrice)
  | bet {side : Position} {owner : Name} {quantity : Asset} {game' : Betting}
      (live : game.status = .isLive)
      (placed : placeBet game owner quantity side = .ok game')
      (bets : ∀ side', betsOn env id side' p =
        if side = side' then [(owner, quantity)] else [])
      (unpaid : Unpaid id p) : PotStep env id p game game'
  | refund {finalPrice : ℚ} (live : game.status = .isLive)
      (side : game.longBetters = [] ∨ game.shortBetters = [])
      (bets : NoBets env id p) (refunding : refunding id p = true)
      (claiming : claiming id p = false) (sent : p.2.sent = refunds id game)
      (paid : paidFor id p = (p.2.sent.map Inline.paid).sum) :
      PotStep env id p game (game.moved .noGame game.basePrice finalPrice)
  | claim (status : game.status = .notClaimed)
      (bets : NoBets env id p) (refunding : refunding id p = false)
      (claiming : claiming id p = true)
      (sent : winnings id (game.amount game.winPosition.opposite).amount
        (game.amount game.winPosition).amount (game.betters game.winPosition) = .ok p.2.sent)
      (paid : paidFor id p = (p.2.sent.map Inline.paid).sum) :
      PotStep env id p game (game.moved .finished game.basePrice game.finalPrice)

/-- The actions that can touch a game. -/
def Action.OnGames : Action → Prop
  | .createbet _ _ _ => True
  | .setbet _ _ => True
  | .rmbet _ => True
  | .claimbet _ => True
  | .notify _ _ _ _ _ => True
  | _ => False

variable {env : Env} {u v : World} {e : Event} {id : Nat}

theorem bettings_of_not_onGames
    (h : Step env u e v) (hnot : ¬ e.action.OnGames) : v.state.bettings = u.state.bettings := by
  obtain ⟨ctx, a, sent⟩ := e
  cases exec_area h.2.1 with
  | stakes _ _ games => exact games
  | games move =>
      dsimp only at move hnot
      cases move <;> exact absurd trivial hnot
  | dex _ stakes => exact stakes.2.2
  | idle stakes => exact stakes.2.2

theorem unpaid_of_not_onGames
    {p : World × Event} (hnot : ¬ p.2.action.OnGames) : NoBets env id p ∧ Unpaid id p := by
  obtain ⟨u, ctx, a, sent⟩ := p
  dsimp only at hnot
  cases a with
  | createbet => exact absurd trivial hnot
  | setbet => exact absurd trivial hnot
  | rmbet => exact absurd trivial hnot
  | claimbet => exact absurd trivial hnot
  | notify => exact absurd trivial hnot
  | _ => exact ⟨fun _ => rfl, rfl, rfl, rfl⟩

variable {ctx : Ctx} {sent : List Inline} {firstReceiver source dest : Name}
  {quantity : Asset} {memo : Text}

theorem unpaid_of_notify :
    Unpaid id (u, ⟨ctx, .notify firstReceiver source dest quantity memo, sent⟩) :=
  ⟨rfl, rfl, rfl⟩

theorem noBets_of_not_bet
    (hnot : ¬ (Incoming env source dest ∧ Operation memo "bet")) :
    NoBets env id (u, ⟨ctx, .notify firstReceiver source dest quantity memo, sent⟩) := by
  intro side
  simp only [betsOn, placedBet]
  rw [if_neg fun h => hnot ⟨⟨h.1, h.2.1⟩, h.2.2⟩]

theorem betsOn_of_bet
    {betId : Nat} {position : Text} {side : Position}
    (hin : Incoming env source dest) (hop : Operation memo "bet")
    (htarget : betTarget (memoParser memo) = .ok (betId, position))
    (hside : readPosition position = some side) (side' : Position) :
    betsOn env id side' (u, ⟨ctx, .notify firstReceiver source dest quantity memo, sent⟩) =
      if betId = id ∧ side = side' then [(source, quantity)] else [] := by
  simp only [betsOn, placedBet]
  rw [if_pos ⟨hin.1, hin.2, hop⟩, htarget]
  simp only [hside, Option.map_some]

theorem setbet_potStep
    {game : Betting} {betId : Nat} {status : UInt8}
    (hgame : u.state.bettings.find? id = some game)
    (h : setbet env ctx u.state betId status = .ok (v.state, sent)) :
    ∃ game', v.state.bettings.find? id = some game' ∧
      PotStep env id (u, ⟨ctx, .setbet betId status, sent⟩) game game' := by
  have hbets : NoBets env id (u, ⟨ctx, .setbet betId status, sent⟩) := fun _ => rfl
  by_cases hid : betId = id
  · subst hid
    have hrefunding : refunding betId (u, ⟨ctx, .setbet betId status, sent⟩) =
        (decide (status = Status.bettingFinish.code) &&
          (game.longBetters.isEmpty || game.shortBetters.isEmpty)) := by
      simp [refunding, hgame]
    obtain ⟨game₀, hgame₀, hcase⟩ := setbet_eq_ok h
    obtain rfl := Option.some.inj (hgame.symm.trans hgame₀)
    rcases hcase with ⟨hsame, rfl, hne⟩ | ⟨next, _, _, hquiet, rfl, hclose, -, hstate, rfl⟩ |
      ⟨_, hlive, rfl, hempty, hstate, rfl⟩
    · refine ⟨game, by rw [hsame, hgame], .idle hbets ⟨?_, rfl, ?_⟩⟩
      · rw [hrefunding, decide_eq_false hne, Bool.false_and]
      · simp [paidFor]
    · refine ⟨_, by rw [hstate, Table.find?_put_self], .quiet hquiet hbets ⟨?_, rfl, ?_⟩⟩
      · rw [hrefunding]
        by_cases hfinish : next = .bettingFinish
        · have hlong : game.longBetters ≠ [] := hclose hfinish .long
          have hshort : game.shortBetters ≠ [] := hclose hfinish .short
          simp [hlong, hshort]
        · have hcode : next.code ≠ Status.bettingFinish.code :=
            fun hcode => hfinish (Status.code_injective hcode)
          rw [decide_eq_false hcode, Bool.false_and]
      · simp [paidFor]
    · refine ⟨_, by rw [hstate, Table.find?_put_self],
        .refund hlive hempty hbets ?_ rfl rfl (if_pos rfl)⟩
      rw [hrefunding]
      rcases hempty with hempty | hempty
      · simp [hempty]
      · simp [hempty]
  · have hunpaid : Unpaid id (u, ⟨ctx, .setbet betId status, sent⟩) := by
      refine ⟨?_, rfl, if_neg hid⟩
      simp only [refunding, decide_eq_false hid, Bool.false_and]
    refine ⟨game, ?_, .idle hbets hunpaid⟩
    obtain ⟨_, -, ⟨hstate, -⟩ | ⟨_, _, _, -, -, -, -, hstate, -⟩ | ⟨_, -, -, -, hstate, -⟩⟩ :=
      setbet_eq_ok h
    · rw [hstate, hgame]
    · rw [hstate, Table.find?_put_of_ne _ _ hid, hgame]
    · rw [hstate, Table.find?_put_of_ne _ _ hid, hgame]

theorem claimbet_potStep
    {game : Betting} {betId : Nat}
    (hgame : u.state.bettings.find? id = some game)
    (h : claimbet env ctx u.state betId = .ok (v.state, sent)) :
    ∃ game', v.state.bettings.find? id = some game' ∧
      PotStep env id (u, ⟨ctx, .claimbet betId, sent⟩) game game' := by
  obtain ⟨game₀, hgame₀, hstatus, hsent, hstate⟩ := claimbet_eq_ok h
  have hbets : NoBets env id (u, ⟨ctx, .claimbet betId, sent⟩) := fun _ => rfl
  by_cases hid : betId = id
  · subst hid
    obtain rfl := Option.some.inj (hgame.symm.trans hgame₀)
    refine ⟨_, by rw [hstate, Table.find?_put_self], .claim hstatus hbets rfl ?_ hsent ?_⟩
    · exact decide_eq_true rfl
    · exact if_pos rfl
  · refine ⟨game, ?_, .idle hbets ⟨rfl, decide_eq_false hid, if_neg hid⟩⟩
    rw [hstate, Table.find?_put_of_ne _ _ hid, hgame]

theorem bet_potStep
    {game : Betting} {betId : Nat} {position : Text}
    (hgame : u.state.bettings.find? id = some game)
    (hin : Incoming env source dest) (hop : Operation memo "bet")
    (htarget : betTarget (memoParser memo) = .ok (betId, position))
    (h : bet ctx u.state source quantity betId position = .ok v.state) :
    ∃ game', v.state.bettings.find? id = some game' ∧
      PotStep env id (u, ⟨ctx, .notify firstReceiver source dest quantity memo, sent⟩)
        game game' := by
  obtain ⟨game₀, side, game', -, hgame₀, hside, -, hlive, hplace, hstate⟩ := bet_eq_ok h
  have hbets : ∀ side', betsOn env id side'
      (u, ⟨ctx, .notify firstReceiver source dest quantity memo, sent⟩) =
        if betId = id ∧ side = side' then [(source, quantity)] else [] :=
    betsOn_of_bet hin hop htarget hside
  by_cases hid : betId = id
  · subst hid
    obtain rfl := Option.some.inj (hgame.symm.trans hgame₀)
    refine ⟨game', by rw [hstate, Table.find?_put_self],
      PotStep.bet hlive hplace ?_ unpaid_of_notify⟩
    intro side'
    rw [hbets]
    simp only [true_and]
  · refine ⟨game, by rw [hstate, Table.find?_put_of_ne _ _ hid, hgame],
      .idle ?_ unpaid_of_notify⟩
    intro side'
    rw [hbets, if_neg fun h => hid h.1]

theorem Step.potStep
    {game : Betting} (h : Step env u e v) (hgame : u.state.bettings.find? id = some game)
    (hkeep : e.action ≠ .rmbet id) :
    ∃ game', v.state.bettings.find? id = some game' ∧ PotStep env id (u, e) game game' := by
  by_cases hon : e.action.OnGames
  · obtain ⟨-, hexec, -⟩ := h
    obtain ⟨ctx, a, sent⟩ := e
    dsimp only at *
    cases a with
    | createbet startedAt bettingEndedAt endedAt =>
        obtain ⟨hok, rfl⟩ := silent_eq_ok_iff.mp hexec
        obtain ⟨betId, _, hfresh, -, -, -, -, hstate⟩ := createbet_eq_ok hok
        have hne : betId ≠ id := by
          rintro rfl
          rw [hgame] at hfresh
          cases hfresh
        refine ⟨game, ?_, .idle (fun _ => rfl) ⟨rfl, rfl, rfl⟩⟩
        rw [hstate, Table.find?_put_of_ne _ _ hne, hgame]
    | setbet betId status => exact setbet_potStep hgame hexec
    | rmbet betId =>
        obtain ⟨hok, rfl⟩ := silent_eq_ok_iff.mp hexec
        obtain ⟨_, -, -, hstate⟩ := rmbet_eq_ok hok
        have hne : betId ≠ id := fun hid => hkeep (by rw [hid])
        refine ⟨game, ?_, .idle (fun _ => rfl) ⟨rfl, rfl, rfl⟩⟩
        rw [hstate, Table.find?_erase_of_ne _ hne, hgame]
    | claimbet betId => exact claimbet_potStep hgame hexec
    | notify firstReceiver source dest quantity memo =>
        have hidle : v.state.bettings = u.state.bettings →
            ¬ (Incoming env source dest ∧ Operation memo "bet") →
            ∃ game', v.state.bettings.find? id = some game' ∧
              PotStep env id (u, ⟨ctx, .notify firstReceiver source dest quantity memo, sent⟩)
                game game' := by
          intro hsame hnot
          exact ⟨game, by rw [hsame, hgame], .idle (noBets_of_not_bet hnot) unpaid_of_notify⟩
        rcases transferEvent_eq_ok hexec with ⟨hsame, -, hnot⟩ | ⟨hin, hcase⟩
        · refine hidle (by rw [hsame]) fun hbet => hnot ⟨hbet.1, Or.inr (Or.inl hbet.2)⟩
        · rcases hcase with ⟨_, _, hop, -, hok⟩ | ⟨betId, position, hop, htarget, -, hok⟩ |
            ⟨hop, -, hok⟩ | ⟨_, _, hop, -, hok⟩
          · refine hidle (stake_keeps hok).2 ?_
            rintro ⟨-, hbet⟩
            exact absurd (hop.unique hbet) (by decide)
          · exact bet_potStep hgame hin hop htarget hok
          · refine hidle (addSignedExtBalance_onlyDex hok).1.2.2 ?_
            rintro ⟨-, hbet⟩
            exact absurd (hop.unique hbet) (by decide)
          · obtain ⟨_, _, _, -, hswap, -⟩ := memoexchange_eq_ok hok
            refine hidle hswap.onlyDex.1.2.2 ?_
            rintro ⟨-, hbet⟩
            exact absurd (hop.unique hbet) (by decide)
    | _ => exact hon.elim
  · have hquiet : NoBets env id (u, e) ∧ Unpaid id (u, e) := unpaid_of_not_onGames hon
    refine ⟨game, ?_, .idle hquiet.1 hquiet.2⟩
    rw [bettings_of_not_onGames h hon, hgame]

end Steps

section Pots

variable {env : Env} {u v w : World} {e : Event} {id : Nat} {p : World × Event}
  {game game' : Betting}

/-- One if the game is closed for good, else zero. -/
def Betting.settled (game : Betting) : ℕ :=
  if game.status = .finished ∨ game.status = .noGame then 1 else 0

/-- What is still to be paid for the game. -/
def Betting.owed (game : Betting) : ℤ :=
  if game.status = .finished ∨ game.status = .noGame then 0
  else betted (game.betters .short) + betted (game.betters .long)

theorem Betting.settled_eq_zero
    (h : game.status ≠ .finished ∧ game.status ≠ .noGame) : game.settled = 0 :=
  if_neg (not_or.mpr h)

theorem Betting.owed_eq
    (h : game.status ≠ .finished ∧ game.status ≠ .noGame) (side : Position) :
    game.owed = betted (game.betters side) + betted (game.betters side.opposite) := by
  rw [owed, if_neg (not_or.mpr h)]
  cases side with
  | short => rfl
  | long => exact add_comm _ _

theorem Status.Quiet.open
    {status next : Status} (h : status.Quiet next) :
    (status ≠ .finished ∧ status ≠ .noGame) ∧ (next ≠ .finished ∧ next ≠ .noGame) := by
  cases h <;> decide

theorem betted_pos
    {bets : List (Name × Asset)} (hne : bets ≠ [])
    (h : ∀ b ∈ bets, 0 < b.2.amount.toInt) : 0 < betted bets := by
  cases bets with
  | nil => exact absurd rfl hne
  | cons b bets =>
      have hb := h b List.mem_cons_self
      have hrest : 0 ≤ betted bets := by
        refine List.sum_nonneg ?_
        intro x hx
        obtain ⟨b', hb', rfl⟩ := List.mem_map.mp hx
        exact (h b' (List.mem_cons_of_mem b hb')).le
      rw [betted_cons]
      omega

theorem betted_nonneg
    {bets : List (Name × Asset)} (h : ∀ b ∈ bets, 0 < b.2.amount.toInt) : 0 ≤ betted bets := by
  by_cases hne : bets = []
  · rw [hne, betted_nil]
  · exact (betted_pos hne h).le

/-- With an empty side, all bets are refunded. -/
theorem refunds_eq
    (id : Nat) (h : game.longBetters = [] ∨ game.shortBetters = []) :
    ∃ memo, refunds id game = (game.shortBetters ++ game.longBetters).map
      fun b => .transfer ledTokenContract b.1 b.2 memo := by
  refine ⟨"refund ".toList ++ (toString id).toList ++ "game, game not started".toList, ?_⟩
  unfold refunds
  rcases h with h | h
  · by_cases hshort : game.shortBetters = []
    · simp [h, hshort]
    · simp [h, hshort]
  · by_cases hlong : game.longBetters = []
    · simp [h, hlong]
    · simp [h, hlong]

theorem paid_refunds
    (bets : List (Name × Asset)) (memo : Text) :
    ((bets.map fun b => Inline.transfer ledTokenContract b.1 b.2 memo).map Inline.paid).sum =
      betted bets := by
  rw [List.map_map]
  rfl

theorem PotStep.betters
    (h : PotStep env id p game game') (side : Position) :
    game'.betters side = game.betters side ++ betsOn env id side p := by
  cases h with
  | idle bets => rw [bets, List.append_nil]
  | quiet _ bets => rw [bets, List.append_nil, Betting.moved_betters]
  | @bet side' owner quantity _ _ placed bets =>
      obtain ⟨-, hbetters, -, hothers, -⟩ := placeBet_eq_ok placed
      rw [bets]
      rcases side'.eq_or_eq_opposite side with rfl | rfl
      · rw [if_pos rfl, hbetters]
      · have hne : side' ≠ side'.opposite := by cases side' <;> decide
        rw [if_neg hne, hothers, List.append_nil]
  | refund _ _ bets => rw [bets, List.append_nil, Betting.moved_betters]
  | claim _ bets => rw [bets, List.append_nil, Betting.moved_betters]

/-- A payout closes the game, and a closed game is not paid out. -/
theorem PotStep.settled
    (h : PotStep env id p game game') :
    game'.settled = game.settled + if payout id p then 1 else 0 := by
  cases h with
  | idle _ unpaid => simp [payout, unpaid.1, unpaid.2.1]
  | quiet move _ unpaid =>
      obtain ⟨hbefore, hafter⟩ := move.open
      rw [Betting.settled_eq_zero hbefore]
      simp [Betting.settled, Betting.moved, hafter.1, hafter.2, payout, unpaid.1, unpaid.2.1]
  | bet live placed _ unpaid =>
      obtain ⟨-, -, -, -, hstatus⟩ := placeBet_eq_ok placed
      simp [Betting.settled, hstatus, live, payout, unpaid.1, unpaid.2.1]
  | refund live _ _ refunding =>
      simp [Betting.settled, Betting.moved, live, payout, refunding]
  | claim status _ _ claiming =>
      simp [Betting.settled, Betting.moved, status, payout, claiming]

/-- What is paid for a game is taken from what it owes. -/
theorem PotStep.owed
    (h : PotStep env id p game game') (ok : GameOk game)
    (hpos : ∀ side, ∀ b ∈ game.betters side, 0 < b.2.amount.toInt) :
    game'.owed + paidFor id p ≤
      game.owed + (betted (betsOn env id .short p) + betted (betsOn env id .long p)) := by
  have hbets : NoBets env id p →
      betted (betsOn env id .short p) + betted (betsOn env id .long p) = 0 := by
    intro hnone
    rw [hnone, hnone, betted_nil, add_zero]
  cases h with
  | idle bets unpaid => rw [hbets bets, unpaid.2.2]
  | @quiet next basePrice finalPrice move bets unpaid =>
      obtain ⟨hbefore, hafter⟩ := move.open
      have hmoved : (game.moved next basePrice finalPrice).owed =
          betted (game.betters .short) + betted (game.betters .long) := by
        rw [Betting.owed_eq hafter .short, Betting.moved_betters, Betting.moved_betters]
        rfl
      rw [hbets bets, unpaid.2.2, Betting.owed_eq hbefore .short, hmoved]
      simp only [Position.opposite, add_zero, le_refl]
  | bet live placed bets unpaid =>
      have hstep := PotStep.bet live placed bets unpaid
      obtain ⟨-, -, -, -, hstatus⟩ := placeBet_eq_ok placed
      have hbefore : game.status ≠ .finished ∧ game.status ≠ .noGame := by
        rw [live]
        decide
      have hafter : game'.status ≠ .finished ∧ game'.status ≠ .noGame := by
        rw [hstatus, live]
        decide
      rw [unpaid.2.2, Betting.owed_eq hbefore .short, Betting.owed_eq hafter .short,
        hstep.betters, hstep.betters, betted_append, betted_append]
      simp only [Position.opposite]
      omega
  | refund live side bets _ _ sent paid =>
      have hbefore : game.status ≠ .finished ∧ game.status ≠ .noGame := by
        rw [live]
        decide
      obtain ⟨memo, hrefunds⟩ := refunds_eq id side
      rw [hbets bets, paid, sent, hrefunds, paid_refunds, Betting.owed_eq hbefore .short,
        betted_append]
      simp [Betting.owed, Betting.moved, Betting.betters, Position.opposite]
  | claim status bets _ _ sent paid =>
      have hbefore : game.status ≠ .finished ∧ game.status ≠ .noGame := by
        rw [status]
        decide
      have hne := ok.contested (by rw [status]; trivial) game.winPosition
      have hwinners := betted_pos hne (hpos game.winPosition)
      have hlosers := betted_nonneg (hpos game.winPosition.opposite)
      rw [← ok.total] at hwinners hlosers
      obtain ⟨-, hshare⟩ := winnings_eq_ok (hpos game.winPosition) hlosers hwinners.le sent
      have hpart := hshare.part_le_pot hwinners hlosers (ok.total game.winPosition).ge
      rw [hbets bets, paid, Betting.owed_eq hbefore game.winPosition, ← ok.total, ← ok.total]
      rw [← ok.total] at hpart
      simp only [Betting.owed, Betting.moved, true_or, if_true]
      omega

end Pots

section Runs

variable {env : Env} {u v w : World} {e : Event} {id : Nat} {h : History}

/-- The bets of a history on a side of a game. -/
def bets (env : Env) (id : Nat) (side : Position) (h : History) : List (Name × Asset) :=
  h.flatMap (betsOn env id side)

/-- The game is there and has only positive bets. -/
structure OpenPot (id : Nat) (w : World) : Prop where
  games : GamesOk w.state
  game : ∃ game, w.state.bettings.find? id = some game ∧
    ∀ side, ∀ b ∈ game.betters side, 0 < b.2.amount.toInt

/-- The event does not remove the game and places only positive bets on it. -/
structure KeepsPot (env : Env) (id : Nat) (p : World × Event) : Prop where
  kept : p.2.action ≠ .rmbet id
  positive : ∀ side, ∀ b ∈ betsOn env id side p, 0 < b.2.amount.toInt

theorem OpenPot.step
    (hpot : OpenPot id u) (hstep : Step env u e v) (hkeep : KeepsPot env id (u, e)) :
    OpenPot id v := by
  obtain ⟨game, hgame, hpos⟩ := hpot.game
  obtain ⟨game', hgame', hmove⟩ := hstep.potStep hgame hkeep.kept
  refine ⟨hpot.games.exec hstep.2.1, game', hgame', ?_⟩
  intro side b hb
  rw [hmove.betters, List.mem_append] at hb
  rcases hb with hb | hb
  · exact hpos side b hb
  · exact hkeep.positive side b hb

theorem OpenPot.run
    (hpot : OpenPot id v) (run : Run (Step env) v h w) (hkeep : ∀ p ∈ h, KeepsPot env id p) :
    OpenPot id w :=
  run.invariant_of_forall (KeepsPot env id) (OpenPot id)
    (fun _ _ _ hC hI hstep => hI.step hstep hC) hkeep hpot

/-- The ledger of a game consists of the bets of its history. -/
theorem betters_of_run
    (hpot : OpenPot id v) (run : Run (Step env) v h w) (hkeep : ∀ p ∈ h, KeepsPot env id p)
    {game game' : Betting} (hgame : v.state.bettings.find? id = some game)
    (hgame' : w.state.bettings.find? id = some game') (side : Position) :
    game'.betters side = game.betters side ++ bets env id side h := by
  have hlog := run.log_eq (KeepsPot env id) (OpenPot id)
    (fun w => (w.state.bettings.find? id).elim [] fun game => game.betters side)
    (betsOn env id side) (fun _ _ _ hC hI hstep => hI.step hstep hC) ?_ hkeep hpot
  · simpa [hgame, hgame', bets] using hlog
  · intro s e t hC hI hstep
    obtain ⟨game, hgame, -⟩ := hI.game
    obtain ⟨game', hgame', hmove⟩ := hstep.potStep hgame hC.kept
    simpa [hgame, hgame'] using hmove.betters side

/-- The game as an event of its history finds it, and what the event does to it. -/
theorem OpenPot.cut
    {pre post : History} {p : World × Event} {game : Betting} (hopen : OpenPot id v)
    (run : Run (Step env) v (pre ++ p :: post) w)
    (hkeep : ∀ q ∈ pre ++ p :: post, KeepsPot env id q)
    (hgame : v.state.bettings.find? id = some game) (hempty : ∀ side, game.betters side = []) :
    ∃ g g', GameOk g ∧ p.1.state.bettings.find? id = some g ∧
      (∀ side, g.betters side = bets env id side pre) ∧
      (∀ side, ∀ b ∈ g.betters side, 0 < b.2.amount.toInt) ∧ PotStep env id p g g' := by
  obtain ⟨t, e'⟩ := p
  obtain ⟨hpre, t', hstep, -⟩ := run.cut
  have hkeep' : ∀ q ∈ pre, KeepsPot env id q := fun q hq => hkeep q (List.mem_append_left _ hq)
  have hpot := hopen.run hpre hkeep'
  obtain ⟨g, hg, hpos⟩ := hpot.game
  obtain ⟨g', -, hmove⟩ := hstep.potStep hg (hkeep (t, e') (by simp)).kept
  refine ⟨g, g', hpot.games _ g hg, hg, ?_, hpos, hmove⟩
  intro side
  rw [betters_of_run hopen hpre hkeep' hgame hg side, hempty, List.nil_append]

theorem settled_of_run
    (hpot : OpenPot id v) (run : Run (Step env) v h w) (hkeep : ∀ p ∈ h, KeepsPot env id p)
    {game game' : Betting} (hgame : v.state.bettings.find? id = some game)
    (hgame' : w.state.bettings.find? id = some game') :
    game'.settled = game.settled + h.countP (payout id) := by
  have hcount := run.count_eq (KeepsPot env id) (OpenPot id)
    (fun w => (w.state.bettings.find? id).elim 0 Betting.settled) (payout id)
    (fun _ _ _ hC hI hstep => hI.step hstep hC) ?_ hkeep hpot
  · simpa [hgame, hgame'] using hcount
  · intro s e t hC hI hstep
    obtain ⟨game, hgame, -⟩ := hI.game
    obtain ⟨game', hgame', hmove⟩ := hstep.potStep hgame hC.kept
    simpa [hgame, hgame'] using hmove.settled

theorem sum_gains (env : Env) (id : Nat) (h : History) :
    (h.map fun p => betted (betsOn env id .short p) + betted (betsOn env id .long p) -
      paidFor id p).sum =
    betted (bets env id .short h) + betted (bets env id .long h) - (h.map (paidFor id)).sum := by
  induction h with
  | nil => rfl
  | cons p h ih =>
      simp only [bets, List.map_cons, List.sum_cons, List.flatMap_cons, betted_append] at *
      omega

theorem owed_of_run
    (hpot : OpenPot id v) (run : Run (Step env) v h w) (hkeep : ∀ p ∈ h, KeepsPot env id p)
    {game game' : Betting} (hgame : v.state.bettings.find? id = some game)
    (hgame' : w.state.bettings.find? id = some game') :
    game'.owed + (h.map (paidFor id)).sum ≤
      game.owed + (betted (bets env id .short h) + betted (bets env id .long h)) := by
  have hsum := run.balance_le (KeepsPot env id) (OpenPot id)
    (fun w => (w.state.bettings.find? id).elim 0 Betting.owed)
    (fun p => betted (betsOn env id .short p) + betted (betsOn env id .long p) - paidFor id p)
    (fun _ _ _ hC hI hstep => hI.step hstep hC) ?_ hkeep hpot
  · rw [sum_gains] at hsum
    simp only [hgame, hgame', Option.elim_some] at hsum
    omega
  · intro s e t hC hI hstep
    obtain ⟨game, hgame, hpos⟩ := hI.game
    obtain ⟨game', hgame', hmove⟩ := hstep.potStep hgame hC.kept
    have howed := hmove.owed (hI.games _ game hgame) hpos
    simp only [hgame, hgame', Option.elim_some]
    omega

/-- A new game has no bets and has not started. -/
theorem new_of_step
    {game : Betting} (hstep : Step env u e v) (habsent : u.state.bettings.find? id = none)
    (hgame : v.state.bettings.find? id = some game) :
    (∀ side, game.betters side = []) ∧ game.status = .notStarted := by
  have hsame : v.state.bettings = u.state.bettings → False := by
    intro h
    rw [h, habsent] at hgame
    cases hgame
  have hput : ∀ betId row row', u.state.bettings.find? betId = some row →
      v.state.bettings = u.state.bettings.put betId row' → False := by
    intro betId row row' hrow h
    rw [h, Table.find?_put] at hgame
    split_ifs at hgame with hid
    · rw [hid, habsent] at hrow
      cases hrow
    · rw [habsent] at hgame
      cases hgame
  cases exec_area hstep.2.1 with
  | stakes _ _ games => exact (hsame games).elim
  | dex _ stakes => exact (hsame stakes.2.2).elim
  | idle stakes => exact (hsame stakes.2.2).elim
  | games move =>
      obtain ⟨ctx, a, sent⟩ := e
      obtain ⟨s', time⟩ := v
      dsimp only at *
      cases move with
      | createbet h =>
          obtain ⟨betId, game₀, -, hbetters, -, -, hstatus, rfl⟩ := createbet_eq_ok h
          simp only [Table.find?_put] at hgame
          split_ifs at hgame
          · obtain rfl := Option.some.inj hgame
            exact ⟨hbetters, hstatus⟩
          · rw [habsent] at hgame
            cases hgame
      | setbet h =>
          obtain ⟨row, hrow, ⟨rfl, -⟩ | ⟨_, _, _, -, -, -, -, rfl, -⟩ | ⟨_, -, -, -, rfl, -⟩⟩ :=
            setbet_eq_ok h
          · exact (hsame rfl).elim
          · exact (hput _ row _ hrow rfl).elim
          · exact (hput _ row _ hrow rfl).elim
      | rmbet h =>
          obtain ⟨_, -, -, rfl⟩ := rmbet_eq_ok h
          simp only [Table.find?_erase] at hgame
          split_ifs at hgame
          rw [habsent] at hgame
          cases hgame
      | claimbet h =>
          obtain ⟨row, hrow, -, -, rfl⟩ := claimbet_eq_ok h
          exact (hput _ row _ hrow rfl).elim
      | bet _ _ _ h =>
          obtain ⟨row, _, _, -, hrow, -, -, -, -, rfl⟩ := bet_eq_ok h
          exact (hput _ row _ hrow rfl).elim

/-- All payments for a game over its life. -/
structure PotSettled (env : Env) (id : Nat) (h : History) : Prop where
  /-- There is at most one payout. -/
  once : h.countP (payout id) ≤ 1
  /-- Nothing else pays for the game. -/
  only : ∀ p ∈ h, payout id p = false → paidFor id p = 0
  /-- A refund returns every bet placed so far. -/
  refund : ∀ pre p post, h = pre ++ p :: post → refunding id p = true →
    ∃ memo, p.2.sent = (bets env id .short pre ++ bets env id .long pre).map
      fun b => .transfer ledTokenContract b.1 b.2 memo
  /-- Every winner is paid once and at least its stake, and no loser is paid. -/
  winners : ∀ pre p post, h = pre ++ p :: post → claiming id p = true →
    ∃ game, p.1.state.bettings.find? id = some game ∧
      List.Forall₂ PaysWinner (bets env id game.winPosition pre) p.2.sent ∧
      ((bets env id game.winPosition pre).map Prod.fst).Nodup ∧
      ∀ b ∈ bets env id game.winPosition.opposite pre, ∀ contract quantity memo,
        Inline.transfer contract b.1 quantity memo ∉ p.2.sent
  /-- No more is paid than was betted. -/
  budget : (h.map (paidFor id)).sum ≤
    betted (bets env id .short h) + betted (bets env id .long h)

theorem notMem_of_paysWinner
    {winners : List (Name × Asset)} {sent : List Inline} {owner : Name}
    (hpays : List.Forall₂ PaysWinner winners sent) (hnot : ∀ b ∈ winners, b.1 ≠ owner)
    (contract : Name) (quantity : Asset) (memo : Text) :
    Inline.transfer contract owner quantity memo ∉ sent := by
  induction hpays with
  | nil => exact List.not_mem_nil
  | @cons b i _ _ hpay _ ih =>
      obtain ⟨price, memo', rfl, -, -⟩ := hpay
      rw [List.mem_cons, not_or]
      refine ⟨?_, ih fun b' hb' => hnot b' (List.mem_cons_of_mem b hb')⟩
      rw [Inline.transfer.injEq]
      rintro ⟨-, hb, -, -⟩
      exact hnot b List.mem_cons_self hb.symm

/-- No account has bets on both sides. -/
theorem GameOk.owner_ne_of_opposite
    {game : Betting} (ok : GameOk game) {side : Position} {b b' : Name × Asset}
    (hb : b ∈ game.betters side) (hb' : b' ∈ game.betters side.opposite) : b.1 ≠ b'.1 := by
  intro hsame
  have hown : game.betterExists side b'.1 := ⟨b, hb, hsame⟩
  have hother : game.betterExists side.opposite b'.1 := ⟨b', hb', rfl⟩
  cases side with
  | short => exact ok.disjoint b'.1 hown hother
  | long => exact ok.disjoint b'.1 hother hown

theorem PotStep.paidFor_eq_zero
    {p : World × Event} {g g' : Betting} (h : PotStep env id p g g')
    (hunpaid : payout id p = false) : paidFor id p = 0 := by
  cases h with
  | idle _ unpaid => exact unpaid.2.2
  | quiet _ _ unpaid => exact unpaid.2.2
  | bet _ _ _ unpaid => exact unpaid.2.2
  | refund _ _ _ refunding => simp [payout, refunding] at hunpaid
  | claim _ _ _ claiming => simp [payout, claiming] at hunpaid

theorem PotStep.sent_of_refunding
    {p : World × Event} {g g' : Betting} (h : PotStep env id p g g')
    (hrefunding : refunding id p = true) :
    ∃ memo, p.2.sent = (g.shortBetters ++ g.longBetters).map
      fun b => .transfer ledTokenContract b.1 b.2 memo := by
  cases h with
  | idle _ unpaid => simp [unpaid.1] at hrefunding
  | quiet _ _ unpaid => simp [unpaid.1] at hrefunding
  | bet _ _ _ unpaid => simp [unpaid.1] at hrefunding
  | claim _ _ refunding => simp [refunding] at hrefunding
  | refund _ side _ _ _ sent =>
      rw [sent]
      exact refunds_eq id side

theorem PotStep.sent_of_claiming
    {p : World × Event} {g g' : Betting} (h : PotStep env id p g g')
    (hclaiming : claiming id p = true) :
    winnings id (g.amount g.winPosition.opposite).amount (g.amount g.winPosition).amount
      (g.betters g.winPosition) = .ok p.2.sent := by
  cases h with
  | idle _ unpaid => simp [unpaid.2.1] at hclaiming
  | quiet _ _ unpaid => simp [unpaid.2.1] at hclaiming
  | bet _ _ _ unpaid => simp [unpaid.2.1] at hclaiming
  | refund _ _ _ _ claiming => simp [claiming] at hclaiming
  | claim _ _ _ _ sent => exact sent

/-- From its creation on, until it is removed, a game is paid out at most once, and
correctly. -/
theorem betting_pot_settled_once
    (hu : Reaches env u) (hcreate : Step env u e v)
    (habsent : u.state.bettings.find? id = none) (hpresent : v.state.bettings.find? id ≠ none)
    (run : Run (Step env) v h w) (hkept : ∀ p ∈ h, p.2.action ≠ .rmbet id)
    (hpositive : ∀ p ∈ h, ∀ side, ∀ b ∈ betsOn env id side p, 0 < b.2.amount.toInt) :
    PotSettled env id h := by
  obtain ⟨game, hgame⟩ := Option.ne_none_iff_exists'.mp hpresent
  obtain ⟨hempty, hstatus⟩ := new_of_step hcreate habsent hgame
  have hkeep : ∀ p ∈ h, KeepsPot env id p := fun p hp => ⟨hkept p hp, hpositive p hp⟩
  have hopen : OpenPot id v := by
    refine ⟨(gamesOk_of_reaches hu).exec hcreate.2.1, game, hgame, ?_⟩
    intro side b hb
    rw [hempty] at hb
    cases hb
  have hcut : ∀ pre p post, h = pre ++ p :: post → ∃ g g', GameOk g ∧
      p.1.state.bettings.find? id = some g ∧
      (∀ side, g.betters side = bets env id side pre) ∧
      (∀ side, ∀ b ∈ g.betters side, 0 < b.2.amount.toInt) ∧ PotStep env id p g g' := by
    rintro pre p post rfl
    exact hopen.cut run hkeep hgame hempty
  obtain ⟨game', hgame', hpos'⟩ := (hopen.run run hkeep).game
  refine ⟨?_, ?_, ?_, ?_, ?_⟩
  · have hcount := settled_of_run hopen run hkeep hgame hgame'
    have hle : game'.settled ≤ 1 := by
      unfold Betting.settled
      split_ifs <;> omega
    omega
  · intro p hp hunpaid
    obtain ⟨pre, post, hsplit⟩ := List.append_of_mem hp
    obtain ⟨g, g', -, -, -, -, hmove⟩ := hcut pre p post hsplit
    exact hmove.paidFor_eq_zero hunpaid
  · intro pre p post hsplit hrefunding
    obtain ⟨g, g', -, -, hbets, -, hmove⟩ := hcut pre p post hsplit
    rw [← hbets .short, ← hbets .long]
    exact hmove.sent_of_refunding hrefunding
  · intro pre p post hsplit hclaiming
    obtain ⟨g, g', ok, hg, hbets, hpos, hmove⟩ := hcut pre p post hsplit
    have htotal : ∀ side, 0 ≤ (g.amount side).amount.toInt := by
      intro side
      rw [ok.total]
      exact betted_nonneg (hpos side)
    obtain ⟨hpays, -⟩ := winnings_eq_ok (hpos g.winPosition) (htotal _) (htotal _)
      (hmove.sent_of_claiming hclaiming)
    refine ⟨g, hg, by rwa [← hbets], by rw [← hbets]; exact ok.nodup _, ?_⟩
    intro b hb contract quantity memo
    rw [← hbets] at hb
    refine notMem_of_paysWinner hpays ?_ contract quantity memo
    intro b' hb'
    exact ok.owner_ne_of_opposite hb' hb
  · have howed := owed_of_run hopen run hkeep hgame hgame'
    have hzero : game.owed = 0 := by
      rw [Betting.owed, hempty, hempty]
      simp
    have hnonneg : 0 ≤ game'.owed := by
      have hshort := betted_nonneg (hpos' .short)
      have hlong := betted_nonneg (hpos' .long)
      unfold Betting.owed
      split_ifs <;> omega
    omega

/-- A game that alice wins against bob, from its creation to the payment. -/
theorem betting_pot_settled_once_sample :
    ∃ v w h, Run (Step sampleEnv) v h w ∧ PotSettled sampleEnv 0 h ∧
      h.countP (payout 0) = 1 ∧ (h.map (paidFor 0)).sum = 385 := by
  let opening : List (Ctx × Action) :=
    [(sampleCtx 1000 "lemonade.c", .init), (sampleCtx 1000 "lemonade.c", .setbtcprice 100)]
  let creation : Ctx × Action := (sampleCtx 1500 "lemonade.c", .createbet 2000 3000 4000)
  let game : List (Ctx × Action) :=
    [(sampleCtx 2000 "lemonade.c", .setbet 0 1),
      (sampleCtx 2100 "alice", sampleTransfer "alice" 100 "bet/0/short"),
      (sampleCtx 2200 "bob", sampleTransfer "bob" 301 "bet/0/long"),
      (sampleCtx 3000 "lemonade.c", .setbet 0 2),
      (sampleCtx 3500 "lemonade.c", .setbtcprice 50),
      (sampleCtx 4000 "lemonade.c", .setbet 0 3),
      (sampleCtx 4500 "lemonade.c", .claimbet 0)]
  let positive : World × Event → Bool := fun p =>
    (betsOn sampleEnv 0 .short p ++ betsOn sampleEnv 0 .long p).all fun b =>
      decide (0 < b.2.amount.toInt)
  obtain ⟨h₀, u, hplay₀, hobs⟩ := exists_of_play
    (show (play (stepWith sampleEnv) sampleWorld opening).map (fun r =>
        ((r.2.state.bettings.find? 0).isNone,
          (stepWith sampleEnv r.2 creation).bind fun x =>
            (play (stepWith sampleEnv) x.2 game).map fun y =>
              ((x.2.state.bettings.find? 0).isNone, y.1.all positive,
                y.1.countP (payout 0), (y.1.map (paidFor 0)).sum))) =
      some (true, some (false, true, 1, 385)) by decide +kernel)
  obtain ⟨habsent, hobs⟩ := Prod.mk.inj hobs
  obtain ⟨⟨e, v⟩, hcreate, hobs⟩ := Option.bind_eq_some_iff.mp hobs
  obtain ⟨h, w, hplay, hobs⟩ := exists_of_play hobs
  simp only [Prod.mk.injEq] at hobs
  obtain ⟨hpresent, hpositive, hcount, hsum⟩ := hobs
  have hrun := run_of_play (step_of_stepWith sampleEnv) _ hplay
  refine ⟨v, w, h, hrun, ?_, hcount, hsum⟩
  refine betting_pot_settled_once (reaches_of_play sampleWorld_genesis hplay₀)
    (step_of_stepWith _ _ _ _ _ hcreate) (Option.isNone_iff_eq_none.mp habsent) ?_ hrun ?_ ?_
  · intro hnone
    rw [hnone] at hpresent
    cases hpresent
  · intro p hp hrm
    have hmem := input_mem_of_play hplay hp
    rw [hrm] at hmem
    simp [game, sampleTransfer] at hmem
  · intro p hp side b hb
    have hp' := List.all_eq_true.mp (List.all_eq_true.mp hpositive p hp) b
    refine of_decide_eq_true (hp' ?_)
    cases side with
    | short => exact List.mem_append_left _ hb
    | long => exact List.mem_append_right _ hb

end Runs

end Lemonade
