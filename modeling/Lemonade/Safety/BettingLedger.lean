import Lemonade.Contract.Frames
import Mathlib.Tactic

/-!
# The betting ledger

Each side of a game keeps its bets and their total.  `GameOk` says that the two
agree, that nobody has betted twice, and that a game which has passed its betting
phase with a winner to be found has bets on both sides.
-/

namespace Lemonade

open Kernel

section Invariant

/-- Sum of a list of bets. -/
def betted (bets : List (Name × Asset)) : ℤ := (bets.map fun b => b.2.amount.toInt).sum

@[simp] theorem betted_nil : betted [] = 0 := rfl

@[simp] theorem betted_append (l l' : List (Name × Asset)) :
    betted (l ++ l') = betted l + betted l' := by
  simp [betted]

@[simp] theorem betted_cons (b : Name × Asset) (l : List (Name × Asset)) :
    betted (b :: l) = b.2.amount.toInt + betted l := by
  simp [betted]

/-- Has the betting phase ended with bets on both sides? -/
def Status.Contested : Status → Prop
  | bettingFinish | notClaimed | finished => True
  | notStarted | isLive | noGame => False

structure GameOk (game : Betting) : Prop where
  inRange : ∀ side, AmountInRange (game.amount side).amount
  symbol : ∀ side, (game.amount side).symbol = ledSymbol
  total : ∀ side, (game.amount side).amount.toInt = betted (game.betters side)
  betSymbol : ∀ side, ∀ b ∈ game.betters side, b.2.symbol = ledSymbol
  nodup : ∀ side, ((game.betters side).map Prod.fst).Nodup
  disjoint : ∀ owner, game.betterExists .short owner → ¬ game.betterExists .long owner
  contested : game.status.Contested → ∀ side, game.betters side ≠ []

def GamesOk (s : State) : Prop :=
  ∀ id game, s.bettings.find? id = some game → GameOk game

end Invariant

section Steps

variable {s s' : State}

theorem gameOk_of_empty
    {game : Betting} (hbetters : ∀ side, game.betters side = [])
    (hamount : ∀ side, game.amount side = zeroLed) (hstatus : game.status = .notStarted) :
    GameOk game where
  inRange := by
    intro side
    rw [hamount]
    exact amountInRange_zero
  symbol := by
    intro side
    rw [hamount]
    rfl
  total := by
    intro side
    rw [hamount, hbetters]
    rfl
  betSymbol := by
    intro side b hb
    rw [hbetters] at hb
    cases hb
  nodup := by
    intro side
    rw [hbetters]
    exact List.nodup_nil
  disjoint := by
    intro owner hshort
    obtain ⟨b, hb, -⟩ := hshort
    rw [hbetters] at hb
    cases hb
  contested := by
    intro h
    rw [hstatus] at h
    exact h.elim

theorem GameOk.moved
    {game : Betting} {next : Status} {basePrice finalPrice : ℚ}
    (ok : GameOk game) (hnext : next.Contested → ∀ side, game.betters side ≠ []) :
    GameOk (game.moved next basePrice finalPrice) where
  inRange := by
    intro side
    rw [Betting.moved_amount]
    exact ok.inRange side
  symbol := by
    intro side
    rw [Betting.moved_amount]
    exact ok.symbol side
  total := by
    intro side
    rw [Betting.moved_amount, Betting.moved_betters]
    exact ok.total side
  betSymbol := by
    intro side
    rw [Betting.moved_betters]
    exact ok.betSymbol side
  nodup := by
    intro side
    rw [Betting.moved_betters]
    exact ok.nodup side
  disjoint := by
    intro owner
    simp only [Betting.betterExists, Betting.moved_betters]
    exact ok.disjoint owner
  contested := by
    intro h side
    rw [Betting.moved_betters]
    exact hnext h side

theorem Position.eq_or_eq_opposite (side side' : Position) :
    side' = side ∨ side' = side.opposite := by
  cases side <;> cases side' <;> simp [Position.opposite]

theorem GameOk.placeBet [Doubles]
    {game game' : Betting} {owner : Name} {quantity : Asset} {side : Position}
    (ok : GameOk game) (hlive : game.status = .isLive)
    (hnew : ∀ side, ¬ game.betterExists side owner)
    (h : placeBet game owner quantity side = .ok game') : GameOk game' := by
  obtain ⟨hadd, hbetters, hamount', hbetters', hstatus⟩ := placeBet_eq_ok h
  obtain ⟨hsymbol, hrange, hamount⟩ := Asset.add_eq_ok_iff.mp hadd
  have hsum := toInt_add_of_inRange (ok.inRange side) hrange
  have hexists : ∀ side' o, game'.betterExists side' o →
      game.betterExists side' o ∨ side' = side ∧ o = owner := by
    intro side' o ⟨b, hb, ho⟩
    rcases side.eq_or_eq_opposite side' with rfl | rfl
    · rw [hbetters, List.mem_append, List.mem_singleton] at hb
      rcases hb with hb | rfl
      · exact Or.inl ⟨b, hb, ho⟩
      · exact Or.inr ⟨rfl, ho.symm⟩
    · rw [hbetters'] at hb
      exact Or.inl ⟨b, hb, ho⟩
  refine ⟨?_, ?_, ?_, ?_, ?_, ?_, ?_⟩
  · intro side'
    rcases side.eq_or_eq_opposite side' with rfl | rfl
    · rw [hamount]
      exact hrange
    · rw [hamount']
      exact ok.inRange _
  · intro side'
    rcases side.eq_or_eq_opposite side' with rfl | rfl
    · rw [hamount]
      exact ok.symbol _
    · rw [hamount']
      exact ok.symbol _
  · intro side'
    rcases side.eq_or_eq_opposite side' with rfl | rfl
    · rw [hamount, hbetters, betted_append, ← ok.total]
      simpa using hsum
    · rw [hamount', hbetters']
      exact ok.total _
  · intro side' b hb
    rcases side.eq_or_eq_opposite side' with rfl | rfl
    · rw [hbetters, List.mem_append, List.mem_singleton] at hb
      rcases hb with hb | rfl
      · exact ok.betSymbol _ b hb
      · exact hsymbol.trans (ok.symbol _)
    · rw [hbetters'] at hb
      exact ok.betSymbol _ b hb
  · intro side'
    rcases side.eq_or_eq_opposite side' with rfl | rfl
    · rw [hbetters, List.map_append]
      refine List.Nodup.append (ok.nodup _) (List.nodup_singleton owner) ?_
      intro o ho ho'
      obtain rfl := List.mem_singleton.mp ho'
      obtain ⟨b, hb, hb'⟩ := List.mem_map.mp ho
      exact hnew _ ⟨b, hb, hb'⟩
    · rw [hbetters']
      exact ok.nodup _
  · intro o hshort hlong
    rcases hexists .short o hshort with hs | ⟨hside, ho⟩
    · rcases hexists .long o hlong with hl | ⟨-, ho⟩
      · exact ok.disjoint o hs hl
      · exact hnew .short (ho ▸ hs)
    · rcases hexists .long o hlong with hl | ⟨hside', -⟩
      · exact hnew .long (ho ▸ hl)
      · cases hside.trans hside'.symm
  · intro hcontested
    rw [hstatus, hlive] at hcontested
    exact hcontested.elim

theorem GamesOk.put
    (ok : GamesOk s) {id : Nat} {game : Betting} (hgame : GameOk game)
    (h : s'.bettings = s.bettings.put id game) : GamesOk s' := by
  intro k g hg
  rw [h, Table.find?_put] at hg
  split_ifs at hg
  · obtain rfl := Option.some.inj hg
    exact hgame
  · exact ok k g hg

variable {env : Env} {ctx : Ctx} {sent : List Inline}

theorem GamesOk.move [Doubles]
    (ok : GamesOk s) {a : Action} (h : GameMove env ctx s a s' sent) : GamesOk s' := by
  cases h with
  | createbet h =>
      obtain ⟨id, game, -, hbetters, hamount, -, hstatus, rfl⟩ := createbet_eq_ok h
      exact ok.put (gameOk_of_empty hbetters hamount hstatus) rfl
  | setbet h =>
      obtain ⟨game, hgame, ⟨rfl, -⟩ | ⟨next, _, _, hquiet, -, hclose, -, rfl, -⟩ |
        ⟨_, -, -, -, rfl, -⟩⟩ := setbet_eq_ok h
      · exact ok
      · have hok := ok _ game hgame
        refine ok.put (hok.moved ?_) rfl
        intro hcontested
        generalize hstatus : game.status = status at hquiet
        cases hquiet with
        | start => exact hcontested.elim
        | close => exact hclose rfl
        | score =>
            refine hok.contested ?_
            rw [hstatus]
            trivial
      · exact ok.put ((ok _ game hgame).moved False.elim) rfl
  | rmbet h =>
      obtain ⟨_, -, -, rfl⟩ := rmbet_eq_ok h
      intro k g hg
      simp only [Table.find?_erase] at hg
      split_ifs at hg
      exact ok k g hg
  | claimbet h =>
      obtain ⟨game, hgame, hstatus, -, rfl⟩ := claimbet_eq_ok h
      have hok := ok _ game hgame
      refine ok.put (hok.moved fun _ => hok.contested ?_) rfl
      rw [hstatus]
      trivial
  | bet _ _ _ h =>
      obtain ⟨game, side, game', -, hgame, -, hnew, hlive, hplace, rfl⟩ := bet_eq_ok h
      exact ok.put ((ok _ game hgame).placeBet hlive hnew hplace) rfl

theorem GamesOk.exec [Doubles]
    (ok : GamesOk s) {a : Action}
    (h : exec env ctx s a = .ok (s', sent)) : GamesOk s' := by
  have hsame : s'.bettings = s.bettings → GamesOk s' := by
    intro hgames k g hg
    rw [hgames] at hg
    exact ok k g hg
  cases exec_area h with
  | stakes _ _ games => exact hsame games
  | games move => exact ok.move move
  | dex _ stakes => exact hsame stakes.2.2
  | idle stakes => exact hsame stakes.2.2

theorem gamesOk_of_reaches [Doubles]
    {w : World}
    (h : Reaches env w) : GamesOk w.state := by
  refine h.invariant (fun w => GamesOk w.state) ?_ ?_
  · intro w hw k g hg
    rw [hw] at hg
    cases hg
  · rintro w e w' ok ⟨-, hexec, -⟩
    exact ok.exec hexec

end Steps

end Lemonade
