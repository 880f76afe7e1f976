import Lemonade.Safety.BettingPot
import Mathlib.Logic.Relation
import Mathlib.Tactic

/-!
# The life of a game

The status of a game moves along a line that ends with the payment or with the refund.
What a step may change depends on the status (`Betting.StepsTo`), and as long as all bets
are positive the ledger of the game and its dividends agree (`Betting.Booked`).
-/

namespace Lemonade

open Kernel

section Moves

/-- The moves of the status of a game. -/
inductive Status.Next : Status → Status → Prop
  | start : Next notStarted isLive
  | close : Next isLive bettingFinish
  | void : Next isLive noGame
  | score : Next bettingFinish notClaimed
  | claim : Next notClaimed finished

/-- The final price is set. -/
def Status.Scored : Status → Prop
  | notClaimed | finished | noGame => True
  | notStarted | isLive | bettingFinish => False

/-- The betting is over. -/
def Status.Closed : Status → Prop
  | bettingFinish | notClaimed | finished | noGame => True
  | notStarted | isLive => False

variable {status status' : Status}

theorem Status.Quiet.next (h : status.Quiet status') : status.Next status' := by
  cases h with
  | start => exact .start
  | close => exact .close
  | score => exact .score

theorem Status.Next.ne_notStarted (h : status.Next status') : status' ≠ .notStarted := by
  cases h <;> decide

theorem Status.Next.scored (h : status.Next status') (hs : status.Scored) : status'.Scored := by
  cases h with
  | start => exact hs.elim
  | close => exact hs.elim
  | void => exact hs.elim
  | score => exact hs.elim
  | claim => trivial

theorem Status.Next.closed (h : status.Next status') (hs : status.Closed) : status'.Closed := by
  cases h with
  | start => exact hs.elim
  | close => exact hs.elim
  | void => exact hs.elim
  | score => trivial
  | claim => trivial

theorem Status.Closed.ne_isLive (h : status.Closed) : status ≠ .isLive := by
  rintro rfl
  exact h

/-- What a step may do to a game. -/
structure Betting.StepsTo (game game' : Betting) : Prop where
  status : game'.status = game.status ∨ game.status.Next game'.status
  betters : game.status ≠ .isLive → ∀ side, game'.betters side = game.betters side
  amount : game.status ≠ .isLive → ∀ side, game'.amount side = game.amount side
  basePrice : game.status ≠ .notStarted → game'.basePrice = game.basePrice
  finalPrice : game.status.Scored → game'.finalPrice = game.finalPrice

theorem Betting.StepsTo.refl (game : Betting) : game.StepsTo game :=
  ⟨Or.inl rfl, fun _ _ => rfl, fun _ _ => rfl, fun _ => rfl, fun _ => rfl⟩

theorem Betting.stepsTo_moved
    {game : Betting} {next : Status} {basePrice finalPrice : ℚ}
    (hnext : game.status.Next next)
    (hprices : game.Priced next basePrice finalPrice ∨
      next = .noGame ∧ basePrice = game.basePrice) :
    game.StepsTo (game.moved next basePrice finalPrice) where
  status := Or.inr hnext
  betters := fun _ side => game.moved_betters next basePrice finalPrice side
  amount := fun _ side => game.moved_amount next basePrice finalPrice side
  basePrice := by
    intro hstarted
    rcases hprices with hprices | ⟨-, hbase⟩
    · refine hprices.base ?_
      rintro rfl
      generalize game.status = status at hnext hstarted
      cases hnext
      exact hstarted rfl
    · exact hbase
  finalPrice := by
    intro hscored
    generalize game.status = status at hnext hscored
    cases hnext with
    | start => exact hscored.elim
    | close => exact hscored.elim
    | void => exact hscored.elim
    | score => exact hscored.elim
    | claim =>
        rcases hprices with hprices | ⟨hnone, -⟩
        · exact hprices.final (by decide)
        · cases hnone

/-- What a run may do to a game. -/
structure Betting.RunsTo (game game' : Betting) : Prop where
  status : Relation.ReflTransGen Status.Next game.status game'.status
  betters : game.status.Closed → ∀ side, game'.betters side = game.betters side
  amount : game.status.Closed → ∀ side, game'.amount side = game.amount side
  basePrice : game.status ≠ .notStarted → game'.basePrice = game.basePrice
  finalPrice : game.status.Scored → game'.finalPrice = game.finalPrice

theorem Betting.RunsTo.refl (game : Betting) : game.RunsTo game :=
  ⟨.refl, fun _ _ => rfl, fun _ _ => rfl, fun _ => rfl, fun _ => rfl⟩

/-- A property of a status that every move keeps is kept by a run. -/
theorem Betting.RunsTo.keeps
    {game game' : Betting} (h : game.RunsTo game') {P : Status → Prop}
    (hkeep : ∀ a b, Status.Next a b → P a → P b) (hP : P game.status) : P game'.status := by
  have hpath := h.status
  generalize game'.status = last at hpath ⊢
  induction hpath with
  | refl => exact hP
  | tail _ hnext ih => exact hkeep _ _ hnext ih

theorem Betting.RunsTo.step
    {game g g' : Betting} (h : game.RunsTo g) (hstep : g.StepsTo g') : game.RunsTo g' := by
  refine ⟨?_, ?_, ?_, ?_, ?_⟩
  · rcases hstep.status with hsame | hnext
    · rw [hsame]
      exact h.status
    · exact h.status.tail hnext
  · intro hclosed side
    have hover := h.keeps (fun _ _ hn hc => hn.closed hc) hclosed
    exact (hstep.betters hover.ne_isLive side).trans (h.betters hclosed side)
  · intro hclosed side
    have hover := h.keeps (fun _ _ hn hc => hn.closed hc) hclosed
    exact (hstep.amount hover.ne_isLive side).trans (h.amount hclosed side)
  · intro hstarted
    have hlater : g.status ≠ .notStarted :=
      h.keeps (P := fun status => status ≠ .notStarted) (fun _ _ hn _ => hn.ne_notStarted) hstarted
    exact (hstep.basePrice hlater).trans (h.basePrice hstarted)
  · intro hscored
    have hlater := h.keeps (fun _ _ hn hs => hn.scored hs) hscored
    exact (hstep.finalPrice hlater).trans (h.finalPrice hscored)

end Moves

section Steps

variable {env : Env} {ctx : Ctx} {s s' : State} {a : Action} {sent : List Inline}

/-- What a step does to the games. -/
structure GamesStep (s s' : State) (a : Action) : Prop where
  /-- a new game has not started -/
  opened : ∀ id game', s.bettings.find? id = none → s'.bettings.find? id = some game' →
    game'.status = .notStarted ∧ ∀ side, game'.betters side = []
  /-- a game is removed when it is finished, or moves on -/
  moved : ∀ id game, s.bettings.find? id = some game →
    a = .rmbet id ∧ game.status = .finished ∧ s'.bettings.find? id = none ∨
      ∃ game', s'.bettings.find? id = some game' ∧ game.StepsTo game'

theorem gamesStep_of_same (h : s'.bettings = s.bettings) : GamesStep s s' a where
  opened := by
    intro id game' hnone hsome
    rw [h, hnone] at hsome
    cases hsome
  moved := by
    intro id game hgame
    refine Or.inr ⟨game, ?_, .refl game⟩
    rw [h, hgame]

theorem gamesStep_of_put
    {betId : ℕ} {game game' : Betting} (hgame : s.bettings.find? betId = some game)
    (hstep : game.StepsTo game') (h : s'.bettings = s.bettings.put betId game') :
    GamesStep s s' a where
  opened := by
    intro id g hnone hsome
    rw [h, Table.find?_put] at hsome
    split_ifs at hsome with hid
    · rw [hid, hnone] at hgame
      cases hgame
    · rw [hnone] at hsome
      cases hsome
  moved := by
    intro id g hg
    rw [h, Table.find?_put]
    split_ifs with hid
    · rw [hid, hg] at hgame
      obtain rfl := Option.some.inj hgame
      exact Or.inr ⟨game', rfl, hstep⟩
    · exact Or.inr ⟨g, hg, .refl g⟩

theorem gamesStep_of_move [Doubles] (h : GameMove env ctx s a s' sent) : GamesStep s s' a := by
  cases h with
  | createbet h =>
      obtain ⟨betId, game, hfresh, hbetters, -, -, hstatus, rfl⟩ := createbet_eq_ok h
      constructor
      · intro id g hnone hsome
        rw [Table.find?_put] at hsome
        split_ifs at hsome
        · obtain rfl := Option.some.inj hsome
          exact ⟨hstatus, hbetters⟩
        · rw [hnone] at hsome
          cases hsome
      · intro id g hg
        have hne : betId ≠ id := by
          rintro rfl
          cases hfresh.symm.trans hg
        exact Or.inr ⟨g, (Table.find?_put_of_ne _ _ hne).trans hg, .refl g⟩
  | setbet h =>
      obtain ⟨game, hgame, ⟨rfl, -⟩ | ⟨next, _, _, hquiet, -, -, hprices, rfl, -⟩ |
        ⟨_, hlive, -, -, rfl, -⟩⟩ := setbet_eq_ok h
      · exact gamesStep_of_same rfl
      · exact gamesStep_of_put hgame (Betting.stepsTo_moved hquiet.next (Or.inl hprices)) rfl
      · refine gamesStep_of_put hgame (Betting.stepsTo_moved ?_ (Or.inr ⟨rfl, rfl⟩)) rfl
        rw [hlive]
        exact .void
  | @rmbet betId _ h =>
      obtain ⟨game, hgame, hstatus, rfl⟩ := rmbet_eq_ok h
      constructor
      · intro id g hnone hsome
        rw [Table.find?_erase] at hsome
        split_ifs at hsome
        rw [hnone] at hsome
        cases hsome
      · intro id g hg
        by_cases hid : betId = id
        · subst hid
          obtain rfl := Option.some.inj (hg.symm.trans hgame)
          exact Or.inl ⟨rfl, hstatus, Table.find?_erase_self _ _⟩
        · exact Or.inr ⟨g, (Table.find?_erase_of_ne _ hid).trans hg, .refl g⟩
  | claimbet h =>
      obtain ⟨game, hgame, hstatus, -, rfl⟩ := claimbet_eq_ok h
      refine gamesStep_of_put hgame (Betting.stepsTo_moved ?_ (Or.inl ⟨fun _ => rfl, fun _ => rfl⟩))
        rfl
      rw [hstatus]
      exact .claim
  | bet _ _ _ h =>
      obtain ⟨game, side, game', -, hgame, -, -, hlive, hplace, rfl⟩ := bet_eq_ok h
      obtain ⟨-, -, -, -, hstatus⟩ := placeBet_eq_ok hplace
      obtain ⟨hbase, hfinal, -⟩ := placeBet_dividends hplace
      refine gamesStep_of_put hgame ⟨Or.inl hstatus, ?_, ?_, fun _ => hbase, fun _ => hfinal⟩ rfl
      · exact fun hne => absurd hlive hne
      · exact fun hne => absurd hlive hne

theorem gamesStep_of_exec [Doubles] (h : exec env ctx s a = .ok (s', sent)) : GamesStep s s' a := by
  cases exec_area h with
  | stakes _ _ games => exact gamesStep_of_same games
  | games move => exact gamesStep_of_move move
  | dex _ stakes => exact gamesStep_of_same stakes.2.2
  | idle stakes => exact gamesStep_of_same stakes.2.2

/-- Until a game is removed, a run moves it on. -/
theorem runsTo_of_run [Doubles]
    {w w' : World} {h : History} {id : ℕ} {game : Betting}
    (hgame : w.state.bettings.find? id = some game) (hrun : Run (Step env) w h w')
    (hkeep : ∀ q ∈ h, q.2.action ≠ .rmbet id) :
    ∃ game', w'.state.bettings.find? id = some game' ∧ game.RunsTo game' := by
  refine hrun.invariant_of_forall (fun q => q.2.action ≠ .rmbet id)
    (fun w' => ∃ game', w'.state.bettings.find? id = some game' ∧ game.RunsTo game') ?_ hkeep
    ⟨game, hgame, .refl game⟩
  rintro t e t' hne ⟨g, hg, hpath⟩ ⟨-, hexec, -⟩
  rcases (gamesStep_of_exec hexec).moved id g hg with ⟨hrm, -⟩ | ⟨g', hg', hstep⟩
  · exact absurd hrm hne
  · exact ⟨g', hg', hpath.step hstep⟩

end Steps

section Quotes

variable {env : Env} {s s' : State} {e : Event} {w w' : World}

/-- The dividend of a side, as the code computes it from the bets. -/
def dividendOf [Doubles] (short long side : ℤ) : ℚ :=
  rnd (rnd (rnd ((short + long : ℤ) : ℚ) / rnd side) * rnd bettingRatio)

/-- The bets are positive and the dividends are computed from them. -/
structure Betting.Valued [Doubles] (game : Betting) : Prop where
  positive : ∀ side, ∀ b ∈ game.betters side, 0 < b.2.amount.toInt
  dividend : ∀ side, game.dividendOn side = if game.betters side = [] then 0 else
    dividendOf (betted (game.betters .short)) (betted (game.betters .long))
      (betted (game.betters side))

/-- The bets are positive and the dividends are those of the bets. -/
structure Betting.Quoted (game : Betting) : Prop where
  positive : ∀ side, ∀ b ∈ game.betters side, 0 < b.2.amount.toInt
  dividend : ∀ side, game.dividendOn side = if game.betters side = [] then 0 else
    bettingRatio * ((betted (game.betters .short) + betted (game.betters .long) : ℤ) : ℚ) /
      betted (game.betters side)

/-- The ledger of a game: nobody is in it twice, its totals are those of its bets, and its
dividends those of its totals. -/
structure Betting.Booked (game : Betting) : Prop where
  once : ((game.betters .long ++ game.betters .short).map Prod.fst).Nodup
  total : ∀ side, (game.amount side).amount.toInt = betted (game.betters side)
  quoted : game.Quoted

theorem GameOk.booked {game : Betting} (ok : GameOk game) (hquoted : game.Quoted) :
    game.Booked where
  once := by
    rw [List.map_append]
    refine List.Nodup.append (ok.nodup .long) (ok.nodup .short) ?_
    intro owner hlong hshort
    obtain ⟨b, hb, hb'⟩ := List.mem_map.mp hlong
    obtain ⟨c, hc, hc'⟩ := List.mem_map.mp hshort
    exact ok.disjoint owner ⟨c, hc, hc'⟩ ⟨b, hb, hb'⟩
  total := ok.total
  quoted := hquoted

theorem Betting.Valued.moved [Doubles]
    {game : Betting} (h : game.Valued) (next : Status) (basePrice finalPrice : ℚ) :
    (game.moved next basePrice finalPrice).Valued where
  positive := by
    intro side
    rw [moved_betters]
    exact h.positive side
  dividend := by
    intro side
    simp only [moved_betters, moved_dividendOn]
    exact h.dividend side

/-- The total of a side with positive bets is zero exactly if there are none. -/
theorem GameOk.amount_ne_zero_iff
    {game : Betting} (ok : GameOk game) {side : Position}
    (hpos : ∀ b ∈ game.betters side, 0 < b.2.amount.toInt) :
    (game.amount side).amount ≠ 0 ↔ game.betters side ≠ [] := by
  have htotal := ok.total side
  constructor
  · rintro hne hempty
    rw [hempty, betted_nil] at htotal
    exact hne (Int64.toInt_inj.mp htotal)
  · intro hne hzero
    have hsum := betted_pos hne hpos
    rw [hzero, Int64.toInt_zero] at htotal
    omega

/-- The dividend is one of the bets. -/
theorem GameOk.dividend_eq [Doubles]
    {game : Betting} (ok : GameOk game) (side : Position) :
    dividend (game.amount .short).amount (game.amount .long).amount (game.amount side).amount =
      dividendOf (betted (game.betters .short)) (betted (game.betters .long))
        (betted (game.betters side)) := by
  unfold dividend dividendOf
  rw [toInt_add_of_inRange_both (ok.inRange .short) (ok.inRange .long), ok.total, ok.total,
    ok.total]

theorem Betting.Valued.placeBet [Doubles]
    {game game' : Betting} {owner : Name} {quantity : Asset} {side : Position}
    (h : game.Valued) (ok' : GameOk game') (hpos : 0 < quantity.amount.toInt)
    (hplace : Lemonade.placeBet game owner quantity side = .ok game') : game'.Valued := by
  obtain ⟨-, hbetters, -, hbetters', -⟩ := placeBet_eq_ok hplace
  obtain ⟨-, -, hdividend⟩ := placeBet_dividends hplace
  have hpositive : ∀ side', ∀ b ∈ game'.betters side', 0 < b.2.amount.toInt := by
    intro side' b hb
    rcases side.eq_or_eq_opposite side' with rfl | rfl
    · rw [hbetters, List.mem_append, List.mem_singleton] at hb
      rcases hb with hb | rfl
      · exact h.positive _ b hb
      · exact hpos
    · rw [hbetters'] at hb
      exact h.positive _ b hb
  refine ⟨hpositive, ?_⟩
  intro side'
  have hne := ok'.amount_ne_zero_iff (hpositive side')
  rw [hdividend, ok'.dividend_eq]
  by_cases hempty : game'.betters side' = []
  · have hside : side' ≠ side := by
      rintro rfl
      rw [hbetters] at hempty
      exact absurd hempty (by simp)
    have hzero : ¬ (game'.amount side').amount ≠ 0 := fun hne' => hne.mp hne' hempty
    rw [if_neg (not_or.mpr ⟨hside, hzero⟩), if_pos hempty]
  · rw [if_pos (Or.inr (hne.mpr hempty)), if_neg hempty]

/-- Every bet that an event places is positive. -/
def PositiveBets (env : Env) (q : World × Event) : Prop :=
  ∀ id side, ∀ b ∈ betsOn env id side q, 0 < b.2.amount.toInt

/-- All games have a property. -/
def GamesAll (I : Betting → Prop) (s : State) : Prop :=
  ∀ id game, s.bettings.find? id = some game → I game

theorem GamesAll.put
    {I : Betting → Prop} (inv : GamesAll I s) {id : ℕ} {game : Betting} (hgame : I game)
    (h : s'.bettings = s.bettings.put id game) : GamesAll I s' := by
  intro k g hg
  rw [h, Table.find?_put] at hg
  split_ifs at hg
  · obtain rfl := Option.some.inj hg
    exact hgame
  · exact inv k g hg

/-- A property of games that a new game has, that no status changes and that stays with the
bets that are placed. -/
structure GameInvariant [Doubles] (env : Env) (C : World × Event → Prop) (I : Betting → Prop) :
    Prop where
  new : ∀ game : Betting, (∀ side, game.betters side = []) → (∀ side, game.dividendOn side = 0) →
    I game
  moved : ∀ game next basePrice finalPrice, I game → I (game.moved next basePrice finalPrice)
  bet : ∀ q id side owner quantity game game', C q → (owner, quantity) ∈ betsOn env id side q →
    GameOk game' → placeBet game owner quantity side = .ok game' → I game → I game'

theorem GamesAll.step [Doubles]
    {C : World × Event → Prop} {I : Betting → Prop} (rule : GameInvariant env C I)
    (inv : GamesAll I w.state) (ok : GamesOk w.state) (hC : C (w, e))
    (hstep : Step env w e w') : GamesAll I w'.state := by
  obtain ⟨-, hexec, -⟩ := hstep
  have ok' := ok.exec hexec
  have hsame : w'.state.bettings = w.state.bettings → GamesAll I w'.state := by
    intro hgames k g hg
    rw [hgames] at hg
    exact inv k g hg
  obtain ⟨ctx, a, sent⟩ := e
  cases exec_area hexec with
  | stakes _ _ games => exact hsame games
  | dex _ stakes => exact hsame stakes.2.2
  | idle stakes => exact hsame stakes.2.2
  | games move =>
      dsimp only at move hexec
      cases move with
      | createbet h =>
          obtain ⟨id, game, -, hbetters, -, hzero, -, hstate⟩ := createbet_eq_ok h
          exact inv.put (rule.new game hbetters hzero) (congrArg State.bettings hstate)
      | setbet h =>
          obtain ⟨game, hgame, ⟨hstate, -⟩ | ⟨_, _, _, -, -, -, -, hstate, -⟩ |
            ⟨_, -, -, -, hstate, -⟩⟩ := setbet_eq_ok h
          · exact hsame (congrArg State.bettings hstate)
          · exact inv.put (rule.moved _ _ _ _ (inv _ game hgame)) (congrArg State.bettings hstate)
          · exact inv.put (rule.moved _ _ _ _ (inv _ game hgame)) (congrArg State.bettings hstate)
      | rmbet h =>
          obtain ⟨_, -, -, hstate⟩ := rmbet_eq_ok h
          intro k g hg
          rw [hstate, Table.find?_erase] at hg
          split_ifs at hg
          exact inv k g hg
      | claimbet h =>
          obtain ⟨game, hgame, -, -, hstate⟩ := claimbet_eq_ok h
          exact inv.put (rule.moved _ _ _ _ (inv _ game hgame)) (congrArg State.bettings hstate)
      | @bet firstReceiver source dest quantity memo betId position _ hin hop htarget h =>
          obtain ⟨game, side, game', -, hgame, hside, -, -, hplace, hstate⟩ := bet_eq_ok h
          have hbet : (source, quantity) ∈ betsOn env betId side
              (w, ⟨ctx, .notify firstReceiver source dest quantity memo, []⟩) := by
            rw [betsOn_of_bet hin hop htarget hside, if_pos ⟨rfl, rfl⟩]
            exact List.mem_singleton_self _
          have hok' : GameOk game' := by
            refine ok' betId game' ?_
            rw [hstate, Table.find?_put_self]
          exact inv.put (rule.bet _ _ _ _ _ _ _ hC hbet hok' hplace (inv _ game hgame))
            (congrArg State.bettings hstate)

theorem gamesAll_of_run [Doubles]
    {C : World × Event → Prop} {I : Betting → Prop} (rule : GameInvariant env C I) {w₀ : World}
    {h : History} (hw : w₀.Genesis) (hrun : Run (Step env) w₀ h w) (hC : ∀ q ∈ h, C q) :
    GamesAll I w.state := by
  have hboth := hrun.invariant_of_forall C (fun w => GamesOk w.state ∧ GamesAll I w.state) ?_ hC
    ⟨?_, ?_⟩
  · exact hboth.2
  · rintro t e t' hq ⟨ok, inv⟩ hs
    exact ⟨ok.exec hs.2.1, inv.step rule ok hq hs⟩
  · have hreaches : Reaches env w₀ := Reachable.of_init hw
    exact gamesOk_of_reaches hreaches
  · intro k g hg
    rw [hw] at hg
    cases hg

theorem gamesValued_of_run [Doubles]
    {w₀ : World} {h : History} (hw : w₀.Genesis) (hrun : Run (Step env) w₀ h w)
    (hpos : ∀ q ∈ h, PositiveBets env q) : GamesAll Betting.Valued w.state := by
  refine gamesAll_of_run ⟨?_, ?_, ?_⟩ hw hrun hpos
  · intro game hempty hzero
    refine ⟨?_, ?_⟩
    · intro side b hb
      rw [hempty] at hb
      cases hb
    · intro side
      rw [hzero, if_pos (hempty side)]
  · intro game next basePrice finalPrice h
    exact h.moved _ _ _
  · intro q id side owner quantity game game' hq hbet hok' hplace h
    exact h.placeBet hok' (hq _ _ _ hbet) hplace

section Exact

open Idealised

/-- Without rounding the dividend is 95 percent of all bets for each unit on the side. -/
theorem Betting.Valued.quoted {game : Betting} (h : game.Valued) : game.Quoted where
  positive := h.positive
  dividend := by
    intro side
    rw [h.dividend]
    simp only [dividendOf, rnd_eq]
    congr 1
    ring

/-- In a run with positive bets every game is booked; every step and every further run moves
the games on as their status allows. -/
theorem game_lifecycle
    {w₀ : World} {h : History} (hw : w₀.Genesis) (hrun : Run (Step env) w₀ h w)
    (hpos : ∀ q ∈ h, PositiveBets env q) :
    (∀ id game, w.state.bettings.find? id = some game → game.Booked) ∧
      (∀ e w', Step env w e w' → GamesStep w.state w'.state e.action) ∧
      ∀ h' w' id game, Run (Step env) w h' w' → w.state.bettings.find? id = some game →
        (∀ q ∈ h', q.2.action ≠ .rmbet id) →
        ∃ game', w'.state.bettings.find? id = some game' ∧ game.RunsTo game' := by
  refine ⟨?_, ?_, ?_⟩
  · intro id game hgame
    have ok := gamesOk_of_reaches ⟨w₀, h, hw, hrun⟩
    exact (ok id game hgame).booked (gamesValued_of_run hw hrun hpos id game hgame).quoted
  · rintro e w' ⟨-, hexec, -⟩
    exact gamesStep_of_exec hexec
  · intro h' w' id game hrun' hgame hkeep
    exact runsTo_of_run hgame hrun' hkeep

/-- A game on which alice and bob bet, and its settlement. -/
def sampleGame : List (Ctx × Action) :=
  [(sampleCtx 1000 "lemonade.c", .init),
    (sampleCtx 1000 "lemonade.c", .setbtcprice 100),
    (sampleCtx 1500 "lemonade.c", .createbet 2000 3000 4000),
    (sampleCtx 2000 "lemonade.c", .setbet 0 1),
    (sampleCtx 2100 "alice", sampleTransfer "alice" 100 "bet/0/short"),
    (sampleCtx 2200 "bob", sampleTransfer "bob" 300 "bet/0/long"),
    (sampleCtx 3000 "lemonade.c", .setbet 0 2),
    (sampleCtx 3500 "lemonade.c", .setbtcprice 50),
    (sampleCtx 4000 "lemonade.c", .setbet 0 3),
    (sampleCtx 4500 "lemonade.c", .claimbet 0)]

/-- An event that places a positive bet, or none. -/
def positiveBet (env : Env) (e : Event) : Bool :=
  (placedBet env e).all fun b => decide (0 < b.2.2.2.amount.toInt)

theorem positiveBets_of_positiveBet
    {q : World × Event} (h : positiveBet env q.2 = true) : PositiveBets env q := by
  intro id side b hb
  unfold betsOn at hb
  unfold positiveBet at h
  cases hplaced : placedBet env q.2 with
  | none =>
      rw [hplaced] at hb
      cases hb
  | some bet =>
      obtain ⟨betId, position, better⟩ := bet
      rw [hplaced] at hb h
      dsimp only at hb
      split_ifs at hb
      · obtain rfl := List.mem_singleton.mp hb
        simpa using h
      · cases hb

/-- At its end the long side of the sample game pays 95 percent of 400 for 300. -/
theorem game_lifecycle_sample :
    ∃ w game, Reaches sampleEnv w ∧ w.state.bettings.find? 0 = some game ∧
      game.status = .finished ∧ game.Booked ∧ game.dividendOn .long = 19 / 15 := by
  obtain ⟨h, w, hplay, hobs⟩ := exists_of_play
    (show (play (stepWith sampleEnv) sampleWorld sampleGame).map (fun r =>
        (r.1.all fun q => positiveBet sampleEnv q.2,
          (r.2.state.bettings.find? 0).map fun game => (game.status, game.dividendOn .long))) =
      some (true, some (.finished, 19 / 15)) by decide +kernel)
  obtain ⟨hpositive, hgame⟩ := Prod.mk.inj hobs
  obtain ⟨game, hgame, hvalues⟩ := Option.map_eq_some_iff.mp hgame
  obtain ⟨hstatus, hdividend⟩ := Prod.mk.inj hvalues
  have hrun := run_of_play (step_of_stepWith sampleEnv) _ hplay
  have hpos : ∀ q ∈ h, PositiveBets sampleEnv q := fun q hq =>
    positiveBets_of_positiveBet (List.all_eq_true.mp hpositive q hq)
  obtain ⟨hbooked, -, -⟩ := game_lifecycle sampleWorld_genesis hrun hpos
  exact ⟨w, game, reaches_of_play sampleWorld_genesis hplay, hgame, hstatus, hbooked 0 game hgame,
    hdividend⟩

end Exact

end Quotes

end Lemonade
