import Lemonade.Safety.GameLifecycle
import Mathlib.Tactic

/-!
# Stakes and bets belong to their owners

A staking row is written only for its owner, who has to sign, and by `changeyield`, which sets
nothing but the yield.  A game gets new bets only from those who sign for them, and its moves
keep the bets it has.
-/

namespace Lemonade

open Kernel

section Stakes

variable {env : Env} {ctx : Ctx} {s s' : State} {a : Action} {sent : List Inline} {user : Name}

/-- A staking row without its yield -/
def Staking.principal (row : Staking) : Staking := { row with currentYield := 0 }

/-- The user has the same staking rows, up to their yields. -/
def SameStakes (user : Name) (s s' : State) : Prop :=
  ∀ id, (s'.stakings.find? (user, id)).map Staking.principal =
    (s.stakings.find? (user, id)).map Staking.principal

theorem sameStakes_of_eq (h : s'.stakings = s.stakings) : SameStakes user s s' := by
  intro id
  rw [h]

/-- A row of somebody else is written. -/
theorem sameStakes_of_put
    {key : Name × ℕ} {row : Staking} (hkey : key.1 ≠ user)
    (h : s'.stakings = s.stakings.put key row) : SameStakes user s s' := by
  intro id
  rw [h, Table.find?_put_of_ne]
  rintro rfl
  exact hkey rfl

/-- Only the yield of a row is written. -/
theorem sameStakes_of_yield
    {key : Name × ℕ} {row row' : Staking} (hrow : s.stakings.find? key = some row)
    (hsame : row'.principal = row.principal) (h : s'.stakings = s.stakings.put key row') :
    SameStakes user s s' := by
  intro id
  rw [h]
  refine Table.map_find?_put _ _ ?_ _
  rw [hrow, Option.map_some, hsame]

/-- What is done to stakes by those who do not sign for the user. -/
theorem StakeMove.sameStakes [Doubles]
    (h : StakeMove env ctx s a s' sent) (hauth : user ∉ ctx.auths) : SameStakes user s s' := by
  have hother : ∀ {owner}, owner ∈ ctx.auths → owner ≠ user := by
    rintro owner howner rfl
    exact hauth howner
  cases h with
  | addproduct h =>
      obtain ⟨_, _, -, -, -, -, -, -, -, -, rfl⟩ := addproduct_eq_ok h
      exact sameStakes_of_eq rfl
  | rmproduct h =>
      obtain ⟨_, _, -, -, -, rfl⟩ := rmproduct_eq_ok h
      exact sameStakes_of_eq rfl
  | stake _ _ _ h =>
      obtain ⟨productId, product, config, config2, howner, -, -, -, -, -, hcase⟩ := stake_eq_ok h
      rcases hcase with ⟨-, -, hnew⟩ | ⟨key, row, hrow, hmore⟩
      · obtain ⟨_, _, _, _, -, -, -, -, rfl⟩ := stakeNew_eq_ok hnew
        exact sameStakes_of_put (hother howner) rfl
      · obtain ⟨_, _, _, _, _, _, _, -, -, -, -, -, -, -, -, rfl, -⟩ := stakeMore_eq_ok hmore
        obtain ⟨-, hkey, -⟩ := findStaking_eq_some hrow
        exact sameStakes_of_put (hkey ▸ hother howner) rfl
  | unstake h =>
      obtain ⟨_, _, _, _, key, _, _, _, _, _, _, _, _, howner, -, -, -, -, -, hrow, -, -, -, -, -,
        rfl, -⟩ := unstake_eq_ok h
      obtain ⟨-, hkey, -⟩ := findStaking_eq_some hrow
      intro id
      rw [Table.find?_erase_of_ne]
      rintro rfl
      exact hother howner hkey.symm
  | claimled h =>
      obtain ⟨_, _, key, row, _, howner, -, hrow, -, hcase⟩ := claimled_eq_ok h
      obtain ⟨-, hkey, -⟩ := findStaking_eq_some hrow
      rcases hcase with ⟨-, rfl, -⟩ | ⟨_, -, -, rfl, -⟩
      · exact sameStakes_of_eq rfl
      · exact sameStakes_of_put (hkey ▸ hother howner) rfl
  | claimlem h =>
      obtain ⟨_, _, _, _, _, key, row, _, howner, -, -, -, hrow, -, -, hcase⟩ := claimlem_eq_ok h
      obtain ⟨-, hkey, -⟩ := findStaking_eq_some hrow
      rcases hcase with ⟨-, rfl, -⟩ | ⟨_, -, -, rfl, -⟩
      · exact sameStakes_of_eq rfl
      · exact sameStakes_of_put (hkey ▸ hother howner) rfl
  | changeyield h =>
      obtain ⟨_, _, key, row, -, hrow, -, -, rfl⟩ := changeyield_eq_ok h
      obtain ⟨hfind, -, -⟩ := findStaking_eq_some hrow
      refine sameStakes_of_yield hfind ?_ rfl
      rfl

end Stakes

section Bets

variable {env : Env} {ctx : Ctx} {s s' : State} {a : Action} {sent : List Inline} {user : Name}
  {game game' game₁ : Betting}

/-- The bets of a user in a game -/
def Betting.betsOf (game : Betting) (user : Name) (side : Position) : List (Name × Asset) :=
  (game.betters side).filter fun better => better.1 = user

/-- A game that stays has the same bets of the user. -/
def SameBetsOf (user : Name) (id : ℕ) (s s' : State) : Prop :=
  ∀ game, s.bettings.find? id = some game → ∃ game', s'.bettings.find? id = some game' ∧
    game'.betsOf user = game.betsOf user

theorem sameBetsOf_of_eq {id : ℕ} (h : s'.bettings = s.bettings) : SameBetsOf user id s s' := by
  intro game hgame
  exact ⟨game, by rw [h, hgame], rfl⟩

theorem sameBetsOf_of_put
    {id betId : ℕ} (hgame : s.bettings.find? betId = some game)
    (hsame : game'.betsOf user = game.betsOf user)
    (h : s'.bettings = s.bettings.put betId game') : SameBetsOf user id s s' := by
  intro g hg
  rw [h, Table.find?_put]
  split_ifs with hid
  · rw [hid, hg] at hgame
    obtain rfl := Option.some.inj hgame
    exact ⟨game', rfl, hsame⟩
  · exact ⟨g, hg, rfl⟩

theorem Betting.betsOf_moved
    (game : Betting) (next : Status) (basePrice finalPrice : ℚ) :
    (game.moved next basePrice finalPrice).betsOf user = game.betsOf user := by
  funext side
  rw [betsOf, moved_betters, betsOf]

/-- A bet of somebody else -/
theorem betsOf_placeBet [Doubles]
    {owner : Name} {quantity : Asset} {side : Position} (howner : owner ≠ user)
    (h : placeBet game owner quantity side = .ok game') : game'.betsOf user = game.betsOf user := by
  obtain ⟨-, hbetters, -, hopposite, -⟩ := placeBet_eq_ok h
  funext side'
  rw [Betting.betsOf, Betting.betsOf]
  rcases side.eq_or_eq_opposite side' with rfl | rfl
  · rw [hbetters, List.filter_append]
    simp [howner]
  · rw [hopposite]

theorem GameMove.sameBetsOf [Doubles]
    {id : ℕ} (h : GameMove env ctx s a s' sent) (hauth : user ∉ ctx.auths) (ha : a ≠ .rmbet id) :
    SameBetsOf user id s s' := by
  cases h with
  | createbet h =>
      obtain ⟨betId, game, hfresh, -, -, -, -, rfl⟩ := createbet_eq_ok h
      intro g hg
      have hne : betId ≠ id := by
        rintro rfl
        cases hfresh.symm.trans hg
      exact ⟨g, (Table.find?_put_of_ne _ _ hne).trans hg, rfl⟩
  | setbet h =>
      obtain ⟨game, hgame, ⟨rfl, -⟩ | ⟨_, _, _, -, -, -, -, rfl, -⟩ | ⟨_, -, -, -, rfl, -⟩⟩ :=
        setbet_eq_ok h
      · exact sameBetsOf_of_eq rfl
      · exact sameBetsOf_of_put hgame (game.betsOf_moved ..) rfl
      · exact sameBetsOf_of_put hgame (game.betsOf_moved ..) rfl
  | @rmbet betId _ h =>
      obtain ⟨_, -, -, rfl⟩ := rmbet_eq_ok h
      intro g hg
      have hne : betId ≠ id := by
        rintro rfl
        exact ha rfl
      exact ⟨g, (Table.find?_erase_of_ne _ hne).trans hg, rfl⟩
  | claimbet h =>
      obtain ⟨game, hgame, -, -, rfl⟩ := claimbet_eq_ok h
      exact sameBetsOf_of_put hgame (game.betsOf_moved ..) rfl
  | bet _ _ _ h =>
      obtain ⟨game, side, game', howner, hgame, -, -, -, hplace, rfl⟩ := bet_eq_ok h
      refine sameBetsOf_of_put hgame (betsOf_placeBet ?_ hplace) rfl
      rintro rfl
      exact hauth howner

end Bets

section Runs

variable {env : Env} {w w' : World} {h : History} {user : Name}

theorem sameStakes_of_step [Doubles]
    {e : Event} (hstep : Step env w e w') (hauth : user ∉ e.ctx.auths) :
    SameStakes user w.state w'.state := by
  obtain ⟨-, hexec, -⟩ := hstep
  cases exec_area hexec with
  | stakes move => exact move.sameStakes hauth
  | games _ _ _ stakings => exact sameStakes_of_eq stakings
  | dex _ stakes => exact sameStakes_of_eq stakes.2.1
  | idle stakes => exact sameStakes_of_eq stakes.2.1

theorem sameBetsOf_of_step [Doubles]
    {e : Event} {id : ℕ} (hstep : Step env w e w') (hauth : user ∉ e.ctx.auths)
    (ha : e.action ≠ .rmbet id) : SameBetsOf user id w.state w'.state := by
  obtain ⟨-, hexec, -⟩ := hstep
  cases exec_area hexec with
  | stakes _ _ games => exact sameBetsOf_of_eq games
  | games move => exact move.sameBetsOf hauth ha
  | dex _ stakes => exact sameBetsOf_of_eq stakes.2.2
  | idle stakes => exact sameBetsOf_of_eq stakes.2.2

/-- Nobody else can touch the stakes and the bets of a user, not even the contract: in a run
in which the user signs nothing, its staking rows keep everything but their yields, and every
game that is not removed keeps its bets. -/
theorem stakes_and_bets_are_kept [Doubles]
    (run : Run (Step env) w h w') (hauth : ∀ p ∈ h, user ∉ p.2.ctx.auths) :
    (∀ id, (w'.state.stakings.find? (user, id)).map Staking.principal =
      (w.state.stakings.find? (user, id)).map Staking.principal) ∧
    ∀ id game, w.state.bettings.find? id = some game → (∀ p ∈ h, p.2.action ≠ .rmbet id) →
      ∃ game', w'.state.bettings.find? id = some game' ∧
        game'.betsOf user = game.betsOf user := by
  refine ⟨?_, ?_⟩
  · refine run.invariant_of_forall (fun p => user ∉ p.2.ctx.auths)
      (fun w' => SameStakes user w.state w'.state) ?_ hauth fun id => rfl
    intro u e v he hsame hstep id
    exact (sameStakes_of_step hstep he id).trans (hsame id)
  · intro id game hgame hkeep
    refine run.invariant_of_forall (fun p => user ∉ p.2.ctx.auths ∧ p.2.action ≠ .rmbet id)
      (fun w' => ∃ game', w'.state.bettings.find? id = some game' ∧
        game'.betsOf user = game.betsOf user) ?_ (fun p hp => ⟨hauth p hp, hkeep p hp⟩)
      ⟨game, hgame, rfl⟩
    rintro u e v ⟨he, ha⟩ ⟨g, hg, hsame⟩ hstep
    obtain ⟨g', hg', hsame'⟩ := sameBetsOf_of_step hstep he ha g hg
    exact ⟨g', hg', hsame'.trans hsame⟩

open Binary64

/-- The contract changes the yield of alice's stake and claims the game on which she has bet. -/
theorem stakes_and_bets_are_kept_sample :
    ∃ w w' h game', Run (Step sampleEnv) w h w' ∧ h.length = 6 ∧
      ((w.state.stakings.find? (nameLiteral "alice", 0)).map Staking.principal).isSome ∧
      (w'.state.stakings.find? (nameLiteral "alice", 0)).map Staking.principal =
        (w.state.stakings.find? (nameLiteral "alice", 0)).map Staking.principal ∧
      w'.state.bettings.find? 0 = some game' ∧ game'.status = .finished ∧
      (game'.betsOf (nameLiteral "alice") .short).length = 1 := by
  let before : List (Ctx × Action) := sampleOpening ++
    (sampleCtx 1000 "alice", sampleTransfer "alice" 10000 "stake/basic") ::
      (sampleGame.drop 1).take 4
  let after : List (Ctx × Action) := (sampleCtx 2150 "lemonade.c",
    .changeyield (nameLiteral "alice") (nameLiteral "basic") (3 / 2)) :: sampleGame.drop 5
  obtain ⟨⟨h₀, w⟩, hplay₀, hrest⟩ := Option.bind_eq_some_iff.mp
    (show ((play (stepWith sampleEnv) sampleWorld before).bind fun r =>
        (play (stepWith sampleEnv) r.2 after).map fun q =>
          ((r.2.state.stakings.find? (nameLiteral "alice", 0)).isSome,
            (r.2.state.bettings.find? 0).map fun game =>
              (game.betsOf (nameLiteral "alice") .short).length,
            q.1.length, (q.2.state.bettings.find? 0).map fun game => game.status)) =
      some (true, some 1, 6, some .finished) by decide +kernel)
  obtain ⟨h, w', hplay, hobs⟩ := exists_of_play hrest
  simp only [Prod.mk.injEq] at hobs
  obtain ⟨hstake, hbet, hlength, hstatus⟩ := hobs
  obtain ⟨game, hgame, hcount⟩ := Option.map_eq_some_iff.mp hbet
  have run := run_of_play (step_of_stepWith sampleEnv) _ hplay
  have hsigned : ∀ i ∈ after, nameLiteral "alice" ∉ i.1.auths := by decide +kernel
  have hkept : ∀ i ∈ after, i.2 ≠ .rmbet 0 := by
    simp [after, sampleGame, sampleTransfer]
  have hauth : ∀ p ∈ h, nameLiteral "alice" ∉ p.2.ctx.auths := fun p hp =>
    hsigned _ (input_mem_of_play hplay hp)
  obtain ⟨hstakes, hbets⟩ := stakes_and_bets_are_kept run hauth
  obtain ⟨game', hgame', hsame⟩ := hbets 0 game hgame fun p hp =>
    hkept _ (input_mem_of_play hplay hp)
  refine ⟨w, w', h, game', run, hlength, ?_, hstakes 0, hgame', ?_, ?_⟩
  · rw [Option.isSome_map]
    exact hstake
  · rw [hgame', Option.map_some] at hstatus
    exact Option.some.inj hstatus
  · rw [hsame]
    exact hcount

end Runs

end Lemonade
