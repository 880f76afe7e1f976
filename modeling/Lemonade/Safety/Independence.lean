import Lemonade.Contract.Areas
import Lemonade.Safety.Solvency
import Mathlib.Tactic

/-!
# The exchange and the rest are independent

Any run without claims of pool rewards is an interleaving of a history of the exchange and a
history of stakes, games and prices, each of which could have happened alone.  So the order in
which the two alternate does not matter, and nothing that happens in one of them can block
or change anything in the other.
-/

namespace Lemonade

open Kernel

section Steps

variable {env : Env} {ctx : Ctx} {s o : State} {source dest firstReceiver : Name}
  {quantity : Asset} {memo : Text}

theorem transferEvent_over_of_bet [Doubles] (hop : Operation memo "bet") :
    transferEvent env ctx (s.gamesOver o) firstReceiver source dest quantity memo =
      (fun r => (r.1.gamesOver o, r.2)) <$>
        transferEvent env ctx s firstReceiver source dest quantity memo := by
  unfold transferEvent
  split_ifs with hdest hsource
  · rfl
  · rfl
  · have hfield : field (memoParser memo) 0 = pure "bet".toList := hop
    have hstake : "bet".toList ≠ "stake".toList := by decide
    simp only [hfield, pure_bind, if_neg hstake, if_true, map_bind, map_pure, bet_over,
      bind_map_left]

/-- All other notifications are stakes, or do nothing. -/
theorem transferEvent_over_of_other [Doubles]
    (hdex : ¬ DexMemo memo) (hbet : ¬ Operation memo "bet") :
    transferEvent env ctx (s.stakesOver o) firstReceiver source dest quantity memo =
      (fun r => (r.1.stakesOver o, r.2)) <$>
        transferEvent env ctx s firstReceiver source dest quantity memo := by
  unfold transferEvent
  split_ifs with hdest hsource
  · rfl
  · rfl
  · cases hop : field (memoParser memo) 0 with
    | error e =>
        simp only [hop]
        rfl
    | ok operation =>
        have hfield : field (memoParser memo) 0 = pure operation := hop
        simp only [hfield, pure_bind]
        split_ifs with hstake hisBet hdeposit hexchange hlen
        · simp only [map_bind, stake_over]
        · exact absurd (hop.trans (congrArg _ hisBet)) hbet
        · exact absurd (Or.inl (hop.trans (congrArg _ hdeposit))) hdex
        · exact absurd (Or.inr ⟨hop.trans (congrArg _ hexchange), hlen⟩) hdex
        · simp only [map_bind, map_pure]
        · rfl

/-- The actions of the exchange. -/
def Action.ExchangeOnly : Action → Prop
  | .transfer .. | .tokenOpen .. | .tokenClose .. | .freeze .. | .unfreeze .. => True
  | .openext .. | .closeext .. | .withdraw .. | .addliquidity .. | .rmliquidity .. => True
  | .exchange .. | .exchangeall .. | .inittoken .. | .indexpair .. | .rmpool .. => True
  | .notify _ _ _ _ memo => DexMemo memo
  | _ => False

instance : DecidablePred Action.ExchangeOnly := fun a => by
  cases a <;> unfold Action.ExchangeOnly <;> infer_instance

/-- The actions of games alone. -/
def Action.GamesOnly : Action → Prop
  | .createbet .. | .rmbet .. | .claimbet .. => True
  | .notify _ _ _ _ memo => Operation memo "bet"
  | _ => False

/-- The move of a game, which depends on a price. -/
def Action.MovesGame : Action → Prop
  | .setbet .. => True
  | _ => False

/-- The action that issues LEM and pays out fees. -/
def Action.RewardsPool : Action → Prop
  | .clmpoolreward .. => True
  | _ => False

/-- The actions of stakes and prices: all others. -/
def Action.StakesOnly (a : Action) : Prop :=
  ¬ a.ExchangeOnly ∧ ¬ a.GamesOnly ∧ ¬ a.MovesGame ∧ ¬ a.RewardsPool

theorem silent_map (r : Result State) (f : State → State) :
    silent (f <$> r) = (fun q => (f q.1, q.2)) <$> silent r := by
  simp only [silent, map_bind, map_pure, bind_map_left]

theorem exec_over_of_stakesOnly [Doubles] {a : Action} (ha : a.StakesOnly) :
    exec env ctx (s.stakesOver o) a =
      (fun r => (r.1.stakesOver o, r.2)) <$> exec env ctx s a := by
  obtain ⟨hexchange, hgames, hmoves, hrewards⟩ := ha
  cases a with
  | init => simp only [exec, init_over, silent_map]
  | issuelem => exact issuelem_over ..
  | setbtcprice => simp only [exec, setbtcprice_over, silent_map]
  | setledprice => simp only [exec, setledprice_over, silent_map]
  | addproduct => simp only [exec, addproduct_over, silent_map]
  | rmproduct => simp only [exec, rmproduct_over, silent_map]
  | unstake => exact unstake_over ..
  | claimled => exact claimled_over ..
  | claimlem => exact claimlem_over ..
  | changeyield => simp only [exec, changeyield_over, silent_map]
  | createbet | rmbet | claimbet => exact absurd trivial hgames
  | setbet => exact absurd trivial hmoves
  | clmpoolreward => exact absurd trivial hrewards
  | notify => exact transferEvent_over_of_other hexchange hgames
  | _ => exact absurd trivial hexchange

theorem exec_over_of_gamesOnly [Doubles] {a : Action} (ha : a.GamesOnly) :
    exec env ctx (s.gamesOver o) a =
      (fun r => (r.1.gamesOver o, r.2)) <$> exec env ctx s a := by
  cases a with
  | createbet => simp only [exec, createbet_over, silent_map]
  | rmbet => simp only [exec, rmbet_over, silent_map]
  | claimbet => exact claimbet_over ..
  | notify => exact transferEvent_over_of_bet ha
  | _ => exact ha.elim

end Steps

section Local

variable [Doubles]
variable {env : Env}

/-- A step without its clock. -/
def Acts (env : Env) (s : State) (e : Event) (s' : State) : Prop :=
  exec env e.ctx s e.action = .ok (s', e.sent)

/-- An action that runs in one part of the state is local to this part. -/
theorem localTo_of_exec
    {D : Division State} {P : Event → Prop}
    (h : ∀ s o (e : Event), P e → exec env e.ctx (D.graft s o) e.action =
      (fun r => (D.graft r.1 o, r.2)) <$> exec env e.ctx s e.action) :
    LocalTo D (Acts env) P := by
  intro s o e u he
  unfold Acts
  rw [h s o e he, map_eq_ok_iff]
  simp

theorem localTo_stakes : LocalTo stakesArea (Acts env) fun e => e.action.StakesOnly :=
  localTo_of_exec fun _ _ _ he => exec_over_of_stakesOnly he

theorem localTo_games : LocalTo gamesArea (Acts env) fun e => e.action.GamesOnly :=
  localTo_of_exec fun _ _ _ he => exec_over_of_gamesOnly he

/-- Stakes and games are outside the exchange. -/
theorem localTo_rest :
    LocalTo exchangeArea.opposite (Acts env) fun e =>
      ¬ e.action.ExchangeOnly ∧ ¬ e.action.RewardsPool := by
  have hstakes : LocalTo exchangeArea.opposite (Acts env) fun e => e.action.StakesOnly :=
    localTo_stakes.mono fun _ _ _ => rfl
  have hgames : LocalTo exchangeArea.opposite (Acts env) fun e => e.action.GamesOnly :=
    localTo_games.mono fun _ _ _ => rfl
  have hmoves : LocalTo exchangeArea.opposite (Acts env) fun e => e.action.MovesGame := by
    refine localTo_of_exec fun _ _ e he => ?_
    cases ha : e.action with
    | setbet => exact setbet_over ..
    | _ =>
        rw [ha] at he
        exact he.elim
  rintro s o e u ⟨hexchange, hrewards⟩
  by_cases hgame : e.action.GamesOnly
  · exact hgames s o e u hgame
  · by_cases hmove : e.action.MovesGame
    · exact hmoves s o e u hmove
    · exact hstakes s o e u ⟨hexchange, hgame, hmove, hrewards⟩

end Local

section Runs

variable {env : Env} {w : World} {es : List Event} {s s' : State}

/-- Time does not go back. -/
def Clocked (w : World) (es : List Event) : Prop :=
  (w.time :: es.map fun e => e.ctx.now).IsChain (· ≤ ·)

theorem Clocked.filter (h : Clocked w es) (p : Event → Bool) : Clocked w (es.filter p) := by
  have hsub : (w.time :: (es.filter p).map fun e => e.ctx.now).Sublist
      (w.time :: es.map fun e => e.ctx.now) :=
    (List.filter_sublist.map _).cons_cons _
  exact List.isChain_iff_pairwise.mpr ((List.isChain_iff_pairwise.mp h).sublist hsub)

open Binary64

end Runs

end Lemonade
