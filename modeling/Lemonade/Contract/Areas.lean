import Lemonade.Contract.Actions
import Lemonade.Kernel.Locality
import Mathlib.Tactic

/-!
# Areas of tables

The tables of the exchange, those of stakes together with the prices and the fill of LEM, and
the games.  A function of one area does the same whatever the other tables hold, and leaves
them as they are: its lemma puts the area of a state over the other tables of another state.
Two actions are of two areas: `setbet` reads the price of bitcoin, and `clmpoolreward` issues LEM.
-/

namespace Lemonade

open Kernel

section Areas

/-- The exchange of one state, with all other tables of another. -/
def State.exchangeOver (s o : State) : State :=
  { o with
    accounts := s.accounts
    stats := s.stats
    userinfo := s.userinfo
    swaplists := s.swaplists
    poollists := s.poollists
    dexacnts := s.dexacnts
    lemindexes := s.lemindexes
    frozens := s.frozens
    poolrewards := s.poolrewards }

/-- The stakes and prices of one state, with all other tables of another. -/
def State.stakesOver (s o : State) : State :=
  { o with
    config := s.config
    config2 := s.config2
    products := s.products
    stakings := s.stakings }

/-- The games of one state, with all other tables of another. -/
def State.gamesOver (s o : State) : State := { o with bettings := s.bettings }

def exchangeArea : Division State where
  graft := State.exchangeOver
  graft_self _ := rfl
  graft_left _ _ _ := rfl
  graft_right _ _ _ := rfl

def stakesArea : Division State where
  graft := State.stakesOver
  graft_self _ := rfl
  graft_left _ _ _ := rfl
  graft_right _ _ _ := rfl

def gamesArea : Division State where
  graft := State.gamesOver
  graft_self _ := rfl
  graft_left _ _ _ := rfl
  graft_right _ _ _ := rfl

end Areas

section Exchange

variable (env : Env) (ctx : Ctx) (s o : State)

end Exchange

section Stakes

variable (env : Env) (ctx : Ctx) (s o : State)

theorem init_over :
    init env ctx (s.stakesOver o) = (fun t => t.stakesOver o) <$> init env ctx s := by
  simp only [init, map_bind, map_pure]
  rfl

theorem setbtcprice_over (price : ℚ) :
    setbtcprice env ctx (s.stakesOver o) price =
      (fun t => t.stakesOver o) <$> setbtcprice env ctx s price := by
  simp only [setbtcprice, map_bind, map_pure]
  rfl

theorem setledprice_over (price : ℚ) :
    setledprice env ctx (s.stakesOver o) price =
      (fun t => t.stakesOver o) <$> setledprice env ctx s price := by
  simp only [setledprice, map_bind, map_pure]
  rfl

theorem issueLem_over [Doubles] :
    issueLem env ctx (s.stakesOver o) =
      (fun r => (r.1.stakesOver o, r.2)) <$> issueLem env ctx s := by
  simp only [issueLem, map_bind, apply_ite (Functor.map (f := Result) _), map_pure]
  rfl

theorem issuelem_over [Doubles] :
    issuelem env ctx (s.stakesOver o) =
      (fun r => (r.1.stakesOver o, r.2)) <$> issuelem env ctx s := by
  simp only [issuelem, map_bind, issueLem_over]

theorem addproduct_over (productName : Name) (minimumYield maximumYield : ℚ)
    (hasLemRewards hasPrediction : Bool) (amountPerAccount : Asset)
    (maximumAmountLimit : Option Asset) (duration : Option UInt32) :
    addproduct env ctx (s.stakesOver o) productName minimumYield maximumYield hasLemRewards
        hasPrediction amountPerAccount maximumAmountLimit duration =
      (fun t => t.stakesOver o) <$> addproduct env ctx s productName minimumYield
        maximumYield hasLemRewards hasPrediction amountPerAccount maximumAmountLimit duration := by
  simp only [addproduct, map_bind, map_pure]
  rfl

theorem rmproduct_over (productName : Name) :
    rmproduct env ctx (s.stakesOver o) productName =
      (fun t => t.stakesOver o) <$> rmproduct env ctx s productName := by
  simp only [rmproduct, map_bind, map_pure]
  rfl

theorem stakeNew_over (owner : Name) (quantity : Asset) (pricePrediction : Option Name)
    (productId : Nat) (product : Product) (config2 : Config2) :
    stakeNew ctx (s.stakesOver o) owner quantity pricePrediction productId product config2 =
      (fun t => t.stakesOver o) <$> stakeNew ctx s owner quantity pricePrediction productId
        product config2 := by
  simp only [stakeNew, map_bind, map_pure]
  rfl

theorem stakeMore_over [Doubles] (owner : Name) (quantity : Asset) (productId : Nat)
    (product : Product) (config : Config) (config2 : Config2) (key : Name × Nat) (row : Staking) :
    stakeMore env ctx (s.stakesOver o) owner quantity productId product config config2 key
        row =
      (fun r => (r.1.stakesOver o, r.2)) <$> stakeMore env ctx s owner quantity productId
        product config config2 key row := by
  simp only [stakeMore, map_bind, bind_map_left, map_pure, issueLem_over]
  rfl

theorem stake_over [Doubles] (owner : Name) (quantity : Asset) (productName : Name)
    (pricePrediction : Option Name) :
    stake env ctx (s.stakesOver o) owner quantity productName pricePrediction =
      (fun r => (r.1.stakesOver o, r.2)) <$> stake env ctx s owner quantity productName
        pricePrediction := by
  simp only [stake, map_bind]
  refine bind_congr fun _ => bind_congr fun _ => bind_congr fun _ => bind_congr fun found => ?_
  refine bind_congr fun config => bind_congr fun config2 => ?_
  have hfind : findStaking (s.stakesOver o) owner found.1 = findStaking s owner found.1 := rfl
  rw [hfind]
  cases findStaking s owner found.1 with
  | none => simp only [map_bind, bind_map_left, map_pure, stakeNew_over]
  | some row => exact stakeMore_over ..

theorem unstake_over [Doubles] (owner productName : Name) :
    unstake env ctx (s.stakesOver o) owner productName =
      (fun r => (r.1.stakesOver o, r.2)) <$> unstake env ctx s owner productName := by
  simp only [unstake, map_bind, bind_map_left, map_pure, issueLem_over]
  rfl

theorem claimled_over [Doubles] (owner productName : Name) :
    claimled ctx (s.stakesOver o) owner productName =
      (fun r => (r.1.stakesOver o, r.2)) <$> claimled ctx s owner productName := by
  simp only [claimled, map_bind, apply_ite (Functor.map (f := Result) _), map_pure]
  rfl

theorem claimlem_over [Doubles] (owner productName : Name) :
    claimlem env ctx (s.stakesOver o) owner productName =
      (fun r => (r.1.stakesOver o, r.2)) <$> claimlem env ctx s owner productName := by
  simp only [claimlem, map_bind, bind_map_left, apply_ite (Functor.map (f := Result) _), map_pure,
    issueLem_over]
  rfl

theorem changeyield_over (owner productName : Name) (yield : ℚ) :
    changeyield env ctx (s.stakesOver o) owner productName yield =
      (fun t => t.stakesOver o) <$> changeyield env ctx s owner productName yield := by
  simp only [changeyield, map_bind, map_pure]
  rfl

end Stakes

section Games

variable (env : Env) (ctx : Ctx) (s o : State)

theorem createbet_over (startedAt bettingEndedAt endedAt : UInt32) :
    createbet env ctx (s.gamesOver o) startedAt bettingEndedAt endedAt =
      (fun t => t.gamesOver o) <$> createbet env ctx s startedAt bettingEndedAt endedAt := by
  simp only [createbet, map_bind, map_pure]
  rfl

theorem rmbet_over (betId : Nat) :
    rmbet env ctx (s.gamesOver o) betId = (fun t => t.gamesOver o) <$> rmbet env ctx s betId := by
  simp only [rmbet, map_bind, map_pure]
  rfl

theorem bet_over [Doubles] (owner : Name) (quantity : Asset) (betId : Nat) (position : Text) :
    bet ctx (s.gamesOver o) owner quantity betId position =
      (fun t => t.gamesOver o) <$> bet ctx s owner quantity betId position := by
  simp only [bet, map_bind, map_pure]
  rfl

theorem claimbet_over [Doubles] (betId : Nat) :
    claimbet env ctx (s.gamesOver o) betId =
      (fun r => (r.1.gamesOver o, r.2)) <$> claimbet env ctx s betId := by
  simp only [claimbet, map_bind, map_pure]
  rfl

/-- `setbet` does not see the exchange. -/
theorem setbet_over (betId : Nat) (status : UInt8) :
    setbet env ctx (s.exchangeOver o) betId status =
      (fun r => (s.exchangeOver r.1, r.2)) <$> setbet env ctx o betId status := by
  simp only [setbet, map_bind, apply_ite (Functor.map (f := Result) _), map_pure]
  rfl

end Games

end Lemonade
