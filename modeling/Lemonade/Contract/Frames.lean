import Lemonade.Contract.Actions
import Mathlib.Tactic

/-!
# What each action leaves alone

The tables of the contract fall into three areas that share no action but the
notification: stakes, games, and the exchange.  For each area an inductive
predicate lists the actions that touch it, with everything else in one frame case.
Invariants of an area are proved by cases on that predicate.
-/

namespace Lemonade

open Kernel

section Areas

/-- The tables of stakes and games are the same. -/
def KeepsStakes (s s' : State) : Prop :=
  s'.products = s.products ∧ s'.stakings = s.stakings ∧ s'.bettings = s.bettings

/-- The tables of the exchange are the same. -/
def KeepsDex (s s' : State) : Prop :=
  s'.accounts = s.accounts ∧ s'.userinfo = s.userinfo ∧ s'.stats = s.stats ∧
    s'.dexacnts = s.dexacnts

/-- Outside the exchange, stakes, games and the fill of LEM are the same. -/
def OnlyDex (s s' : State) : Prop := KeepsStakes s s' ∧ s'.config = s.config

theorem KeepsStakes.trans
    {s t u : State} (h : KeepsStakes s t) (h' : KeepsStakes t u) : KeepsStakes s u :=
  ⟨h'.1.trans h.1, h'.2.1.trans h.2.1, h'.2.2.trans h.2.2⟩

theorem OnlyDex.trans
    {s t u : State} (h : OnlyDex s t) (h' : OnlyDex t u) : OnlyDex s u :=
  ⟨h.1.trans h'.1, h'.2.trans h.2⟩

theorem addBalance_onlyDex
    {s s' : State} {owner : Name} {value : Asset}
    (h : addBalance s owner value = .ok s') : OnlyDex s s' := by
  obtain ⟨_, _, -, -, rfl⟩ := addBalance_eq_ok h
  exact ⟨⟨rfl, rfl, rfl⟩, rfl⟩

theorem subBalance_onlyDex
    {s s' : State} {owner : Name} {value : Asset}
    (h : subBalance s owner value = .ok s') : OnlyDex s s' := by
  obtain ⟨_, _, _, _, -, -, -, -, -, -, rfl⟩ := subBalance_eq_ok h
  exact ⟨⟨rfl, rfl, rfl⟩, rfl⟩

theorem moveShares_onlyDex
    {s s' : State} {owner : Name} {value : Asset}
    (h : moveShares s owner value = .ok s') : OnlyDex s s' := by
  unfold moveShares at h
  split_ifs at h
  · exact addBalance_onlyDex h
  · exact subBalance_onlyDex h

theorem addSignedExtBalance_onlyDex
    {s s' : State} {user : Name} {toAdd : ExtendedAsset}
    (h : addSignedExtBalance s user toAdd = .ok s') : OnlyDex s s' := by
  obtain ⟨-, ⟨_, -, -, -, rfl⟩ | ⟨_, _, _, -, -, -, rfl⟩⟩ := addSignedExtBalance_eq_ok h
  · exact ⟨⟨rfl, rfl, rfl⟩, rfl⟩
  · exact ⟨⟨rfl, rfl, rfl⟩, rfl⟩

theorem addSignedLiq_onlyDex
    {s s' : State} {user : Name} {toAdd maxAsset1 maxAsset2 : Asset}
    (h : addSignedLiq s user toAdd maxAsset1 maxAsset2 = .ok s') : OnlyDex s s' := by
  obtain ⟨_, _, _, s₁, s₂, s₃, _, _, _, -, -, -, -, h1, h2, h3, -, -, -, -, rfl⟩ :=
    addSignedLiq_eq_ok h
  have h12 := (addSignedExtBalance_onlyDex h1).trans (addSignedExtBalance_onlyDex h2)
  have h3' := moveShares_onlyDex h3
  exact h12.trans h3'

theorem Swapped.onlyDex [Doubles]
    {s s' : State} {pairToken : SymbolCode} {extAssetIn net out : ExtendedAsset}
    {minExpected : Asset}
    (h : Swapped s pairToken extAssetIn minExpected net out s') : OnlyDex s s' := by
  obtain ⟨_, _, -, -, -, h⟩ := h
  obtain ⟨_, _, _, _, _, -, -, -, -, -, -, -, rfl, -⟩ := processExch_eq_ok h
  exact ⟨⟨rfl, rfl, rfl⟩, rfl⟩

theorem exchange_onlyDex [Doubles]
    {env : Env} {ctx : Ctx} {s s' : State} {user : Name} {pairToken : SymbolCode}
    {extAssetIn : ExtendedAsset} {minExpected : Asset}
    (h : exchange env ctx s user pairToken extAssetIn minExpected = .ok s') :
    OnlyDex s s' := by
  obtain ⟨_, _, _, _, -, -, hswap, hpay, hget⟩ := exchange_eq_ok h
  have h1 := hswap.onlyDex.trans (addSignedExtBalance_onlyDex hpay)
  exact h1.trans (addSignedExtBalance_onlyDex hget)

theorem payPoolFee_onlyDex
    {s s' : State} {user : Name}
    (h : payPoolFee s user = .ok s') : OnlyDex s s' := by
  unfold payPoolFee at h
  split_ifs at h
  · exact addSignedExtBalance_onlyDex h
  · cases h
    exact ⟨⟨rfl, rfl, rfl⟩, rfl⟩

theorem inittoken_onlyDex
    {env : Env} {ctx : Ctx} {s s' : State} {user : Name} {newSymbol : Symbol}
    {initialPool1 initialPool2 : ExtendedAsset}
    (h : inittoken env ctx s user newSymbol initialPool1 initialPool2 = .ok s') :
    OnlyDex s s' := by
  obtain ⟨_, s₁, _, _, _, s₂, s₃, -, -, -, -, -, -, -, -, -, hfee, -, hshares, h1, h2⟩ :=
    inittoken_eq_ok h
  have hfee' := payPoolFee_onlyDex hfee
  have hshares' := addBalance_onlyDex hshares
  have h12 := (addSignedExtBalance_onlyDex h1).trans (addSignedExtBalance_onlyDex h2)
  exact (hfee'.trans hshares').trans h12

end Areas

section Moves

/-- The actions on products and stakes. -/
inductive StakeMove [Doubles] (env : Env) (ctx : Ctx) (s : State) :
    Action → State → List Inline → Prop
  | addproduct {productName : Name} {minimumYield maximumYield : ℚ}
      {hasLemRewards hasPrediction : Bool} {amountPerAccount : Asset}
      {maximumAmountLimit : Option Asset} {duration : Option UInt32} {s' : State}
      (h : addproduct env ctx s productName minimumYield maximumYield hasLemRewards
        hasPrediction amountPerAccount maximumAmountLimit duration = .ok s') :
      StakeMove env ctx s (.addproduct productName minimumYield maximumYield hasLemRewards
        hasPrediction amountPerAccount maximumAmountLimit duration) s' []
  | rmproduct {productName : Name} {s' : State}
      (h : rmproduct env ctx s productName = .ok s') :
      StakeMove env ctx s (.rmproduct productName) s' []
  | stake {firstReceiver source dest : Name} {quantity : Asset} {memo : Text}
      {productName : Name} {pricePrediction : Option Name} {s' : State} {sent : List Inline}
      (incoming : Incoming env source dest) (operation : Operation memo "stake")
      (product : stakeProduct (memoParser memo) = .ok productName)
      (h : stake env ctx s source quantity productName pricePrediction = .ok (s', sent)) :
      StakeMove env ctx s (.notify firstReceiver source dest quantity memo) s' sent
  | unstake {owner productName : Name} {s' : State} {sent : List Inline}
      (h : unstake env ctx s owner productName = .ok (s', sent)) :
      StakeMove env ctx s (.unstake owner productName) s' sent
  | claimled {owner productName : Name} {s' : State} {sent : List Inline}
      (h : claimled ctx s owner productName = .ok (s', sent)) :
      StakeMove env ctx s (.claimled owner productName) s' sent
  | claimlem {owner productName : Name} {s' : State} {sent : List Inline}
      (h : claimlem env ctx s owner productName = .ok (s', sent)) :
      StakeMove env ctx s (.claimlem owner productName) s' sent
  | changeyield {owner productName : Name} {yield : ℚ} {s' : State}
      (h : changeyield env ctx s owner productName yield = .ok s') :
      StakeMove env ctx s (.changeyield owner productName yield) s' []

/-- The actions on games. -/
inductive GameMove [Doubles] (env : Env) (ctx : Ctx) (s : State) :
    Action → State → List Inline → Prop
  | createbet {startedAt bettingEndedAt endedAt : UInt32} {s' : State}
      (h : createbet env ctx s startedAt bettingEndedAt endedAt = .ok s') :
      GameMove env ctx s (.createbet startedAt bettingEndedAt endedAt) s' []
  | setbet {betId : Nat} {status : UInt8} {s' : State} {sent : List Inline}
      (h : setbet env ctx s betId status = .ok (s', sent)) :
      GameMove env ctx s (.setbet betId status) s' sent
  | rmbet {betId : Nat} {s' : State}
      (h : rmbet env ctx s betId = .ok s') :
      GameMove env ctx s (.rmbet betId) s' []
  | claimbet {betId : Nat} {s' : State} {sent : List Inline}
      (h : claimbet env ctx s betId = .ok (s', sent)) :
      GameMove env ctx s (.claimbet betId) s' sent
  | bet {firstReceiver source dest : Name} {quantity : Asset} {memo : Text} {betId : Nat}
      {position : Text} {s' : State}
      (incoming : Incoming env source dest) (operation : Operation memo "bet")
      (target : betTarget (memoParser memo) = .ok (betId, position))
      (h : bet ctx s source quantity betId position = .ok s') :
      GameMove env ctx s (.notify firstReceiver source dest quantity memo) s' []

/-- The actions on LP tokens, deposits and pools. -/
inductive DexMove [Doubles] (env : Env) (ctx : Ctx) (s : State) :
    Action → State → List Inline → Prop
  | transfer {source dest : Name} {quantity : Asset} {memo : Text} {s' : State}
      (h : transfer ctx s source dest quantity memo = .ok s') :
      DexMove env ctx s (.transfer source dest quantity memo) s' []
  | tokenOpen {owner : Name} {symbol : Symbol} {ramPayer : Name} {s' : State}
      (h : tokenOpen ctx s owner symbol ramPayer = .ok s') :
      DexMove env ctx s (.tokenOpen owner symbol ramPayer) s' []
  | tokenClose {owner : Name} {symbol : Symbol} {s' : State}
      (h : tokenClose ctx s owner symbol = .ok s') :
      DexMove env ctx s (.tokenClose owner symbol) s' []
  | openext {user : Name} {extSymbol : ExtendedSymbol} {s' : State}
      (h : openext env ctx s user extSymbol = .ok s') :
      DexMove env ctx s (.openext user extSymbol) s' []
  | closeext {user dest : Name} {extSymbol : ExtendedSymbol} {memo : Text} {s' : State}
      {sent : List Inline}
      (h : closeext env ctx s user dest extSymbol memo = .ok (s', sent)) :
      DexMove env ctx s (.closeext user dest extSymbol memo) s' sent
  | withdraw {user dest : Name} {toWithdraw : ExtendedAsset} {memo : Text} {s' : State}
      {sent : List Inline}
      (h : withdraw env ctx s user dest toWithdraw memo = .ok (s', sent)) :
      DexMove env ctx s (.withdraw user dest toWithdraw memo) s' sent
  | addliquidity {user : Name} {toBuy maxAsset1 maxAsset2 : Asset} {s' : State}
      (h : addliquidity env ctx s user toBuy maxAsset1 maxAsset2 = .ok s') :
      DexMove env ctx s (.addliquidity user toBuy maxAsset1 maxAsset2) s' []
  | rmliquidity {user : Name} {toSell minAsset1 minAsset2 : Asset} {s' : State}
      (h : rmliquidity env ctx s user toSell minAsset1 minAsset2 = .ok s') :
      DexMove env ctx s (.rmliquidity user toSell minAsset1 minAsset2) s' []
  | exchange {user : Name} {pairToken : SymbolCode} {extAssetIn : ExtendedAsset}
      {minExpected : Asset} {s' : State}
      (h : exchange env ctx s user pairToken extAssetIn minExpected = .ok s') :
      DexMove env ctx s (.exchange user pairToken extAssetIn minExpected) s' []
  | exchangeall {user : Name} {pairToken : SymbolCode} {assetIn : ExtendedSymbol} {s' : State}
      (h : exchangeall env ctx s user pairToken assetIn = .ok s') :
      DexMove env ctx s (.exchangeall user pairToken assetIn) s' []
  | inittoken {user : Name} {newSymbol : Symbol} {initialPool1 initialPool2 : ExtendedAsset}
      {s' : State}
      (h : inittoken env ctx s user newSymbol initialPool1 initialPool2 = .ok s') :
      DexMove env ctx s (.inittoken user newSymbol initialPool1 initialPool2) s' []
  | rmpool {user : Name} {lpSymbol : Symbol} {s' : State}
      (h : rmpool env ctx s user lpSymbol = .ok s') :
      DexMove env ctx s (.rmpool user lpSymbol) s' []
  | clmpoolreward {pairTokenSymbol : Text} {total pool : ℚ} {s' : State} {sent : List Inline}
      (h : clmpoolreward env ctx s pairTokenSymbol total pool = .ok (s', sent)) :
      DexMove env ctx s (.clmpoolreward pairTokenSymbol total pool) s' sent
  | deposit {firstReceiver source dest : Name} {quantity : Asset} {memo : Text} {s' : State}
      (incoming : Incoming env source dest) (operation : Operation memo "deposit")
      (h : addSignedExtBalance s source ⟨quantity, firstReceiver⟩ = .ok s') :
      DexMove env ctx s (.notify firstReceiver source dest quantity memo) s' []
  | memoexchange {firstReceiver source dest : Name} {quantity : Asset} {memo : Text}
      {pairToken : SymbolCode} {minExpected : Asset} {s' : State} {sent : List Inline}
      (incoming : Incoming env source dest) (operation : Operation memo "exchange")
      (fields : 3 ≤ (memoParser memo).length)
      (h : memoexchange env s source ⟨quantity, firstReceiver⟩ pairToken minExpected =
        .ok (s', sent)) :
      DexMove env ctx s (.notify firstReceiver source dest quantity memo) s' sent

/-- The actions on none of the three areas, and the notifications that ask for nothing. -/
inductive AdminMove [Doubles] (env : Env) (ctx : Ctx) (s : State) :
    Action → State → List Inline → Prop
  | init {s' : State}
      (h : init env ctx s = .ok s') : AdminMove env ctx s .init s' []
  | issuelem {s' : State} {sent : List Inline}
      (h : issuelem env ctx s = .ok (s', sent)) : AdminMove env ctx s .issuelem s' sent
  | setbtcprice {price : ℚ} {s' : State}
      (h : setbtcprice env ctx s price = .ok s') :
      AdminMove env ctx s (.setbtcprice price) s' []
  | setledprice {price : ℚ} {s' : State}
      (h : setledprice env ctx s price = .ok s') :
      AdminMove env ctx s (.setledprice price) s' []
  | freeze {account : Name} {s' : State}
      (h : freeze env ctx s account = .ok s') : AdminMove env ctx s (.freeze account) s' []
  | unfreeze {account : Name} {s' : State}
      (h : unfreeze env ctx s account = .ok s') : AdminMove env ctx s (.unfreeze account) s' []
  | indexpair {user : Name} {lpSymbol : Symbol} {s' : State}
      (h : indexpair env s lpSymbol = .ok s') :
      AdminMove env ctx s (.indexpair user lpSymbol) s' []
  | notify {firstReceiver source dest : Name} {quantity : Asset} {memo : Text}
      (unasked : ¬ (Incoming env source dest ∧ (Operation memo "stake" ∨ Operation memo "bet" ∨
        Operation memo "deposit" ∨ Operation memo "exchange" ∧ 3 ≤ (memoParser memo).length))) :
      AdminMove env ctx s (.notify firstReceiver source dest quantity memo) s []

/-- Every step is a move in one of the areas, and leaves the others alone. -/
inductive AreaStep [Doubles] (env : Env) (ctx : Ctx) (s : State) (a : Action) (s' : State)
    (sent : List Inline) : Prop
  | stakes (move : StakeMove env ctx s a s' sent) (dex : KeepsDex s s')
      (games : s'.bettings = s.bettings)
  | games (move : GameMove env ctx s a s' sent) (dex : KeepsDex s s')
      (products : s'.products = s.products) (stakings : s'.stakings = s.stakings)
  | dex (move : DexMove env ctx s a s' sent) (stakes : KeepsStakes s s')
  | idle (stakes : KeepsStakes s s') (dex : KeepsDex s s')
      (admin : AdminMove env ctx s a s' sent)

theorem KeepsStakes.refl (s : State) : KeepsStakes s s := ⟨rfl, rfl, rfl⟩

theorem KeepsDex.refl (s : State) : KeepsDex s s := ⟨rfl, rfl, rfl, rfl⟩

/-- Only the reward of a pool touches more than the exchange: it issues LEM. -/
theorem DexMove.onlyDex [Doubles]
    {env : Env} {ctx : Ctx} {s s' : State} {a : Action} {sent : List Inline}
    (h : DexMove env ctx s a s' sent)
    (hreward : ∀ pairTokenSymbol total pool, a ≠ .clmpoolreward pairTokenSymbol total pool) :
    OnlyDex s s' := by
  cases h with
  | transfer h =>
      obtain ⟨_, _, -, -, -, -, -, hsub, hadd⟩ := transfer_eq_ok h
      exact (subBalance_onlyDex hsub).trans (addBalance_onlyDex hadd)
  | tokenOpen h =>
      rcases tokenOpen_eq_ok h with rfl | ⟨-, rfl⟩
      all_goals exact ⟨⟨rfl, rfl, rfl⟩, rfl⟩
  | tokenClose h =>
      obtain ⟨_, -, -, -, rfl⟩ := tokenClose_eq_ok h
      exact ⟨⟨rfl, rfl, rfl⟩, rfl⟩
  | openext h =>
      rcases openext_eq_ok h with rfl | ⟨_, -, -, rfl⟩
      all_goals exact ⟨⟨rfl, rfl, rfl⟩, rfl⟩
  | closeext h =>
      obtain ⟨_, _, -, -, rfl, -⟩ := closeext_eq_ok h
      exact ⟨⟨rfl, rfl, rfl⟩, rfl⟩
  | withdraw h =>
      obtain ⟨-, -, hadd, -⟩ := withdraw_eq_ok h
      exact addSignedExtBalance_onlyDex hadd
  | addliquidity h => exact addSignedLiq_onlyDex (addliquidity_eq_ok h).2.2
  | rmliquidity h => exact addSignedLiq_onlyDex (rmliquidity_eq_ok h).2.2
  | exchange h => exact exchange_onlyDex h
  | exchangeall h =>
      obtain ⟨_, _, _, -, -, hall⟩ := exchangeall_eq_ok h
      exact exchange_onlyDex hall
  | inittoken h => exact inittoken_onlyDex h
  | rmpool h =>
      obtain ⟨_, _, _, _, _, -, -, -, rfl⟩ := rmpool_eq_ok h
      exact ⟨⟨rfl, rfl, rfl⟩, rfl⟩
  | clmpoolreward => exact absurd rfl (hreward _ _ _)
  | deposit _ _ h => exact addSignedExtBalance_onlyDex h
  | memoexchange _ _ _ h =>
      obtain ⟨_, _, _, -, hswap, -⟩ := memoexchange_eq_ok h
      exact hswap.onlyDex

theorem AreaStep.of_dex [Doubles]
    {env : Env} {ctx : Ctx} {s s' : State} {a : Action} {sent : List Inline}
    (h : DexMove env ctx s a s' sent) : AreaStep env ctx s a s' sent := by
  refine .dex h ?_
  by_cases hreward : ∃ pairTokenSymbol total pool, a = .clmpoolreward pairTokenSymbol total pool
  · obtain ⟨_, _, _, rfl⟩ := hreward
    cases h with
    | clmpoolreward h =>
        obtain ⟨_, _, _, _, _, _, -, -, -, -, -, rfl⟩ := clmpoolreward_eq_ok h
        exact ⟨rfl, rfl, rfl⟩
  · exact (h.onlyDex fun x y z ha => hreward ⟨x, y, z, ha⟩).1

theorem stake_keeps [Doubles]
    {env : Env} {ctx : Ctx} {s s' : State} {owner : Name} {quantity : Asset}
    {productName : Name} {pricePrediction : Option Name} {sent : List Inline}
    (h : stake env ctx s owner quantity productName pricePrediction = .ok (s', sent)) :
    KeepsDex s s' ∧ s'.bettings = s.bettings := by
  obtain ⟨productId, product, config, config2, -, -, -, -, -, -, h⟩ := stake_eq_ok h
  rcases h with ⟨-, -, h⟩ | ⟨key, row, -, h⟩
  · obtain ⟨_, _, _, _, -, -, -, -, rfl⟩ := stakeNew_eq_ok h
    exact ⟨⟨rfl, rfl, rfl, rfl⟩, rfl⟩
  · obtain ⟨_, _, _, -, -, rfl⟩ := stakeMore_tables h
    exact ⟨⟨rfl, rfl, rfl, rfl⟩, rfl⟩

theorem exec_area [Doubles]
    {env : Env} {ctx : Ctx} {s s' : State} {a : Action} {sent : List Inline}
    (h : exec env ctx s a = .ok (s', sent)) : AreaStep env ctx s a s' sent := by
  cases a with
  | init =>
      obtain ⟨hok, rfl⟩ := silent_eq_ok_iff.mp h
      have hmove : AdminMove env ctx s _ s' [] := .init hok
      obtain ⟨_, rfl⟩ := init_eq_ok hok
      exact .idle ⟨rfl, rfl, rfl⟩ ⟨rfl, rfl, rfl, rfl⟩ hmove
  | issuelem =>
      have hmove : AdminMove env ctx s _ s' sent := .issuelem h
      simp only [exec, issuelem, bind_eq_ok_iff] at h
      obtain ⟨_, -, hok⟩ := h
      obtain ⟨_, _, -, rfl, -, -⟩ := issueLem_frame hok
      exact .idle ⟨rfl, rfl, rfl⟩ ⟨rfl, rfl, rfl, rfl⟩ hmove
  | setbtcprice =>
      obtain ⟨hok, rfl⟩ := silent_eq_ok_iff.mp h
      have hmove : AdminMove env ctx s _ s' [] := .setbtcprice hok
      obtain ⟨_, -, rfl⟩ := setbtcprice_eq_ok hok
      exact .idle ⟨rfl, rfl, rfl⟩ ⟨rfl, rfl, rfl, rfl⟩ hmove
  | setledprice =>
      obtain ⟨hok, rfl⟩ := silent_eq_ok_iff.mp h
      have hmove : AdminMove env ctx s _ s' [] := .setledprice hok
      obtain ⟨_, rfl⟩ := setledprice_eq_ok hok
      exact .idle ⟨rfl, rfl, rfl⟩ ⟨rfl, rfl, rfl, rfl⟩ hmove
  | addproduct =>
      obtain ⟨hok, rfl⟩ := silent_eq_ok_iff.mp h
      have hmove := StakeMove.addproduct hok
      obtain ⟨_, _, -, -, -, -, -, -, -, -, rfl⟩ := addproduct_eq_ok hok
      exact .stakes hmove ⟨rfl, rfl, rfl, rfl⟩ rfl
  | rmproduct =>
      obtain ⟨hok, rfl⟩ := silent_eq_ok_iff.mp h
      have hmove := StakeMove.rmproduct hok
      obtain ⟨_, _, -, -, -, rfl⟩ := rmproduct_eq_ok hok
      exact .stakes hmove ⟨rfl, rfl, rfl, rfl⟩ rfl
  | unstake =>
      have hmove := StakeMove.unstake h
      obtain ⟨_, _, _, _, _, _, -, -, -, -, rfl⟩ := unstake_tables h
      exact .stakes hmove ⟨rfl, rfl, rfl, rfl⟩ rfl
  | claimled =>
      have hmove : StakeMove env ctx s _ s' sent := .claimled h
      obtain ⟨_, _, _, _, _, -, -, -, -, ⟨-, rfl, -⟩ | ⟨_, -, -, rfl, -⟩⟩ := claimled_eq_ok h
      all_goals exact .stakes hmove ⟨rfl, rfl, rfl, rfl⟩ rfl
  | claimlem =>
      have hmove := StakeMove.claimlem h
      obtain ⟨_, _, _, _, _, _, _, _, -, -, -, -, -, -, -, ⟨-, rfl, -⟩ | ⟨_, -, -, rfl, -⟩⟩ :=
        claimlem_eq_ok h
      all_goals exact .stakes hmove ⟨rfl, rfl, rfl, rfl⟩ rfl
  | changeyield =>
      obtain ⟨hok, rfl⟩ := silent_eq_ok_iff.mp h
      have hmove := StakeMove.changeyield hok
      obtain ⟨_, _, _, _, -, -, -, -, rfl⟩ := changeyield_eq_ok hok
      exact .stakes hmove ⟨rfl, rfl, rfl, rfl⟩ rfl
  | createbet =>
      obtain ⟨hok, rfl⟩ := silent_eq_ok_iff.mp h
      have hmove := GameMove.createbet hok
      obtain ⟨_, _, -, -, -, -, -, rfl⟩ := createbet_eq_ok hok
      exact .games hmove ⟨rfl, rfl, rfl, rfl⟩ rfl rfl
  | setbet =>
      have hmove := GameMove.setbet h
      obtain ⟨_, -, ⟨rfl, -⟩ | ⟨_, _, _, -, -, -, -, rfl, -⟩ | ⟨_, -, -, -, rfl, -⟩⟩ := setbet_eq_ok
        h
      all_goals exact .games hmove ⟨rfl, rfl, rfl, rfl⟩ rfl rfl
  | rmbet =>
      obtain ⟨hok, rfl⟩ := silent_eq_ok_iff.mp h
      have hmove := GameMove.rmbet hok
      obtain ⟨_, -, -, rfl⟩ := rmbet_eq_ok hok
      exact .games hmove ⟨rfl, rfl, rfl, rfl⟩ rfl rfl
  | claimbet =>
      have hmove := GameMove.claimbet h
      obtain ⟨_, -, -, -, rfl⟩ := claimbet_eq_ok h
      exact .games hmove ⟨rfl, rfl, rfl, rfl⟩ rfl rfl
  | transfer =>
      obtain ⟨hok, rfl⟩ := silent_eq_ok_iff.mp h
      exact .of_dex (.transfer hok)
  | tokenOpen =>
      obtain ⟨hok, rfl⟩ := silent_eq_ok_iff.mp h
      exact .of_dex (.tokenOpen hok)
  | tokenClose =>
      obtain ⟨hok, rfl⟩ := silent_eq_ok_iff.mp h
      exact .of_dex (.tokenClose hok)
  | freeze =>
      obtain ⟨hok, rfl⟩ := silent_eq_ok_iff.mp h
      have hmove : AdminMove env ctx s _ s' [] := .freeze hok
      obtain ⟨_, rfl⟩ := freeze_eq_ok hok
      exact .idle ⟨rfl, rfl, rfl⟩ ⟨rfl, rfl, rfl, rfl⟩ hmove
  | unfreeze =>
      obtain ⟨hok, rfl⟩ := silent_eq_ok_iff.mp h
      have hmove : AdminMove env ctx s _ s' [] := .unfreeze hok
      obtain ⟨_, rfl⟩ := unfreeze_eq_ok hok
      exact .idle ⟨rfl, rfl, rfl⟩ ⟨rfl, rfl, rfl, rfl⟩ hmove
  | openext =>
      obtain ⟨hok, rfl⟩ := silent_eq_ok_iff.mp h
      exact .of_dex (.openext hok)
  | closeext => exact .of_dex (.closeext h)
  | withdraw => exact .of_dex (.withdraw h)
  | addliquidity =>
      obtain ⟨hok, rfl⟩ := silent_eq_ok_iff.mp h
      exact .of_dex (.addliquidity hok)
  | rmliquidity =>
      obtain ⟨hok, rfl⟩ := silent_eq_ok_iff.mp h
      exact .of_dex (.rmliquidity hok)
  | exchange =>
      obtain ⟨hok, rfl⟩ := silent_eq_ok_iff.mp h
      exact .of_dex (.exchange hok)
  | exchangeall =>
      obtain ⟨hok, rfl⟩ := silent_eq_ok_iff.mp h
      exact .of_dex (.exchangeall hok)
  | inittoken =>
      obtain ⟨hok, rfl⟩ := silent_eq_ok_iff.mp h
      exact .of_dex (.inittoken hok)
  | indexpair user lpSymbol =>
      obtain ⟨hok, rfl⟩ := silent_eq_ok_iff.mp h
      have hmove : AdminMove env ctx s (.indexpair user lpSymbol) s' [] := .indexpair hok
      obtain ⟨_, rfl⟩ := indexpair_eq_ok hok
      exact .idle ⟨rfl, rfl, rfl⟩ ⟨rfl, rfl, rfl, rfl⟩ hmove
  | rmpool =>
      obtain ⟨hok, rfl⟩ := silent_eq_ok_iff.mp h
      exact .of_dex (.rmpool hok)
  | clmpoolreward => exact .of_dex (.clmpoolreward h)
  | notify =>
      obtain ⟨rfl, rfl, hidle⟩ | ⟨hin, ⟨_, _, hop, hproduct, hok⟩ | ⟨_, _, hop, htarget, rfl, hok⟩ |
        ⟨hop, rfl, hok⟩ | ⟨_, _, hop, hlen, hok⟩⟩ := transferEvent_eq_ok h
      · exact .idle (.refl _) (.refl _) (.notify hidle)
      · exact .stakes (.stake hin hop hproduct hok) (stake_keeps hok).1 (stake_keeps hok).2
      · refine .games (.bet hin hop htarget hok) ?_ ?_ ?_
        all_goals obtain ⟨_, _, _, -, -, -, -, -, -, rfl⟩ := bet_eq_ok hok
        · exact ⟨rfl, rfl, rfl, rfl⟩
        · rfl
        · rfl
      · exact .of_dex (.deposit hin hop hok)
      · exact .of_dex (.memoexchange hin hop hlen hok)

end Moves

end Lemonade
