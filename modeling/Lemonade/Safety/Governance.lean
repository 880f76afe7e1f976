import Lemonade.Contract.Frames
import Mathlib.Tactic

/-!
# What only the contract decides

Prices, the schedule of halvings, the products and their terms, the games with their
times, prices and states, the frozen accounts and the times of pool rewards change in
no run without an action that the contract itself has authorised.  The yields of the
users are fixed in the same way: a stake earns what it did, or if it is a new one the
minimum yield of its product.
-/

namespace Lemonade

open Kernel

section Governance

/-- A product without its total and its buyers -/
def Product.terms (product : Product) : Product :=
  { product with currentAmount := zeroLed, buyers := [] }

/-- A game without its bets -/
def Betting.terms (game : Betting) : Betting :=
  { game with
    shortBetters := []
    longBetters := []
    shortBettingAmount := zeroLed
    longBettingAmount := zeroLed
    shortDividend := 0
    longDividend := 0 }

/-- What users find given. -/
structure Governance where
  btcPrice : Option ℚ
  halvings : Option (Fin 4 → UInt32)
  ledPrice : Option ℚ
  products : Nat → Option Product
  games : Nat → Option Betting
  frozens : Table Name Unit
  poolrewards : Table SymbolCode UInt32

def State.governance (s : State) : Governance where
  btcPrice := s.config.map Config.btcPrice
  halvings := s.config.map Config.lastHalfLifeUpdated
  ledPrice := s.config2.map Config2.price
  products := fun id => (s.products.find? id).map Product.terms
  games := fun id => (s.bettings.find? id).map Betting.terms
  frozens := s.frozens
  poolrewards := s.poolrewards

/-- The actions that need the authority of the contract. -/
def Action.OfContract : Action → Prop
  | .init => True
  | .issuelem => True
  | .setbtcprice _ => True
  | .setledprice _ => True
  | .addproduct _ _ _ _ _ _ _ _ => True
  | .rmproduct _ => True
  | .changeyield _ _ _ => True
  | .createbet _ _ _ => True
  | .setbet _ _ => True
  | .rmbet _ => True
  | .claimbet _ => True
  | .freeze _ => True
  | .unfreeze _ => True
  | .clmpoolreward _ _ _ => True
  | _ => False

variable {env : Env} {ctx : Ctx} {s s' : State} {a : Action} {sent : List Inline}

theorem mem_auths_of_bind
    {α : Type} {account : Name} {f : PUnit → Result α} {r : α}
    (h : (requireAuth ctx account >>= f) = .ok r) : account ∈ ctx.auths := by
  simp only [bind_eq_ok_iff, requireAuth_eq_ok_iff] at h
  exact h.choose_spec.1

theorem self_mem_auths [Doubles]
    (h : exec env ctx s a = .ok (s', sent)) (ha : a.OfContract) : env.self ∈ ctx.auths := by
  cases a with
  | issuelem | setbet | claimbet | clmpoolreward => exact mem_auths_of_bind h
  | init | setbtcprice | setledprice | addproduct | rmproduct | changeyield | createbet | rmbet
  | freeze | unfreeze => exact mem_auths_of_bind (silent_eq_ok_iff.mp h).1
  | _ => exact ha.elim

end Governance

section Users

variable {env : Env} {ctx : Ctx} {s s' t : State} {user : Name}

/-- The parts of the state that neither the exchange nor stakes nor games are about. -/
def KeepsOffice (s s' : State) : Prop :=
  s'.config2 = s.config2 ∧ s'.frozens = s.frozens ∧ s'.poolrewards = s.poolrewards

theorem KeepsOffice.refl (s : State) : KeepsOffice s s := ⟨rfl, rfl, rfl⟩

theorem KeepsOffice.trans (h : KeepsOffice s t) (h' : KeepsOffice t s') : KeepsOffice s s' :=
  ⟨h'.1.trans h.1, h'.2.1.trans h.2.1, h'.2.2.trans h.2.2⟩

theorem addBalance_keepsOffice
    {value : Asset} (h : addBalance s user value = .ok s') : KeepsOffice s s' := by
  obtain ⟨_, _, -, -, rfl⟩ := addBalance_eq_ok h
  exact .refl s

theorem subBalance_keepsOffice
    {value : Asset} (h : subBalance s user value = .ok s') : KeepsOffice s s' := by
  obtain ⟨_, _, _, _, -, -, -, -, -, -, rfl⟩ := subBalance_eq_ok h
  exact .refl s

theorem addSignedExtBalance_keepsOffice
    {toAdd : ExtendedAsset} (h : addSignedExtBalance s user toAdd = .ok s') :
    KeepsOffice s s' := by
  obtain ⟨-, ⟨_, -, -, -, rfl⟩ | ⟨_, _, _, -, -, -, rfl⟩⟩ := addSignedExtBalance_eq_ok h
  · exact .refl s
  · exact .refl s

theorem addSignedLiq_keepsOffice
    {toAdd maxAsset1 maxAsset2 : Asset}
    (h : addSignedLiq s user toAdd maxAsset1 maxAsset2 = .ok s') : KeepsOffice s s' := by
  obtain ⟨_, _, _, s₁, s₂, s₃, _, _, _, -, -, -, -, h1, h2, h3, -, -, -, -, rfl⟩ :=
    addSignedLiq_eq_ok h
  have h3' : KeepsOffice s₂ s₃ := by
    unfold moveShares at h3
    split_ifs at h3
    · exact addBalance_keepsOffice h3
    · exact subBalance_keepsOffice h3
  exact ((addSignedExtBalance_keepsOffice h1).trans (addSignedExtBalance_keepsOffice h2)).trans h3'

theorem Swapped.keepsOffice [Doubles]
    {pairToken : SymbolCode} {input net out : ExtendedAsset} {minExpected : Asset}
    (h : Swapped s pairToken input minExpected net out s') : KeepsOffice s s' := by
  obtain ⟨_, _, -, -, -, h⟩ := h
  obtain ⟨_, _, _, _, _, -, -, -, -, -, -, -, rfl, -⟩ := processExch_eq_ok h
  exact .refl s

theorem exchange_keepsOffice [Doubles]
    {pairToken : SymbolCode} {input : ExtendedAsset} {minExpected : Asset}
    (h : exchange env ctx s user pairToken input minExpected = .ok s') : KeepsOffice s s' := by
  obtain ⟨_, _, _, _, -, -, hswap, hpay, hget⟩ := exchange_eq_ok h
  exact (hswap.keepsOffice.trans (addSignedExtBalance_keepsOffice hpay)).trans
    (addSignedExtBalance_keepsOffice hget)

theorem inittoken_keepsOffice
    {newSymbol : Symbol} {initialPool1 initialPool2 : ExtendedAsset}
    (h : inittoken env ctx s user newSymbol initialPool1 initialPool2 = .ok s') :
    KeepsOffice s s' := by
  obtain ⟨_, s₁, _, _, _, s₂, s₃, -, -, -, -, -, -, -, -, -, hfee, -, hshares, h1, h2⟩ :=
    inittoken_eq_ok h
  have hfee' : KeepsOffice s s₁ := by
    unfold payPoolFee at hfee
    split_ifs at hfee
    · exact addSignedExtBalance_keepsOffice hfee
    · obtain rfl := Except.ok.inj hfee
      exact .refl s
  have hshares' := addBalance_keepsOffice hshares
  exact ((hfee'.trans hshares').trans (addSignedExtBalance_keepsOffice h1)).trans
    (addSignedExtBalance_keepsOffice h2)

/-- The exchange has no say in the matters of the contract. -/
theorem DexMove.keepsOffice [Doubles]
    {a : Action} {sent : List Inline} (h : DexMove env ctx s a s' sent) (ha : ¬ a.OfContract) :
    KeepsOffice s s' := by
  cases h with
  | transfer h =>
      obtain ⟨_, s₁, -, -, -, -, -, hsub, hadd⟩ := transfer_eq_ok h
      exact (subBalance_keepsOffice hsub).trans (addBalance_keepsOffice hadd)
  | tokenOpen h =>
      rcases tokenOpen_eq_ok h with rfl | ⟨-, rfl⟩
      · exact .refl _
      · exact .refl s
  | tokenClose h =>
      obtain ⟨_, -, -, -, rfl⟩ := tokenClose_eq_ok h
      exact .refl s
  | openext h =>
      rcases openext_eq_ok h with rfl | ⟨_, -, -, rfl⟩
      · exact .refl _
      · exact .refl s
  | closeext h =>
      obtain ⟨_, _, -, -, rfl, -⟩ := closeext_eq_ok h
      exact .refl s
  | withdraw h => exact addSignedExtBalance_keepsOffice (withdraw_eq_ok h).2.2.1
  | addliquidity h => exact addSignedLiq_keepsOffice (addliquidity_eq_ok h).2.2
  | rmliquidity h => exact addSignedLiq_keepsOffice (rmliquidity_eq_ok h).2.2
  | exchange h => exact exchange_keepsOffice h
  | exchangeall h =>
      obtain ⟨_, _, _, -, -, hall⟩ := exchangeall_eq_ok h
      exact exchange_keepsOffice hall
  | inittoken h => exact inittoken_keepsOffice h
  | rmpool h =>
      obtain ⟨_, _, _, _, _, -, -, -, rfl⟩ := rmpool_eq_ok h
      exact .refl s
  | clmpoolreward h => exact absurd trivial ha
  | deposit _ _ h => exact addSignedExtBalance_keepsOffice h
  | memoexchange _ _ _ h =>
      obtain ⟨_, _, _, -, hswap, -⟩ := memoexchange_eq_ok h
      exact hswap.keepsOffice

/-- Nothing that the contract decides has changed, and no yield. -/
structure Governed (s s' : State) : Prop where
  same : s'.governance = s.governance
  yields : ∀ key row', s'.stakings.find? key = some row' →
    (∃ row, s.stakings.find? key = some row ∧ row'.productId = row.productId ∧
      row'.currentYield = row.currentYield) ∨
    ∃ product, s.products.find? row'.productId = some product ∧
      row'.currentYield = product.minimumYield

theorem Governed.of_stakings
    (same : s'.governance = s.governance) (h : s'.stakings = s.stakings) : Governed s s' where
  same := same
  yields := by
    intro key row' hrow
    rw [h] at hrow
    exact Or.inl ⟨row', hrow, rfl, rfl⟩

theorem Governed.refl (s : State) : Governed s s := .of_stakings rfl rfl

theorem Governed.trans (h : Governed s t) (h' : Governed t s') : Governed s s' where
  same := h'.same.trans h.same
  yields := by
    intro key row' hrow
    rcases h'.yields key row' hrow with ⟨row, hmid, hid, hyield⟩ | ⟨product, hproduct, hyield⟩
    · rcases h.yields key row hmid with ⟨row₀, hold, hid₀, hyield₀⟩ | ⟨product, hproduct, hyield₀⟩
      · exact Or.inl ⟨row₀, hold, hid.trans hid₀, hyield.trans hyield₀⟩
      · rw [← hid] at hproduct
        exact Or.inr ⟨product, hproduct, hyield.trans hyield₀⟩
    · have hterms := congrFun (congrArg Governance.products h.same) row'.productId
      simp only [State.governance, hproduct, Option.map_some] at hterms
      obtain ⟨product₀, hproduct₀, hsame⟩ := Option.map_eq_some_iff.mp hterms.symm
      have hminimum := congrArg Product.minimumYield hsame
      exact Or.inr ⟨product₀, hproduct₀, hyield.trans hminimum.symm⟩

theorem governance_issueLem [Doubles]
    {sent : List Inline} (h : issueLem env ctx s = .ok (t, sent)) :
    t.governance = s.governance := by
  obtain ⟨config, config', hconfig, rfl, hlast, hprice⟩ := issueLem_frame h
  simp only [State.governance, hconfig, Option.map_some, hlast, hprice]

/-- A product with another total and other buyers is the same to its users. -/
theorem governance_put_product
    {id : Nat} {product : Product} (product' : Product) (stakings : Table (Name × Nat) Staking)
    (hfind : s.products.find? id = some product) (hterms : product'.terms = product.terms) :
    ({ s with products := s.products.put id product', stakings := stakings } : State).governance =
      s.governance := by
  have hsame : ∀ i, ((s.products.put id product').find? i).map Product.terms =
      (s.products.find? i).map Product.terms := by
    refine s.products.map_find?_put _ ?_
    rw [hfind, Option.map_some, hterms]
  simp only [State.governance, hsame]

theorem governance_put_game
    {id : Nat} {game game' : Betting} (hfind : s.bettings.find? id = some game)
    (hterms : game'.terms = game.terms) :
    ({ s with bettings := s.bettings.put id game' } : State).governance = s.governance := by
  have hsame : ∀ i, ((s.bettings.put id game').find? i).map Betting.terms =
      (s.bettings.find? i).map Betting.terms := by
    refine s.bettings.map_find?_put _ ?_
    rw [hfind, Option.map_some, hterms]
  simp only [State.governance, hsame]

/-- A row that is written in place of one with the same product and yield. -/
theorem yields_of_put
    {key : Name × Nat} {row : Staking} (row' : Staking) (hrow : s.stakings.find? key = some row)
    (hid : row'.productId = row.productId) (hyield : row'.currentYield = row.currentYield)
    (k : Name × Nat) (r : Staking) (hr : (s.stakings.put key row').find? k = some r) :
    ∃ row, s.stakings.find? k = some row ∧ r.productId = row.productId ∧
      r.currentYield = row.currentYield := by
  rw [Table.find?_put] at hr
  split_ifs at hr with hk
  · obtain rfl := Option.some.inj hr
    exact ⟨row, hk ▸ hrow, hid, hyield⟩
  · exact ⟨r, hr, rfl, rfl⟩

theorem Governed.of_stake [Doubles]
    {quantity : Asset} {productName : Name} {prediction : Option Name} {sent : List Inline}
    (h : stake env ctx s user quantity productName prediction = .ok (s', sent)) :
    Governed s s' := by
  obtain ⟨productId, product, config, config2, -, -, -, hproduct, -, -, hcase⟩ := stake_eq_ok h
  obtain ⟨hfind, -⟩ := findProduct_eq_some hproduct
  rcases hcase with ⟨-, -, hnew⟩ | ⟨key, row, hrow, hmore⟩
  · obtain ⟨_, _, id, currentAmount, -, -, -, -, rfl⟩ := stakeNew_eq_ok hnew
    refine ⟨governance_put_product _ _ hfind rfl, ?_⟩
    intro k r hr
    rw [Table.find?_put] at hr
    split_ifs at hr with hk
    · obtain rfl := Option.some.inj hr
      exact Or.inr ⟨product, hfind, rfl⟩
    · exact Or.inl ⟨r, hr, rfl, rfl⟩
  · obtain ⟨config', issued, _, _, _, balance, currentAmount, hissue, -, -, -, -, -, -, -, rfl,
      -⟩ := stakeMore_eq_ok hmore
    obtain ⟨hkey, -, -⟩ := findStaking_eq_some hrow
    refine ⟨?_, fun k r hr => Or.inl (yields_of_put _ hkey ?_ ?_ k r hr)⟩
    · have hput := governance_put_product (s := { s with config := config' })
        { product with currentAmount := currentAmount }
        (s.stakings.put key (renewStaking ctx product config2 row balance)) hfind rfl
      exact hput.trans (governance_issueLem hissue)
    · rfl
    · rfl

theorem Governed.of_unstake [Doubles]
    {productName : Name} {sent : List Inline}
    (h : unstake env ctx s user productName = .ok (s', sent)) : Governed s s' := by
  obtain ⟨_, _, productId, product, key, row, config', issued, _, _, _, _, currentAmount, -, -, -,
    hissue, -, hproduct, hrow, -, -, -, -, -, rfl, -⟩ := unstake_eq_ok h
  obtain ⟨hfind, -⟩ := findProduct_eq_some hproduct
  refine ⟨?_, ?_⟩
  · have hput := governance_put_product (s := { s with config := config' })
      { product with
        currentAmount := currentAmount
        buyers := product.buyers.filter fun buyer => buyer ≠ user }
      (s.stakings.erase key) hfind rfl
    exact hput.trans (governance_issueLem hissue)
  · intro k r hr
    rw [Table.find?_erase] at hr
    split_ifs at hr with hk
    exact Or.inl ⟨r, hr, rfl, rfl⟩

theorem Governed.of_claimled [Doubles]
    {productName : Name} {sent : List Inline}
    (h : claimled ctx s user productName = .ok (s', sent)) : Governed s s' := by
  obtain ⟨productId, product, key, row, amount, -, -, hrow, -, hcase⟩ := claimled_eq_ok h
  obtain ⟨hkey, -, -⟩ := findStaking_eq_some hrow
  rcases hcase with ⟨-, rfl, -⟩ | ⟨ledRewards, -, -, rfl, -⟩
  · exact .refl _
  · refine ⟨rfl, fun k r hr => Or.inl (yields_of_put _ hkey ?_ ?_ k r hr)⟩
    · rfl
    · rfl

theorem Governed.of_claimlem [Doubles]
    {productName : Name} {sent : List Inline}
    (h : claimlem env ctx s user productName = .ok (s', sent)) : Governed s s' := by
  obtain ⟨config, config', issued, productId, product, key, row, toOwnerLem, -, -, hissue, -, hrow,
    -, -, hcase⟩ := claimlem_eq_ok h
  obtain ⟨hkey, -, -⟩ := findStaking_eq_some hrow
  have hgovernance := governance_issueLem hissue
  rcases hcase with ⟨-, rfl, -⟩ | ⟨lemRewards, -, -, rfl, -⟩
  · exact .of_stakings hgovernance rfl
  · refine ⟨hgovernance, fun k r hr => Or.inl (yields_of_put _ hkey ?_ ?_ k r hr)⟩
    · rfl
    · rfl

theorem Governed.of_bet [Doubles]
    {quantity : Asset} {betId : Nat} {position : Text}
    (h : bet ctx s user quantity betId position = .ok s') : Governed s s' := by
  obtain ⟨game, side, game', -, hgame, -, -, -, hplace, rfl⟩ := bet_eq_ok h
  refine .of_stakings (governance_put_game hgame ?_) rfl
  cases side with
  | long =>
      simp only [placeBet, bind_eq_ok_iff, pure_eq_ok_iff] at hplace
      obtain ⟨_, -, rfl⟩ := hplace
      rfl
  | short =>
      simp only [placeBet, bind_eq_ok_iff, pure_eq_ok_iff] at hplace
      obtain ⟨_, -, rfl⟩ := hplace
      rfl

end Users

section Runs

variable {env : Env} {u v w w' : World} {e : Event} {h : History}

theorem StakeMove.governed [Doubles]
    {env : Env} {ctx : Ctx} {s s' : State} {a : Action} {sent : List Inline}
    (h : StakeMove env ctx s a s' sent) (ha : ¬ a.OfContract) : Governed s s' := by
  cases h with
  | stake _ _ _ h => exact .of_stake h
  | unstake h => exact .of_unstake h
  | claimled h => exact .of_claimled h
  | claimlem h => exact .of_claimlem h
  | addproduct | rmproduct | changeyield => exact absurd trivial ha

theorem GameMove.governed [Doubles]
    {env : Env} {ctx : Ctx} {s s' : State} {a : Action} {sent : List Inline}
    (h : GameMove env ctx s a s' sent) (ha : ¬ a.OfContract) : Governed s s' := by
  cases h with
  | bet _ _ _ h => exact .of_bet h
  | createbet | setbet | rmbet | claimbet => exact absurd trivial ha

theorem DexMove.governed [Doubles]
    {env : Env} {ctx : Ctx} {s s' : State} {a : Action} {sent : List Inline}
    (h : DexMove env ctx s a s' sent) (ha : ¬ a.OfContract) : Governed s s' := by
  obtain ⟨⟨hproducts, hstakings, hbettings⟩, hconfig⟩ := h.onlyDex (by
    rintro _ _ _ rfl
    exact ha trivial)
  obtain ⟨hconfig2, hfrozens, hrewards⟩ := h.keepsOffice ha
  refine .of_stakings ?_ hstakings
  simp only [State.governance, hproducts, hbettings, hconfig, hconfig2, hfrozens, hrewards]

theorem AdminMove.governed [Doubles]
    {env : Env} {ctx : Ctx} {s s' : State} {a : Action} {sent : List Inline}
    (h : AdminMove env ctx s a s' sent) (ha : ¬ a.OfContract) : Governed s s' := by
  cases h with
  | indexpair h =>
      obtain ⟨_, rfl⟩ := indexpair_eq_ok h
      exact .of_stakings rfl rfl
  | notify => exact .refl s
  | init | issuelem | setbtcprice | setledprice | freeze | unfreeze => exact absurd trivial ha

/-- A step without the authority of the contract changes nothing that it decides. -/
theorem governed_of_step [Doubles] (hstep : Step env u e v) (hauth : env.self ∉ e.ctx.auths) :
    Governed u.state v.state := by
  obtain ⟨-, hexec, -⟩ := hstep
  have huser : ¬ e.action.OfContract := fun ha => hauth (self_mem_auths hexec ha)
  cases exec_area hexec with
  | stakes move => exact move.governed huser
  | games move => exact move.governed huser
  | dex move => exact move.governed huser
  | idle stakes dex admin => exact admin.governed huser

/-- Without an action that the contract has authorised, nothing changes that only the contract
decides, in no run and from no state. -/
theorem governance_needs_contract [Doubles]
    (run : Run (Step env) w h w') (hauth : ∀ p ∈ h, env.self ∉ p.2.ctx.auths) :
    Governed w.state w'.state := by
  refine run.related_of_forall (fun p => env.self ∉ p.2.ctx.auths) (fun _ => True)
    (fun w w' => Governed w.state w'.state) ?_ ?_ ?_ ?_ hauth trivial
  · exact fun w _ => .refl w.state
  · exact fun _ _ _ _ _ _ h h' => h.trans h'
  · exact fun _ _ _ _ _ _ => trivial
  · exact fun _ _ _ hauth _ hstep => governed_of_step hstep hauth

open Binary64

/-- Alice stakes in a product that the contract has opened. -/
theorem governance_needs_contract_sample :
    ∃ w w' h, Run (Step sampleEnv) w h w' ∧ w'.state.stakings.rows.length = 1 ∧
      Governed w.state w'.state := by
  let stakes : List (Ctx × Action) :=
    [(sampleCtx 2000 "alice", sampleTransfer "alice" 10000 "stake/basic")]
  obtain ⟨⟨pre, w⟩, -, hrest⟩ := Option.bind_eq_some_iff.mp
    (show ((play (stepWith sampleEnv) sampleWorld sampleOpening).bind fun r =>
        (play (stepWith sampleEnv) r.2 stakes).map fun q => q.2.state.stakings.rows.length) =
      some 1 by decide +kernel)
  obtain ⟨h, w', hplay, hobs⟩ := exists_of_play hrest
  refine ⟨w, w', h, run_of_play (step_of_stepWith sampleEnv) _ hplay, hobs, ?_⟩
  refine governance_needs_contract (run_of_play (step_of_stepWith sampleEnv) _ hplay) ?_
  rintro ⟨u, ctx, a, sent⟩ hp
  have hmem := input_mem_of_play hplay hp
  simp only [stakes, List.mem_singleton, Prod.mk.injEq] at hmem
  obtain ⟨rfl, -⟩ := hmem
  exact show nameLiteral "lemonade.c" ∉ [nameLiteral "alice"] by decide

end Runs

end Lemonade
