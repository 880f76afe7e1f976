import Lemonade.Safety.BettingLedger
import Lemonade.Safety.StakingLedger
import Mathlib.Tactic

/-!
# Where stakes and bets come from

Stakes, product totals and game totals are paid out in tokens of led.token.  The
handler of incoming transfers is called for every token contract, and the branches
for stakes and bets do not look at the contract.  So a step is backed by led.token
exactly when its notification, if it asks for a stake or a bet, comes from there.
-/

namespace Lemonade

open Kernel

section Backed

/-- Balance of a staking row, zero if there is none. -/
def stakeAmount (s : State) (key : Name × Nat) : ℤ :=
  s.stakings.weight (fun _ row => row.balance.amount.toInt) key

/-- `current_amount` of a product, zero if there is none. -/
def productAmount (s : State) (id : Nat) : ℤ :=
  s.products.weight (fun _ p => p.currentAmount.amount.toInt) id

/-- Betting amount of a side of a game, zero if there is none. -/
def gameAmount (s : State) (side : Position) (id : Nat) : ℤ :=
  s.bettings.weight (fun _ game => (game.amount side).amount.toInt) id

/-- The event is the notification that `contract` has moved a positive `amount` to us. -/
def Pays (env : Env) (e : Event) (contract : Name) (amount : ℤ) : Prop :=
  ∃ source quantity memo, e.action = .notify contract source env.self quantity memo ∧
    quantity.amount.toInt = amount ∧ 0 < amount

/-- An amount that a step creates or increases is what led.token has just paid in. -/
def BackedBy (env : Env) (e : Event) (old new : ℤ) : Prop :=
  old < new → Pays env e ledTokenContract (new - old)

/-- Every stake and bet that the step records is backed by led.token. -/
structure Backed (env : Env) (w : World) (e : Event) (w' : World) : Prop where
  stakes : ∀ key row, w'.state.stakings.find? key = some row →
    BackedBy env e (stakeAmount w.state key) row.balance.amount.toInt
  products : ∀ id p, w'.state.products.find? id = some p →
    BackedBy env e (productAmount w.state id) p.currentAmount.amount.toInt
  games : ∀ side id game, w'.state.bettings.find? id = some game →
    BackedBy env e (gameAmount w.state side id) (game.amount side).amount.toInt
  foreign : ∀ firstReceiver source dest quantity memo,
    e.action = .notify firstReceiver source dest quantity memo →
    firstReceiver ≠ ledTokenContract →
    w'.state.stakings = w.state.stakings ∧ w'.state.products = w.state.products ∧
      w'.state.bettings = w.state.bettings

/-- If the event asks for a stake or a bet, it comes from led.token. -/
def FromLedToken (env : Env) (e : Event) : Prop :=
  ∀ firstReceiver source dest quantity memo,
    e.action = .notify firstReceiver source dest quantity memo →
    Incoming env source dest →
    Operation memo "stake" ∨ Operation memo "bet" →
    firstReceiver = ledTokenContract

end Backed

section Tables

variable {env : Env} {e : Event} {κ ρ : Type} [DecidableEq κ] {f : ρ → ℤ} {t t' : Table κ ρ}

theorem backedBy_of_le
    {old new : ℤ} (h : new ≤ old) : BackedBy env e old new := fun hlt =>
  absurd hlt (not_lt.mpr h)

theorem backedBy_of_eq
    (h : t' = t) {k : κ} {r : ρ} (hr : t'.find? k = some r) :
    BackedBy env e (t.weight (fun _ => f) k) (f r) := by
  rw [h] at hr
  rw [Table.weight_of_find? hr]
  exact backedBy_of_le (le_refl _)

theorem backedBy_of_erase
    {key : κ} (h : t' = t.erase key) {k : κ} {r : ρ} (hr : t'.find? k = some r) :
    BackedBy env e (t.weight (fun _ => f) k) (f r) := by
  rw [h, Table.find?_erase] at hr
  split_ifs at hr
  exact backedBy_of_eq rfl hr

theorem backedBy_of_put
    {key : κ} {row : ρ} (h : t' = t.put key row)
    (hkey : BackedBy env e (t.weight (fun _ => f) key) (f row))
    {k : κ} {r : ρ} (hr : t'.find? k = some r) :
    BackedBy env e (t.weight (fun _ => f) k) (f r) := by
  rw [h, Table.find?_put] at hr
  split_ifs at hr with hk
  · subst hk
    obtain rfl := Option.some.inj hr
    exact hkey
  · exact backedBy_of_eq rfl hr

/-- A row that is overwritten needs backing only for what is added to it. -/
theorem backedBy_of_find?
    {key : κ} {row row' : ρ} (hrow : t.find? key = some row)
    (h : BackedBy env e (f row) (f row')) :
    BackedBy env e (t.weight (fun _ => f) key) (f row') := by
  rw [Table.weight_of_find? hrow]
  exact h

theorem backedBy_of_add
    {source : Name} {quantity : Asset} {memo : Text} {old new : ℤ}
    (he : e.action = .notify ledTokenContract source env.self quantity memo)
    (hsum : new = old + quantity.amount.toInt) : BackedBy env e old new := by
  intro hlt
  exact ⟨source, quantity, memo, he, by omega, by omega⟩

end Tables

section Steps

variable {env : Env} {w w' : World} {e : Event}

theorem Backed.of_keeps
    (h : KeepsStakes w.state w'.state) : Backed env w e w' where
  stakes := fun _ _ => backedBy_of_eq h.2.1
  products := fun _ _ => backedBy_of_eq h.1
  games := fun _ _ _ => backedBy_of_eq h.2.2
  foreign := fun _ _ _ _ _ _ _ => ⟨h.2.1, h.1, h.2.2⟩

/-- A step on stakes that is no notification only lowers amounts. -/
theorem Backed.of_stakeMove [Doubles]
    (inv : StakingLedger w.state) (hgames : w'.state.bettings = w.state.bettings)
    (hnot : ∀ firstReceiver source dest quantity memo,
      e.action ≠ .notify firstReceiver source dest quantity memo)
    (move : StakeMove env e.ctx w.state e.action w'.state e.sent) : Backed env w e w' := by
  have hforeign : ∀ firstReceiver source dest quantity memo,
      e.action = .notify firstReceiver source dest quantity memo →
      firstReceiver ≠ ledTokenContract →
      w'.state.stakings = w.state.stakings ∧ w'.state.products = w.state.products ∧
        w'.state.bettings = w.state.bettings :=
    fun firstReceiver source dest quantity memo he => absurd he (hnot _ _ _ _ _)
  have hrest : ∀ side id game, w'.state.bettings.find? id = some game →
      BackedBy env e (gameAmount w.state side id) (game.amount side).amount.toInt :=
    fun _ _ _ => backedBy_of_eq hgames
  obtain ⟨ctx, a, sent⟩ := e
  obtain ⟨s', time⟩ := w'
  dsimp only at *
  have hrewritten : Rewritten w.state s' → Backed env w ⟨ctx, a, sent⟩ ⟨s', time⟩ := by
    intro hr
    cases hr with
    | idle products stakings =>
        exact ⟨fun _ _ => backedBy_of_eq stakings, fun _ _ => backedBy_of_eq products, hrest,
          hforeign⟩
    | row find _ _ same _ products stakings =>
        refine ⟨?_, fun _ _ => backedBy_of_eq products, hrest, hforeign⟩
        intro k r
        refine backedBy_of_put stakings (backedBy_of_find? find (backedBy_of_le ?_))
        rw [same.balance]
  cases move with
  | addproduct h =>
      obtain ⟨id, p, -, hfresh, -, hzero, -, -, -, -, rfl⟩ := addproduct_eq_ok h
      refine ⟨?_, ?_, hrest, hforeign⟩
      · exact fun _ _ => backedBy_of_eq rfl
      · intro k q
        refine backedBy_of_put rfl ?_
        rw [Table.weight_of_find?_none hfresh, hzero]
        exact backedBy_of_le (le_refl _)
  | rmproduct h =>
      obtain ⟨id, p, -, -, -, rfl⟩ := rmproduct_eq_ok h
      exact ⟨fun _ _ => backedBy_of_eq rfl, fun _ _ => backedBy_of_erase rfl, hrest, hforeign⟩
  | stake => exact absurd rfl (hnot _ _ _ _ _)
  | unstake h =>
      obtain ⟨id, p, key, row, _, total, -, hproduct, hrow, htotal, rfl⟩ := unstake_tables h
      obtain ⟨hp, -⟩ := findProduct_eq_some hproduct
      obtain ⟨hfind, -, rfl⟩ := findStaking_eq_some hrow
      obtain ⟨q, -, hstake⟩ := inv.stake _ row hfind
      obtain ⟨-, hrange, rfl⟩ := Asset.sub_eq_ok_iff.mp htotal
      have hpos := hstake.positive_toInt
      refine ⟨fun _ _ => backedBy_of_erase rfl, ?_, hrest, hforeign⟩
      intro k q
      refine backedBy_of_put rfl (backedBy_of_find? hp (backedBy_of_le ?_))
      rw [toInt_sub_of_inRange_right hstake.inRange hrange]
      omega
  | claimled h => exact hrewritten (claimled_rewritten h)
  | claimlem h => exact hrewritten (claimlem_rewritten h)
  | changeyield h => exact hrewritten (changeyield_rewritten h)

theorem Backed.of_gameMove [Doubles]
    (hstakings : w'.state.stakings = w.state.stakings)
    (hproducts : w'.state.products = w.state.products)
    (hnot : ∀ firstReceiver source dest quantity memo,
      e.action ≠ .notify firstReceiver source dest quantity memo)
    (move : GameMove env e.ctx w.state e.action w'.state e.sent) : Backed env w e w' := by
  refine ⟨fun _ _ => backedBy_of_eq hstakings, fun _ _ => backedBy_of_eq hproducts, ?_,
    fun _ _ _ _ _ he => absurd he (hnot _ _ _ _ _)⟩
  obtain ⟨ctx, a, sent⟩ := e
  obtain ⟨s', time⟩ := w'
  dsimp only at *
  intro side
  cases move with
  | createbet h =>
      obtain ⟨id, game, hfresh, -, hzero, -, -, rfl⟩ := createbet_eq_ok h
      intro k g
      refine backedBy_of_put rfl ?_
      rw [Table.weight_of_find?_none hfresh, hzero]
      exact backedBy_of_le (le_refl _)
  | setbet h =>
      obtain ⟨game, hgame, ⟨rfl, -⟩ | ⟨_, _, _, -, -, -, -, rfl, -⟩ | ⟨_, -, -, -, rfl, -⟩⟩ :=
        setbet_eq_ok h
      · exact fun _ _ => backedBy_of_eq rfl
      · intro k g
        refine backedBy_of_put rfl (backedBy_of_find? hgame ?_)
        rw [Betting.moved_amount]
        exact backedBy_of_le (le_refl _)
      · intro k g
        refine backedBy_of_put rfl (backedBy_of_find? hgame ?_)
        rw [Betting.moved_amount]
        exact backedBy_of_le (le_refl _)
  | rmbet h =>
      obtain ⟨game, -, -, rfl⟩ := rmbet_eq_ok h
      exact fun _ _ => backedBy_of_erase rfl
  | claimbet h =>
      obtain ⟨game, hgame, -, -, rfl⟩ := claimbet_eq_ok h
      intro k g
      refine backedBy_of_put rfl (backedBy_of_find? hgame ?_)
      rw [Betting.moved_amount]
      exact backedBy_of_le (le_refl _)
  | bet => exact absurd rfl (hnot _ _ _ _ _)

variable {source dest : Name} {quantity : Asset} {memo : Text}

/-- A stake that led.token has paid for. -/
theorem Backed.of_stake [Doubles]
    {productName : Name} {pricePrediction : Option Name}
    (he : e.action = .notify ledTokenContract source env.self quantity memo)
    (hgames : w'.state.bettings = w.state.bettings)
    (h : stake env e.ctx w.state source quantity productName pricePrediction =
      .ok (w'.state, e.sent)) : Backed env w e w' := by
  obtain ⟨id, p, _, _, -, hvalid, -, hproduct, -, -, h⟩ := stake_eq_ok h
  obtain ⟨hp, -⟩ := findProduct_eq_some hproduct
  have hforeign : ∀ firstReceiver source' dest' quantity' memo',
      e.action = .notify firstReceiver source' dest' quantity' memo' →
      firstReceiver ≠ ledTokenContract →
      w'.state.stakings = w.state.stakings ∧ w'.state.products = w.state.products ∧
        w'.state.bettings = w.state.bettings := by
    intro _ _ _ _ _ he' hne
    rw [he, Action.notify.injEq] at he'
    exact absurd he'.1.symm hne
  obtain ⟨s', time⟩ := w'
  dsimp only at *
  rcases h with ⟨hnone, -, h⟩ | ⟨key, row, hrow, h⟩
  · obtain ⟨_, _, i, total, -, -, hfresh, hadd, rfl⟩ := stakeNew_eq_ok h
    obtain ⟨-, hrange, rfl⟩ := Asset.add_eq_ok_iff.mp hadd
    refine ⟨?_, ?_, fun _ _ _ => backedBy_of_eq hgames, hforeign⟩
    · intro k r
      refine backedBy_of_put rfl ?_
      rw [Table.weight_of_find?_none hfresh]
      exact backedBy_of_add he (by simp [newStaking])
    · intro k q
      refine backedBy_of_put rfl (backedBy_of_find? hp ?_)
      exact backedBy_of_add he (toInt_add_of_inRange_right hvalid.1 hrange)
  · obtain ⟨_, _, _, _, _, balance, total, -, -, -, -, -, -, hbalance, htotal, rfl, -⟩ :=
      stakeMore_eq_ok h
    obtain ⟨hfind, -, -⟩ := findStaking_eq_some hrow
    obtain ⟨-, hrange, rfl⟩ := Asset.add_eq_ok_iff.mp hbalance
    obtain ⟨-, hrange', rfl⟩ := Asset.add_eq_ok_iff.mp htotal
    refine ⟨?_, ?_, fun _ _ _ => backedBy_of_eq hgames, hforeign⟩
    · intro k r
      refine backedBy_of_put rfl (backedBy_of_find? hfind ?_)
      exact backedBy_of_add he (toInt_add_of_inRange_right hvalid.1 hrange)
    · intro k q
      refine backedBy_of_put rfl (backedBy_of_find? hp ?_)
      exact backedBy_of_add he (toInt_add_of_inRange_right hvalid.1 hrange')

/-- A bet that led.token has paid for. -/
theorem Backed.of_bet [Doubles]
    {betId : Nat} {position : Text}
    (ok : GamesOk w.state)
    (he : e.action = .notify ledTokenContract source env.self quantity memo)
    (hproducts : w'.state.products = w.state.products)
    (hstakings : w'.state.stakings = w.state.stakings)
    (h : bet e.ctx w.state source quantity betId position = .ok w'.state) :
    Backed env w e w' := by
  obtain ⟨game, side, game', -, hgame, -, -, -, hplace, hstate⟩ := bet_eq_ok h
  obtain ⟨hadd, -, hother, -, -⟩ := placeBet_eq_ok hplace
  obtain ⟨-, hrange, hamount⟩ := Asset.add_eq_ok_iff.mp hadd
  refine ⟨fun _ _ => backedBy_of_eq hstakings, fun _ _ => backedBy_of_eq hproducts, ?_, ?_⟩
  · intro side' k g
    refine backedBy_of_put (congrArg State.bettings hstate) (backedBy_of_find? hgame ?_)
    rcases side.eq_or_eq_opposite side' with rfl | rfl
    · refine backedBy_of_add he ?_
      rw [hamount]
      exact toInt_add_of_inRange ((ok _ game hgame).inRange _) hrange
    · rw [hother]
      exact backedBy_of_le (le_refl _)
  · intro _ _ _ _ _ he' hne
    rw [he, Action.notify.injEq] at he'
    exact absurd he'.1.symm hne

/-- A stake changes the stakes of the contract. -/
theorem stakings_ne_of_stake [Doubles]
    {ctx : Ctx} {s s' : State} {sent : List Inline} {productName : Name}
    {pricePrediction : Option Name}
    (h : stake env ctx s source quantity productName pricePrediction = .ok (s', sent)) :
    s'.stakings ≠ s.stakings := by
  obtain ⟨id, p, _, _, -, hvalid, hpos, -, -, -, h⟩ := stake_eq_ok h
  intro hsame
  rcases h with ⟨-, -, h⟩ | ⟨key, row, hrow, h⟩
  · obtain ⟨_, _, i, _, -, -, hfresh, -, rfl⟩ := stakeNew_eq_ok h
    rw [← hsame] at hfresh
    simp at hfresh
  · obtain ⟨_, balance, _, hbalance, -, rfl⟩ := stakeMore_tables h
    obtain ⟨hfind, -, -⟩ := findStaking_eq_some hrow
    obtain ⟨-, hrange, rfl⟩ := Asset.add_eq_ok_iff.mp hbalance
    have hsum := toInt_add_of_inRange_right hvalid.1 hrange
    have hrow' := congrArg (fun t => t.find? key) hsame
    simp only [Table.find?_put_self, hfind, Option.some.injEq] at hrow'
    have hamount := congrArg (fun r : Staking => r.balance.amount.toInt) hrow'
    simp only [renewStaking, hsum] at hamount
    have hpos' : 0 < quantity.amount.toInt := Int64.lt_iff_toInt_lt.mp hpos
    omega

/-- A bet changes the games of the contract. -/
theorem bettings_ne_of_bet [Doubles]
    {ctx : Ctx} {s s' : State} {betId : Nat} {position : Text}
    (h : bet ctx s source quantity betId position = .ok s') :
    s'.bettings ≠ s.bettings := by
  obtain ⟨game, side, game', -, hgame, -, -, -, hplace, rfl⟩ := bet_eq_ok h
  obtain ⟨-, hbetters, -, -, -⟩ := placeBet_eq_ok hplace
  intro hsame
  have hrow := congrArg (fun t => t.find? betId) hsame
  simp only [Table.find?_put_self, hgame, Option.some.injEq] at hrow
  rw [hrow] at hbetters
  simp at hbetters

theorem Step.backed_of_fromLedToken [Doubles]
    (hstakes : StakingLedger w.state) (hgames : GamesOk w.state)
    (h : Step env w e w') (hled : FromLedToken env e) : Backed env w e w' := by
  by_cases hnotify : ∃ firstReceiver source dest quantity memo,
      e.action = .notify firstReceiver source dest quantity memo
  · obtain ⟨fr, source, dest, quantity, memo, he⟩ := hnotify
    have hexec := h.2.1
    rw [he] at hexec
    obtain ⟨hsame, -, -⟩ | ⟨hin, hop⟩ := transferEvent_eq_ok hexec
    · refine .of_keeps ?_
      rw [hsame]
      exact .refl _
    · have hfrom := hled fr source dest quantity memo he hin
      obtain rfl := hin.1
      rcases hop with ⟨_, _, hop, -, hok⟩ | ⟨_, _, hop, -, -, hok⟩ | ⟨-, -, hok⟩ | ⟨_, _, -, -, hok⟩
      · obtain rfl := hfrom (Or.inl hop)
        exact .of_stake he (stake_keeps hok).2 hok
      · obtain rfl := hfrom (Or.inr hop)
        obtain ⟨_, _, _, -, -, -, -, -, -, hstate⟩ := bet_eq_ok hok
        exact .of_bet hgames he (by rw [hstate]) (by rw [hstate]) hok
      · exact .of_keeps (addSignedExtBalance_onlyDex hok).1
      · obtain ⟨_, _, _, -, hswap, -⟩ := memoexchange_eq_ok hok
        exact .of_keeps hswap.onlyDex.1
  · have hnot : ∀ firstReceiver source dest quantity memo,
        e.action ≠ .notify firstReceiver source dest quantity memo :=
      fun fr source dest quantity memo he => hnotify ⟨fr, source, dest, quantity, memo, he⟩
    cases exec_area h.2.1 with
    | stakes move _ games => exact .of_stakeMove hstakes games hnot move
    | games move _ products stakings => exact .of_gameMove stakings products hnot move
    | dex _ stakes => exact .of_keeps stakes
    | idle stakes => exact .of_keeps stakes

theorem Step.fromLedToken_of_backed [Doubles]
    (h : Step env w e w') (hbacked : Backed env w e w') : FromLedToken env e := by
  intro fr source dest quantity memo he hin hop
  by_contra hne
  obtain ⟨hstakings, -, hbettings⟩ := hbacked.foreign fr source dest quantity memo he hne
  have hexec := h.2.1
  rw [he] at hexec
  obtain ⟨-, -, hnot⟩ | ⟨-, hcase⟩ := transferEvent_eq_ok hexec
  · refine hnot ⟨hin, ?_⟩
    rcases hop with hop | hop
    · exact Or.inl hop
    · exact Or.inr (Or.inl hop)
  · rcases hcase with ⟨_, _, -, -, hok⟩ | ⟨_, _, -, -, -, hok⟩ | ⟨hdeposit, -, -⟩ |
      ⟨_, _, hexchange, -, -⟩
    · exact stakings_ne_of_stake hok hstakings
    · exact bettings_ne_of_bet hok hbettings
    · rcases hop with hop | hop
      · exact absurd (hop.unique hdeposit) (by decide)
      · exact absurd (hop.unique hdeposit) (by decide)
    · rcases hop with hop | hop
      · exact absurd (hop.unique hexchange) (by decide)
      · exact absurd (hop.unique hexchange) (by decide)

end Steps

section Runs

variable {env : Env} {w w' : World} {h : History}

/-- In a run every step is backed by led.token iff every notification that asks for a
stake or a bet comes from there. -/
theorem stakes_backed_iff_fromLedToken [Doubles]
    (hw : w.Genesis) (run : Run (Step env) w h w') :
    (∀ p ∈ h, ∀ v, Step env p.1 p.2 v → Backed env p.1 p.2 v) ↔
      ∀ p ∈ h, FromLedToken env p.2 := by
  have hcut : ∀ p ∈ h, Reaches env p.1 ∧ ∃ v, Step env p.1 p.2 v := by
    rintro ⟨u, e⟩ hp
    obtain ⟨pre, _, v, -, hpre, hstep, -⟩ := run.exists_of_mem hp
    exact ⟨⟨w, pre, hw, hpre⟩, v, hstep⟩
  constructor
  · intro hbacked p hp
    obtain ⟨-, v, hstep⟩ := hcut p hp
    exact hstep.fromLedToken_of_backed (hbacked p hp v hstep)
  · intro hled p hp v hstep
    obtain ⟨hreach, -⟩ := hcut p hp
    exact hstep.backed_of_fromLedToken (stakingLedger_of_reaches hreach)
      (gamesOk_of_reaches hreach) (hled p hp)

open Binary64

/-- A run of stakes and claims that only led.token takes part in. -/
theorem stakes_backed_iff_fromLedToken_sample :
    ∃ w h, Run (Step sampleEnv) sampleWorld h w ∧ staked w.state 0 = 10000 ∧
      ∀ p ∈ h, ∀ v, Step sampleEnv p.1 p.2 v → Backed sampleEnv p.1 p.2 v := by
  obtain ⟨h, w, hplay, hstaked⟩ := exists_of_play
    (show (play (stepWith sampleEnv) sampleWorld (sampleOpening ++
        [(sampleCtx 2000 "alice", sampleTransfer "alice" 10000 "stake/basic")])).map
        (fun r => staked r.2.state 0) = some 10000 by decide +kernel)
  have hrun := run_of_play (step_of_stepWith sampleEnv) _ hplay
  refine ⟨w, h, hrun, hstaked, (stakes_backed_iff_fromLedToken sampleWorld_genesis hrun).mpr ?_⟩
  intro p hp fr source dest quantity memo he _ _
  have hmem := input_mem_of_play hplay hp
  rw [he] at hmem
  simp only [sampleOpening, sampleTransfer, List.cons_append, List.nil_append, List.mem_cons,
    Prod.mk.injEq, reduceCtorEq, and_false, Action.notify.injEq, List.not_mem_nil, or_false,
    false_or] at hmem
  exact hmem.2.1

/-- A contract that issues its own LED records a stake that led.token pays out. -/
theorem stakes_not_backed_by_foreign_token :
    ¬ ∀ (env : Env) (w w' : World) (h : History), w.Genesis → Run (Step env) w h w' →
      ∀ p ∈ h, ∀ v, Step env p.1 p.2 v → Backed env p.1 p.2 v := by
  intro hall
  let forged : Ctx × Action := (sampleCtx 2000 "mallory",
    .notify (nameLiteral "faketoken") (nameLiteral "mallory") (nameLiteral "lemonade.c")
      ⟨10000, ledSymbol⟩ "stake/basic".toList)
  obtain ⟨h, w, hplay, hobs⟩ := exists_of_play
    (show (play (stepWith sampleEnv) sampleWorld sampleOpening).map (fun r =>
        (r.2.state.stakings.rows.length,
          (stepWith sampleEnv r.2 forged).map fun x => x.2.state.stakings.rows.length)) =
      some (0, some 1) by decide +kernel)
  obtain ⟨hbefore, hafter⟩ := Prod.mk.inj hobs
  obtain ⟨⟨e, v⟩, hstep, hlen⟩ := Option.map_eq_some_iff.mp hafter
  have hrun := run_of_play (step_of_stepWith sampleEnv) _ hplay
  have hstep' := step_of_stepWith _ _ _ _ _ hstep
  have hbacked := hall sampleEnv sampleWorld v (h ++ [(w, e)]) sampleWorld_genesis
    (hrun.snoc hstep') (w, e) (by simp) v hstep'
  have haction : e.action = forged.2 :=
    congrArg Prod.snd (input_of_stepWith _ _ _ _ _ hstep)
  have hsame := (hbacked.foreign _ _ _ _ _ haction (by decide +kernel)).1
  rw [hsame] at hlen
  exact absurd (hbefore.symm.trans hlen) (by decide)

end Runs

end Lemonade
