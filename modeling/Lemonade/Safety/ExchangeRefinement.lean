import Lemonade.Safety.DexTrades
import Mathlib.Tactic

/-!
# The contract is an exchange

Every event of the contract stands for a short list of deals, which `StandsFor` reads off
its action, and the contract makes exactly these deals in its books.  So runs of the
contract are runs of the exchange, and what holds over all runs of an exchange holds of
the contract.
-/

namespace Lemonade

open Kernel

section Steps

/-- Deals on the exchange of the contract. -/
abbrev DexDeal := Deal Name ExtendedSymbol SymbolCode

/-- A swap of a deposit: the fee is booked, and the rest of the input is swapped. -/
def Sells [Doubles] (s : State) (user : Name) (code : SymbolCode) (input : ExtendedAsset)
    (deals : List DexDeal) : Prop :=
  ∃ token first out, s.stats.find? code = some token ∧
    input.extendedSymbol = token.sides first ∧ deals =
    [.accrue code first input.extendedSymbol (feeCredit token first input),
      .swap user code first (netOf input.quantity.amount.toInt) out]

/-- A swap of tokens that come in: the rest of the input is paid in and swapped, and the output
is paid out. -/
def PassesThrough [Doubles] (s : State) (source : Name) (code : SymbolCode) (input : ExtendedAsset)
    (sent : List Inline) (deals : List DexDeal) : Prop :=
  ∃ token first memo, ∃ out : ExtendedAsset, s.stats.find? code = some token ∧
    input.extendedSymbol = token.sides first ∧
    sent = [.transfer out.contract source out.quantity memo] ∧ deals =
    [.accrue code first input.extendedSymbol (feeCredit token first input),
      .settle source input.extendedSymbol (netOf input.quantity.amount.toInt),
      .swap source code first (netOf input.quantity.amount.toInt) out.quantity.amount.toInt,
      .settle source out.extendedSymbol (-out.quantity.amount.toInt)]

/-- The pool that a memo names. -/
def memoPair (memo : Text) : Result SymbolCode := do
  let pairToken ← field (memoParser memo) 1
  SymbolCode.ofText pairToken

/-- The deals that an event stands for. -/
def StandsFor [Doubles] (env : Env) (p : World × Event) (deals : List DexDeal) : Prop :=
  match p.2.action with
  | .transfer source dest quantity _ =>
      deals = [.send source dest quantity.symbol.code quantity.amount.toInt]
  | .closeext user _ sym _ => deals = [.settle user sym (-depositOf p.1.state user sym)]
  | .withdraw user _ toWithdraw _ =>
      deals = [.settle user toWithdraw.extendedSymbol (-toWithdraw.quantity.amount.toInt)]
  | .addliquidity user toBuy _ _ =>
      ∃ pay, deals = [.subscribe user toBuy.symbol.code toBuy.amount.toInt pay]
  | .rmliquidity user toSell _ _ =>
      ∃ pay, deals = [.subscribe user toSell.symbol.code (-toSell.amount.toInt) pay]
  | .exchange user pairToken input _ => Sells p.1.state user pairToken input deals
  | .exchangeall user pairToken sym =>
      ∃ key balance, findDexacnt p.1.state user sym = some (key, balance) ∧
        Sells p.1.state user pairToken balance deals
  | .inittoken user newSymbol initialPool1 initialPool2 =>
      ∃ shares, deals =
        (if user = nameLiteral "lemonade.c" then [] else
          [.settle user createPoolFee.extendedSymbol (-createPoolFee.quantity.amount.toInt)]) ++
        [.launch user newSymbol.code
          (fun first => (stock initialPool1 initialPool2 first).extendedSymbol)
          (fun first => (stock initialPool1 initialPool2 first).quantity.amount.toInt) shares]
  | .rmpool _ lpSymbol => deals = [.wind lpSymbol.code]
  | .clmpoolreward text _ _ =>
      ∃ code, SymbolCode.ofText text = .ok code ∧ deals = [.distribute code]
  | .notify firstReceiver source dest quantity memo =>
      if Incoming env source dest ∧ Operation memo "deposit" then
        deals = [.settle source ⟨quantity.symbol, firstReceiver⟩ quantity.amount.toInt]
      else if Incoming env source dest ∧ DexMemo memo then
        ∃ code, memoPair memo = .ok code ∧
          PassesThrough p.1.state source code ⟨quantity, firstReceiver⟩ p.2.sent deals
      else deals = []
  | _ => deals = []

variable {env : Env} {ctx : Ctx} {u v : World} {e : Event} {s s' : State}

theorem memoexchange_of_transferEvent [Doubles]
    {firstReceiver source dest : Name} {quantity : Asset} {memo : Text} {sent : List Inline}
    (incoming : Incoming env source dest) (operation : Operation memo "exchange")
    (fields : 3 ≤ (memoParser memo).length)
    (h : transferEvent env ctx s firstReceiver source dest quantity memo = .ok (s', sent)) :
    ∃ code minExpected, memoPair memo = .ok code ∧
      memoexchange env s source ⟨quantity, firstReceiver⟩ code minExpected = .ok (s', sent) := by
  have hop : ∀ {α : Type} (f : Text → Result α),
      (field (memoParser memo) 0 >>= f) = f "exchange".toList := by
    intro α f
    rw [show field (memoParser memo) 0 = .ok "exchange".toList from operation]
    rfl
  unfold transferEvent at h
  rw [if_neg (not_not.mpr incoming.1), if_neg incoming.2] at h
  dsimp only at h
  rw [hop, if_neg (by decide), if_neg (by decide), if_neg (by decide), if_pos rfl,
    if_pos fields] at h
  simp only [bind_eq_ok_iff] at h
  obtain ⟨_, -, pairToken, hpair, code, hcode, _, -, minExpected, -, h⟩ := h
  refine ⟨code, minExpected, ?_, h⟩
  simp only [memoPair, bind_eq_ok_iff]
  exact ⟨pairToken, hpair, hcode⟩

/-- Steps that leave the books alone. -/
theorem idle_deals (h : s'.asExchange = s.asExchange) :
    ∃ tr : List (Dex × DexDeal), tr.map Prod.snd = [] ∧
      Run Exchange.Trade s.asExchange tr s'.asExchange := by
  refine ⟨[], rfl, ?_⟩
  rw [h]
  exact .nil

theorem single_deal {d : DexDeal} (h : s.asExchange.Trade d s'.asExchange) :
    ∃ tr : List (Dex × DexDeal), tr.map Prod.snd = [d] ∧
      Run Exchange.Trade s.asExchange tr s'.asExchange :=
  ⟨[(s.asExchange, d)], rfl, .single h⟩

/-- Opening a row without shares, or closing it, makes no entry. -/
theorem asExchange_tokenOpen
    {owner ramPayer : Name} {symbol : Symbol}
    (h : tokenOpen ctx s owner symbol ramPayer = .ok s') : s'.asExchange = s.asExchange := by
  rcases tokenOpen_eq_ok h with rfl | ⟨hnone, rfl⟩
  · rfl
  · refine asExchange_of_same rfl (shareBooks_of_weight (Or.inr (Or.inl ?_))) rfl
    exact ⟨_, _, hnone, rfl⟩

theorem asExchange_tokenClose
    {owner : Name} {symbol : Symbol}
    (h : tokenClose ctx s owner symbol = .ok s') : s'.asExchange = s.asExchange := by
  obtain ⟨balance, -, hrow, hzero, rfl⟩ := tokenClose_eq_ok h
  refine asExchange_of_same rfl (shareBooks_of_weight (Or.inr (Or.inr ?_))) rfl
  exact ⟨_, balance, hrow, hzero, rfl⟩

theorem asExchange_openext
    {user : Name} {extSymbol : ExtendedSymbol}
    (h : openext env ctx s user extSymbol = .ok s') : s'.asExchange = s.asExchange := by
  rcases openext_eq_ok h with rfl | ⟨id, -, hfresh, rfl⟩
  · rfl
  · refine Exchange.ext ?_ rfl
    simp only [State.asExchange, depositBooks, Table.sum_put, Table.weight_of_find?_none hfresh]
    simp

/-- The two deals of a swap from a deposit. -/
theorem deals_of_exchange [Doubles]
    {user : Name} {code : SymbolCode} {input : ExtendedAsset} {minExpected : Asset}
    (inv : LpLedger s) (h : exchange env ctx s user code input minExpected = .ok s') :
    ∃ tr : List (Dex × DexDeal), Sells s user code input (tr.map Prod.snd) ∧
      Run Exchange.Trade s.asExchange tr s'.asExchange := by
  obtain ⟨token, first, ex, out, htoken, hsym, hfee, hswap⟩ := trade_exchange inv h
  exact ⟨[(s.asExchange, _), (ex, _)], ⟨token, first, out, htoken, hsym, rfl⟩,
    .cons hfee (.single hswap)⟩

theorem deals_of_inittoken [Doubles]
    {user : Name} {newSymbol : Symbol} {initialPool1 initialPool2 : ExtendedAsset}
    (inv : LpLedger u.state)
    (h : inittoken env ctx u.state user newSymbol initialPool1 initialPool2 = .ok v.state) :
    ∃ tr : List (Dex × DexDeal),
      StandsFor env (u, ⟨ctx, .inittoken user newSymbol initialPool1 initialPool2, []⟩)
        (tr.map Prod.snd) ∧ Run Exchange.Trade u.state.asExchange tr v.state.asExchange := by
  obtain ⟨s₁, shares, hfee, hlaunch⟩ := trade_inittoken inv h
  unfold payPoolFee at hfee
  by_cases huser : user = nameLiteral "lemonade.c"
  · rw [if_neg (not_not.mpr huser)] at hfee
    obtain rfl := Except.ok.inj hfee
    refine ⟨[(u.state.asExchange, _)], ⟨shares, ?_⟩, .single hlaunch⟩
    rw [if_pos huser]
    rfl
  · rw [if_pos huser] at hfee
    refine ⟨[(u.state.asExchange, _), (s₁.asExchange, _)], ⟨shares, ?_⟩,
      .cons (trade_settle_debit inv hfee) (.single hlaunch)⟩
    rw [if_neg huser]
    rfl

/-- Notifications that ask for something else make no deals. -/
theorem standsFor_of_other_memo [Doubles]
    {firstReceiver source dest : Name} {quantity : Asset} {memo : Text} {sent : List Inline}
    {deals : List DexDeal}
    (hother : ¬ (Incoming env source dest ∧ DexMemo memo)) (hdeals : deals = []) :
    StandsFor env (u, ⟨ctx, .notify firstReceiver source dest quantity memo, sent⟩) deals := by
  have hdeposit : ¬ (Incoming env source dest ∧ Operation memo "deposit") :=
    fun h => hother ⟨h.1, Or.inl h.2⟩
  unfold StandsFor
  dsimp only
  rw [if_neg hdeposit, if_neg hother]
  exact hdeals

theorem deals_of_notify [Doubles]
    {firstReceiver source dest : Name} {quantity : Asset} {memo : Text} {sent : List Inline}
    (inv : LpLedger u.state)
    (h : transferEvent env ctx u.state firstReceiver source dest quantity memo =
      .ok (v.state, sent)) :
    ∃ tr : List (Dex × DexDeal),
      StandsFor env (u, ⟨ctx, .notify firstReceiver source dest quantity memo, sent⟩)
        (tr.map Prod.snd) ∧ Run Exchange.Trade u.state.asExchange tr v.state.asExchange := by
  have hother : ∀ operation : String, Operation memo operation →
      operation.toList ≠ "deposit".toList → operation.toList ≠ "exchange".toList →
      ¬ (Incoming env source dest ∧ DexMemo memo) := by
    rintro operation hop h1 h2 ⟨-, hdex | ⟨hdex, -⟩⟩
    · exact h1 (hop.unique hdex)
    · exact h2 (hop.unique hdex)
  rcases transferEvent_eq_ok h with ⟨hsame, -, hnot⟩ | ⟨hin, hcase⟩
  · obtain ⟨tr, htr, hrun⟩ := idle_deals (congrArg State.asExchange hsame)
    refine ⟨tr, standsFor_of_other_memo (fun hdex => ?_) htr, hrun⟩
    exact hnot ⟨hdex.1, Or.inr (Or.inr hdex.2)⟩
  rcases hcase with ⟨_, _, hop, -, hok⟩ | ⟨_, _, hop, -, -, hok⟩ | ⟨hop, rfl, hok⟩ |
    ⟨_, _, hop, hlen, -⟩
  · obtain ⟨tr, htr, hrun⟩ := idle_deals (asExchange_of_keepsDex (stake_keeps hok).1)
    exact ⟨tr, standsFor_of_other_memo (hother _ hop (by decide) (by decide)) htr, hrun⟩
  · obtain ⟨_, _, _, -, -, -, -, -, -, hstate⟩ := bet_eq_ok hok
    have hkeep : v.state.asExchange = u.state.asExchange := by
      rw [hstate]
      rfl
    obtain ⟨tr, htr, hrun⟩ := idle_deals hkeep
    exact ⟨tr, standsFor_of_other_memo (hother _ hop (by decide) (by decide)) htr, hrun⟩
  · refine ⟨[(_, _)], ?_, .single (trade_settle inv hok)⟩
    unfold StandsFor
    dsimp only
    rw [if_pos ⟨hin, hop⟩]
    rfl
  · have hdeposit : ¬ (Incoming env source dest ∧ Operation memo "deposit") :=
      fun hdep => absurd (hop.unique hdep.2) (by decide)
    obtain ⟨code, minExpected, hcode, hmemo⟩ := memoexchange_of_transferEvent hin hop hlen h
    obtain ⟨token, first, ex₁, ex₂, ex₃, out, htoken, hsym, ⟨text, hsent⟩, h1, h2, h3, h4⟩ :=
      trade_memoexchange inv hmemo
    refine ⟨[(_, _), (_, _), (_, _), (_, _)], ?_, .cons h1 (.cons h2 (.cons h3 (.single h4)))⟩
    unfold StandsFor
    dsimp only
    rw [if_neg hdeposit, if_pos ⟨hin, Or.inr ⟨hop, hlen⟩⟩]
    exact ⟨code, hcode, token, first, text, out, htoken, hsym, hsent, rfl⟩

/-- A step of the contract makes the deals that its event stands for. -/
theorem deals_of_step [Doubles] (inv : LpLedger u.state) (hstep : Step env u e v) :
    ∃ tr : List (Dex × DexDeal), StandsFor env (u, e) (tr.map Prod.snd) ∧
      Run Exchange.Trade u.state.asExchange tr v.state.asExchange := by
  by_cases hon : e.action.OnExchange
  · obtain ⟨-, hexec, -⟩ := hstep
    obtain ⟨ctx, a, sent⟩ := e
    dsimp only at *
    cases a with
    | transfer source dest quantity memo =>
        obtain ⟨hok, rfl⟩ := silent_eq_ok_iff.mp hexec
        exact single_deal (trade_send inv hok)
    | tokenOpen owner symbol ramPayer =>
        obtain ⟨hok, rfl⟩ := silent_eq_ok_iff.mp hexec
        exact idle_deals (asExchange_tokenOpen hok)
    | tokenClose owner symbol =>
        obtain ⟨hok, rfl⟩ := silent_eq_ok_iff.mp hexec
        exact idle_deals (asExchange_tokenClose hok)
    | openext user extSymbol =>
        obtain ⟨hok, rfl⟩ := silent_eq_ok_iff.mp hexec
        exact idle_deals (asExchange_openext hok)
    | closeext user dest extSymbol memo => exact single_deal (trade_closeext inv hexec)
    | withdraw user dest toWithdraw memo =>
        obtain ⟨-, -, hadd, -⟩ := withdraw_eq_ok hexec
        exact single_deal (trade_settle_debit inv hadd)
    | addliquidity user toBuy maxAsset1 maxAsset2 =>
        obtain ⟨hok, rfl⟩ := silent_eq_ok_iff.mp hexec
        obtain ⟨pay, htrade⟩ := trade_subscribe inv (addliquidity_eq_ok hok).2.2
        exact ⟨[(_, _)], ⟨pay, rfl⟩, .single htrade⟩
    | rmliquidity user toSell minAsset1 minAsset2 =>
        obtain ⟨hok, rfl⟩ := silent_eq_ok_iff.mp hexec
        obtain ⟨-, hpos, hliq⟩ := rmliquidity_eq_ok hok
        obtain ⟨pay, htrade⟩ := trade_subscribe inv hliq
        have hneg : toSell.neg.amount.toInt = -toSell.amount.toInt :=
          toInt_neg_of_nonneg (Int64.le_of_lt hpos)
        refine ⟨[(_, _)], ⟨pay, ?_⟩, .single htrade⟩
        rw [← hneg]
        rfl
    | exchange user pairToken extAssetIn minExpected =>
        obtain ⟨hok, rfl⟩ := silent_eq_ok_iff.mp hexec
        exact deals_of_exchange inv hok
    | exchangeall user pairToken assetIn =>
        obtain ⟨hok, rfl⟩ := silent_eq_ok_iff.mp hexec
        obtain ⟨token, key, balance, -, hrow, hall⟩ := exchangeall_eq_ok hok
        obtain ⟨tr, hsells, hrun⟩ := deals_of_exchange inv hall
        exact ⟨tr, ⟨key, balance, hrow, hsells⟩, hrun⟩
    | inittoken user newSymbol initialPool1 initialPool2 =>
        obtain ⟨hok, rfl⟩ := silent_eq_ok_iff.mp hexec
        exact deals_of_inittoken inv hok
    | rmpool user lpSymbol =>
        obtain ⟨hok, rfl⟩ := silent_eq_ok_iff.mp hexec
        exact single_deal (trade_rmpool inv hok)
    | clmpoolreward text total pool =>
        obtain ⟨code, hcode, htrade⟩ := trade_clmpoolreward hexec
        exact ⟨[(_, _)], ⟨code, hcode, rfl⟩, .single htrade⟩
    | notify firstReceiver source dest quantity memo => exact deals_of_notify inv hexec
    | _ => exact hon.elim
  · obtain ⟨tr, htr, hrun⟩ :=
      idle_deals (asExchange_of_keepsDex (keepsDex_of_not_onExchange hstep hon))
    refine ⟨tr, ?_, hrun⟩
    rw [htr]
    obtain ⟨ctx, a, sent⟩ := e
    cases a <;> first | rfl | exact absurd trivial hon

end Steps

section Runs

variable {env : Env} {w w' : World} {h : History}

theorem lpLedger_of_genesis (hw : w.Genesis) : LpLedger w.state := by
  rw [hw]
  exact LpLedger.empty

theorem asExchange_of_genesis (hw : w.Genesis) : w.state.asExchange = Exchange.empty := by
  rw [hw]
  exact asExchange_empty

/-- The deals of a run, from any state with a ledger that agrees. -/
theorem exists_deals_of_run [Doubles]
    (inv : LpLedger w.state) (run : Run (Step env) w h w') :
    ∃ trs : List (List (Dex × DexDeal)),
      List.Forall₂ (fun p tr => StandsFor env p (tr.map Prod.snd)) h trs ∧
        Run Exchange.Trade w.state.asExchange trs.flatten w'.state.asExchange :=
  run.simulate (fun w => w.state.asExchange) (fun w => LpLedger w.state) (StandsFor env)
    (fun _ _ _ inv hstep => inv.exec hstep.2.1) (fun _ _ _ inv hstep => deals_of_step inv hstep) inv

/-- Runs of the contract are runs of the exchange: every action is the deals that `StandsFor`
lists for it, in their order. -/
theorem contract_refines_exchange [Doubles]
    (hw : w.Genesis) (run : Run (Step env) w h w') :
    ∃ trs : List (List (Dex × DexDeal)),
      List.Forall₂ (fun p tr => StandsFor env p (tr.map Prod.snd)) h trs ∧
        Run Exchange.Trade Exchange.empty trs.flatten w'.state.asExchange := by
  rw [← asExchange_of_genesis hw]
  exact exists_deals_of_run (lpLedger_of_genesis hw) run

open Binary64

/-- The books of alice and of a pool after she has sold 600 units of AAA to it. -/
theorem contract_refines_exchange_sample :
    ∃ h w trs, Run (Step sampleEnv) sampleWorld h w ∧ h.length = 5 ∧
      List.Forall₂ (fun p (tr : List (Dex × DexDeal)) => StandsFor sampleEnv p (tr.map Prod.snd))
        h trs ∧
      Run Exchange.Trade Exchange.empty trs.flatten w.state.asExchange ∧
      w.state.asExchange.deposit (nameLiteral "alice") (sampleA 0).extendedSymbol = 999402 ∧
      w.state.asExchange.deposit (nameLiteral "alice") (sampleB 0).extendedSymbol = 1000597 := by
  let inputs : List (Ctx × Action) := samplePool ++
    [(sampleCtx 2000 "alice", .exchange (nameLiteral "alice") (sampleSymbol "AB").code
      (sampleA 600) (sampleB 1).quantity)]
  obtain ⟨h, w, hplay, hobs⟩ := exists_of_play
    (show (play (stepWith sampleEnv) sampleWorld inputs).map (fun r =>
        (r.1.length, depositOf r.2.state (nameLiteral "alice") (sampleA 0).extendedSymbol,
          depositOf r.2.state (nameLiteral "alice") (sampleB 0).extendedSymbol)) =
      some (5, 999402, 1000597) by decide +kernel)
  simp only [Prod.mk.injEq] at hobs
  obtain ⟨hlength, hA, hB⟩ := hobs
  have hrun := run_of_play (step_of_stepWith sampleEnv) _ hplay
  obtain ⟨trs, hstands, hdeals⟩ := contract_refines_exchange sampleWorld_genesis hrun
  refine ⟨h, w, trs, hrun, hlength, hstands, hdeals, ?_, ?_⟩
  · rw [asExchange_deposit, hA]
  · rw [asExchange_deposit, hB]

end Runs

end Lemonade
