import Lemonade.Safety.Independence
import Mathlib.Tactic

/-!
# The closed exchange

`is_dex_open` is a constant of the deployed code.  Where it is false, every trade is refused
before anything else is looked at, whatever the exchange held when it was closed.  What is left
is listed by `ClosedMove`: LP tokens change hands and fees are paid out.
-/

namespace Lemonade

open Kernel

section Refusals

variable {env : Env} {a : Action}

/-- The trades: what moves deposits, pools or the registries of pools. -/
def Action.Trades (env : Env) : Action → Prop
  | .openext .. | .closeext .. | .withdraw .. | .addliquidity .. | .rmliquidity .. => True
  | .exchange .. | .exchangeall .. | .inittoken .. | .indexpair .. | .rmpool .. => True
  | .notify _ source dest _ memo =>
      Incoming env source dest ∧ (Operation memo "deposit" ∨ Operation memo "exchange")
  | _ => False

theorem check_isDexOpen_bind
    {α : Type} (hclosed : env.isDexOpen = false) (f : PUnit → Result α) :
    check (env.isDexOpen = true) "DEX is not open" >>= f = .error (.check "DEX is not open") := by
  rw [hclosed]
  rfl

/-- A closed exchange refuses every trade, before anything else is looked at. -/
theorem exec_of_closed [Doubles]
    (hclosed : env.isDexOpen = false) (ha : a.Trades env) (ctx : Ctx) (s : State) :
    exec env ctx s a = .error (.check "DEX is not open") := by
  cases a with
  | openext => exact congrArg silent (check_isDexOpen_bind hclosed _)
  | closeext => exact check_isDexOpen_bind hclosed _
  | withdraw => exact check_isDexOpen_bind hclosed _
  | addliquidity => exact congrArg silent (check_isDexOpen_bind hclosed _)
  | rmliquidity => exact congrArg silent (check_isDexOpen_bind hclosed _)
  | exchange => exact congrArg silent (check_isDexOpen_bind hclosed _)
  | exchangeall => exact congrArg silent (check_isDexOpen_bind hclosed _)
  | inittoken => exact congrArg silent (check_isDexOpen_bind hclosed _)
  | indexpair => exact congrArg silent (check_isDexOpen_bind hclosed _)
  | rmpool => exact congrArg silent (check_isDexOpen_bind hclosed _)
  | notify firstReceiver source dest quantity memo =>
      obtain ⟨⟨hdest, hsource⟩, hop⟩ := ha
      simp only [exec, transferEvent]
      rw [if_neg (not_not.mpr hdest), if_neg hsource]
      rcases hop with hop | hop
      · have hfield : field (memoParser memo) 0 = pure "deposit".toList := hop
        have hstake : "deposit".toList ≠ "stake".toList := by decide
        have hbet : "deposit".toList ≠ "bet".toList := by decide
        simp only [hfield, pure_bind, if_neg hstake, if_neg hbet, if_true,
          check_isDexOpen_bind hclosed]
      · have hfield : field (memoParser memo) 0 = pure "exchange".toList := hop
        have hstake : "exchange".toList ≠ "stake".toList := by decide
        have hbet : "exchange".toList ≠ "bet".toList := by decide
        have hdeposit : "exchange".toList ≠ "deposit".toList := by decide
        simp only [hfield, pure_bind, if_neg hstake, if_neg hbet, if_neg hdeposit, if_true,
          check_isDexOpen_bind hclosed]
  | _ => exact ha.elim

end Refusals

section Rest

variable {env : Env} {ctx : Ctx} {s s' t : State} {a : Action} {sent : List Inline}

/-- A pool without its fees -/
def CurrencyStats.unpaid (token : CurrencyStats) : CurrencyStats :=
  { token with fee1 := token.pool1, fee2 := token.pool2 }

/-- Deposits, pools and registries are the same.  The fees of a pool may have been paid out. -/
structure Rests (s s' : State) : Prop where
  dexacnts : s'.dexacnts = s.dexacnts
  swaplists : s'.swaplists = s.swaplists
  poollists : s'.poollists = s.poollists
  lemindexes : s'.lemindexes = s.lemindexes
  pools : ∀ code, (s'.stats.find? code).map CurrencyStats.unpaid =
    (s.stats.find? code).map CurrencyStats.unpaid

theorem Rests.refl (s : State) : Rests s s := ⟨rfl, rfl, rfl, rfl, fun _ => rfl⟩

theorem Rests.trans (h : Rests s t) (h' : Rests t s') : Rests s s' where
  dexacnts := h'.dexacnts.trans h.dexacnts
  swaplists := h'.swaplists.trans h.swaplists
  poollists := h'.poollists.trans h.poollists
  lemindexes := h'.lemindexes.trans h.lemindexes
  pools := fun code => (h'.pools code).trans (h.pools code)

/-- What can still be done to a closed exchange: LP tokens change hands, fees are paid out, and
the contract freezes accounts. -/
inductive ClosedMove (s s' : State) : Prop
  | elsewhere (same : s.exchangeOver s' = s')
  | freeze (frozens : Table Name Unit) (h : s' = { s with frozens := frozens })
  | tokens (code : SymbolCode) (token : CurrencyStats) (htoken : s.stats.find? code = some token)
      (accounts : Table (Name × SymbolCode) Asset) (userinfo : Table (SymbolCode × Name) Asset)
      (h : s' = { s with accounts := accounts, userinfo := userinfo })
  | close (key : Name × SymbolCode) (balance : Asset)
      (hrow : s.accounts.find? key = some balance)
      (h : s' = { s with accounts := s.accounts.erase key })
  | fees (code : SymbolCode) (token token' : CurrencyStats)
      (htoken : s.stats.find? code = some token) (same : token'.unpaid = token.unpaid)
      (config : Option Config) (poolrewards : Table SymbolCode UInt32)
      (h : s' = { s with
        config := config
        stats := s.stats.put code token'
        poolrewards := poolrewards })

theorem closedMove_of_acts [Doubles]
    {e : Event} (htrades : ¬ e.action.Trades env) (h : Acts env s e s') : ClosedMove s s' := by
  obtain ⟨ctx, a, sent⟩ := e
  dsimp only at htrades
  by_cases hother : ¬ a.ExchangeOnly ∧ ¬ a.RewardsPool
  · exact .elsewhere (localTo_rest.keeps hother h)
  · cases a with
    | transfer =>
        obtain ⟨htransfer, -⟩ := silent_eq_ok_iff.mp h
        obtain ⟨token, m, -, -, htoken, -, -, hsub, hadd⟩ := transfer_eq_ok htransfer
        obtain ⟨_, _, _, _, -, -, -, -, -, -, rfl⟩ := subBalance_eq_ok hsub
        obtain ⟨_, _, -, -, rfl⟩ := addBalance_eq_ok hadd
        exact .tokens _ token htoken _ _ rfl
    | tokenOpen owner symbol ramPayer =>
        obtain ⟨hopen, -⟩ := silent_eq_ok_iff.mp h
        obtain ⟨token, htoken⟩ : ∃ token, s.stats.find? symbol.code = some token := by
          simp only [tokenOpen, bind_eq_ok_iff, require_eq_ok_iff] at hopen
          obtain ⟨_, -, _, -, token, htoken, -⟩ := hopen
          exact ⟨token, htoken⟩
        rcases tokenOpen_eq_ok hopen with rfl | ⟨-, rfl⟩
        · exact .elsewhere rfl
        · exact .tokens _ token htoken _ _ rfl
    | tokenClose =>
        obtain ⟨hclose, -⟩ := silent_eq_ok_iff.mp h
        obtain ⟨balance, -, hrow, -, rfl⟩ := tokenClose_eq_ok hclose
        exact .close _ balance hrow rfl
    | freeze =>
        obtain ⟨hfreeze, -⟩ := silent_eq_ok_iff.mp h
        obtain ⟨frozens, rfl⟩ := freeze_eq_ok hfreeze
        exact .freeze frozens rfl
    | unfreeze =>
        obtain ⟨hunfreeze, -⟩ := silent_eq_ok_iff.mp h
        obtain ⟨frozens, rfl⟩ := unfreeze_eq_ok hunfreeze
        exact .freeze frozens rfl
    | clmpoolreward =>
        obtain ⟨config, code, token, fee1, fee2, _, -, htoken, -, -, -, rfl⟩ :=
          clmpoolreward_eq_ok h
        exact .fees code token { token with fee1 := fee1, fee2 := fee2 } htoken rfl config _ rfl
    | notify firstReceiver source dest quantity memo =>
        rcases transferEvent_eq_ok h with ⟨rfl, -⟩ | ⟨hin, -⟩
        · exact .elsewhere rfl
        · have hdex : DexMemo memo := by
            by_contra hnot
            exact hother ⟨hnot, id⟩
          exact absurd ⟨hin, hdex.imp id And.left⟩ htrades
    | openext | closeext | withdraw | addliquidity | rmliquidity => exact absurd trivial htrades
    | exchange | exchangeall | inittoken | indexpair | rmpool => exact absurd trivial htrades
    | _ => exact absurd ⟨id, id⟩ hother

theorem ClosedMove.rests (h : ClosedMove s s') : Rests s s' := by
  cases h with
  | elsewhere same =>
      rw [← same]
      exact ⟨rfl, rfl, rfl, rfl, fun _ => rfl⟩
  | freeze frozens h =>
      rw [h]
      exact ⟨rfl, rfl, rfl, rfl, fun _ => rfl⟩
  | tokens code token htoken accounts userinfo h =>
      rw [h]
      exact ⟨rfl, rfl, rfl, rfl, fun _ => rfl⟩
  | close key balance hrow h =>
      rw [h]
      exact ⟨rfl, rfl, rfl, rfl, fun _ => rfl⟩
  | fees code token token' htoken same config poolrewards h =>
      rw [h]
      refine ⟨rfl, rfl, rfl, rfl, fun k => Table.map_find?_put _ _ ?_ k⟩
      rw [htoken, Option.map_some, same]

/-- There is nothing in the exchange. -/
structure Vacant (s : State) : Prop where
  pools : ∀ code, s.stats.find? code = none
  accounts : ∀ key, s.accounts.find? key = none
  userinfo : ∀ key, s.userinfo.find? key = none
  dexacnts : ∀ key, s.dexacnts.find? key = none

/-- Without a pool there are no LP tokens. -/
theorem Vacant.of_closedMove (inv : Vacant s) (h : ClosedMove s s') : Vacant s' := by
  cases h with
  | elsewhere same =>
      rw [← same]
      exact ⟨inv.pools, inv.accounts, inv.userinfo, inv.dexacnts⟩
  | freeze frozens h =>
      rw [h]
      exact ⟨inv.pools, inv.accounts, inv.userinfo, inv.dexacnts⟩
  | tokens code token htoken accounts userinfo h => exact absurd htoken (by simp [inv.pools])
  | close key balance hrow h => exact absurd hrow (by simp [inv.accounts])
  | fees code token token' htoken same config poolrewards h =>
      exact absurd htoken (by simp [inv.pools])

end Rest

section Runs

variable {env : Env} {w₀ w : World} {h : History}

/-- While the exchange is closed nothing moves in it.  Every trade is refused; deposits, pools
and registries stay as they are, except that fees may be paid out; and an exchange that has
been closed from the beginning is empty. -/
theorem closed_exchange_rests [Doubles]
    (hclosed : env.isDexOpen = false) (run : Run (Step env) w₀ h w) :
    (∀ p ∈ h, ¬ p.2.action.Trades env) ∧
      (∀ ctx a, a.Trades env → exec env ctx w.state a = .error (.check "DEX is not open")) ∧
      Rests w₀.state w.state ∧ (Vacant w₀.state → Vacant w.state) := by
  have htrades : ∀ u e v, Step env u e v → ¬ e.action.Trades env := by
    rintro u e v ⟨-, hexec, -⟩ ha
    rw [exec_of_closed hclosed ha] at hexec
    cases hexec
  refine ⟨?_, fun ctx a ha => exec_of_closed hclosed ha ctx w.state, ?_, ?_⟩
  · rintro ⟨u, e⟩ hp
    obtain ⟨_, _, v, -, -, hstep, -⟩ := run.exists_of_mem hp
    exact htrades u e v hstep
  · refine run.invariant (fun w => Rests w₀.state w.state) ?_ (.refl _)
    intro u e v hrests hstep
    exact hrests.trans (closedMove_of_acts (htrades u e v hstep) hstep.2.1).rests
  · refine run.invariant (fun w => Vacant w.state) ?_
    intro u e v inv hstep
    exact inv.of_closedMove (closedMove_of_acts (htrades u e v hstep) hstep.2.1)

/-- The sample environment with the member constant as it is deployed. -/
def closedEnv : Env := { sampleEnv with isDexOpen := false }

open Binary64

/-- Alice has created a pool, the exchange is closed, and she still passes LP tokens on. -/
theorem closed_exchange_rests_sample :
    ∃ w₀ w h, Run (Step closedEnv) w₀ h w ∧ h.length = 1 ∧ Rests w₀.state w.state ∧
      (w₀.state.stats.find? (sampleSymbol "AB").code).isSome ∧
      (w.state.accounts.find? (nameLiteral "bob", (sampleSymbol "AB").code)).isSome ∧
      exec closedEnv (sampleCtx 2000 "alice") w.state
        (.rmpool (nameLiteral "alice") (sampleSymbol "AB")) =
          .error (.check "DEX is not open") := by
  let passOn : Ctx × Action := (sampleCtx 2000 "alice",
    .transfer (nameLiteral "alice") (nameLiteral "bob") ⟨10, sampleSymbol "AB"⟩ [])
  obtain ⟨h₀, w₀, hplay₀, hobs⟩ := exists_of_play
    (show (play (stepWith sampleEnv) sampleWorld samplePool).map (fun r =>
        ((r.2.state.stats.find? (sampleSymbol "AB").code).isSome,
          (play (stepWith closedEnv) r.2 [passOn]).map fun x => (x.1.length,
            (x.2.state.accounts.find? (nameLiteral "bob", (sampleSymbol "AB").code)).isSome))) =
      some (true, some (1, true)) by decide +kernel)
  obtain ⟨hpool, hobs⟩ := Prod.mk.inj hobs
  obtain ⟨h, w, hplay, hobs⟩ := exists_of_play hobs
  obtain ⟨hlength, hbob⟩ := Prod.mk.inj hobs
  have run := run_of_play (step_of_stepWith closedEnv) _ hplay
  obtain ⟨-, hrefused, hrests, -⟩ := closed_exchange_rests rfl run
  exact ⟨w₀, w, h, run, hlength, hrests, hpool, hbob, hrefused _ _ trivial⟩

end Runs

end Lemonade
