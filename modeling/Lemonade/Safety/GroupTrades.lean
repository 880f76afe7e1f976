import Lemonade.Kernel.Coalitions
import Lemonade.Safety.ExchangeRefinement
import Mathlib.Tactic

/-!
# What a group of users can take from a pool

A group of users trades with one pool, while all the others stay away from it and do
whatever else the contract offers.  The group does not pay in or out, and its members
may share LP tokens among themselves.  If it still holds its shares at the end, then it
has not gained in one token of the pool without losing in the other, whatever it did.
-/

namespace Lemonade

open Kernel

section Groups

variable {s : State} {U : Name → Prop} {code : SymbolCode}

/-- The group trades with one pool only, and the others stay away from it. -/
def Action.KeepsApart (U : Name → Prop) (code : SymbolCode) : Action → Prop
  | .transfer source dest quantity _ => quantity.symbol.code = code → (U source ↔ U dest)
  | .closeext user _ _ _ => ¬ U user
  | .withdraw user _ _ _ => ¬ U user
  | .addliquidity user toBuy _ _ => U user ↔ toBuy.symbol.code = code
  | .rmliquidity user toSell _ _ => U user ↔ toSell.symbol.code = code
  | .exchange user pairToken _ _ => U user ↔ pairToken = code
  | .exchangeall user pairToken _ => U user ↔ pairToken = code
  | .inittoken user _ _ _ => ¬ U user
  | .rmpool _ lpSymbol => lpSymbol.code ≠ code
  | .notify _ source _ _ memo => DexMemo memo → ¬ U source ∧ memoPair memo ≠ .ok code
  | _ => True

theorem Sells.apart [Doubles]
    {user : Name} {pairToken : SymbolCode} {input : ExtendedAsset} {deals : List DexDeal}
    (h : Sells s user pairToken input deals) (hU : U user ↔ pairToken = code) :
    ∀ d ∈ deals, d.Apart U code := by
  obtain ⟨token, first, out, -, -, rfl⟩ := h
  simp only [List.mem_cons, List.not_mem_nil, or_false, forall_eq_or_imp, forall_eq]
  exact ⟨trivial, hU⟩

theorem PassesThrough.apart [Doubles]
    {source : Name} {pairToken : SymbolCode} {input : ExtendedAsset} {sent : List Inline}
    {deals : List DexDeal} (h : PassesThrough s source pairToken input sent deals)
    (hU : ¬ U source) (hne : pairToken ≠ code) : ∀ d ∈ deals, d.Apart U code := by
  obtain ⟨token, first, memo, out, -, -, -, rfl⟩ := h
  simp only [List.mem_cons, List.not_mem_nil, or_false, forall_eq_or_imp, forall_eq]
  exact ⟨trivial, hU, iff_of_false hU hne, hU⟩

/-- Actions that keep the group and the others apart stand for deals that do. -/
theorem StandsFor.apart [Doubles]
    {env : Env} {p : World × Event} {deals : List DexDeal} (hapart : p.2.action.KeepsApart U code)
    (h : StandsFor env p deals) : ∀ d ∈ deals, d.Apart U code := by
  obtain ⟨u, ctx, a, sent⟩ := p
  cases a with
  | transfer | closeext | withdraw | rmpool =>
      obtain rfl := h
      exact List.forall_mem_singleton.mpr hapart
  | addliquidity | rmliquidity =>
      obtain ⟨pay, rfl⟩ := h
      exact List.forall_mem_singleton.mpr hapart
  | exchange => exact Sells.apart h hapart
  | exchangeall =>
      obtain ⟨key, balance, -, hsells⟩ := h
      exact hsells.apart hapart
  | inittoken user =>
      obtain ⟨shares, rfl⟩ := h
      intro d hd
      rw [List.mem_append, List.mem_singleton] at hd
      rcases hd with hd | rfl
      · split_ifs at hd
        · exact absurd hd List.not_mem_nil
        · obtain rfl := List.mem_singleton.mp hd
          exact hapart
      · exact hapart
  | clmpoolreward =>
      obtain ⟨code, -, rfl⟩ := h
      exact List.forall_mem_singleton.mpr trivial
  | notify firstReceiver source dest quantity memo =>
      unfold StandsFor at h
      dsimp only at h
      split_ifs at h with hdeposit hdex
      · obtain rfl := h
        exact List.forall_mem_singleton.mpr (hapart (Or.inl hdeposit.2)).1
      · obtain ⟨pairToken, hpair, hpass⟩ := h
        obtain ⟨hU, hne⟩ := hapart hdex.2
        refine hpass.apart hU ?_
        rintro rfl
        exact hne hpair
      · obtain rfl := h
        exact fun _ hd => absurd hd List.not_mem_nil
  | _ =>
      obtain rfl : deals = [] := h
      exact fun _ hd => absurd hd List.not_mem_nil

end Groups

section Balances

variable {s : State} {U : Name → Prop} [DecidablePred U] {code : SymbolCode}

/-- Deposits of a group in a token. -/
def groupDeposit (s : State) (U : Name → Prop) [DecidablePred U] (sym : ExtendedSymbol) : ℤ :=
  deposited (fun user x => U user ∧ x = sym) s.dexacnts

/-- LP tokens of a group. -/
def groupShares (s : State) (U : Name → Prop) [DecidablePred U] (code : SymbolCode) : ℤ :=
  s.accounts.sum fun key balance =>
    if U key.1 ∧ key.2 = code then balance.amount.toInt else 0

theorem asExchange_wealth (sym : ExtendedSymbol) :
    s.asExchange.wealth U sym = groupDeposit s U sym := by
  rw [Exchange.wealth, sumOver_asExchange]
  have hshares : (s.accounts.sum fun key (balance : Asset) =>
      if Holding.DepositOf (π := SymbolCode) U sym (.shares key.1 key.2)
        then balance.amount.toInt else 0) = 0 :=
    Table.sum_eq_zero fun _ _ _ => rfl
  have hpools : (s.stats.sum fun code token => Books.sumOver (Holding.DepositOf U sym)
      (token.entry code true + token.entry code false)) = 0 :=
    Table.sum_eq_zero fun _ _ _ => by simp [CurrencyStats.entry, Holding.DepositOf]
  rw [hshares, hpools, add_zero, add_zero]
  rfl

theorem asExchange_stake : s.asExchange.stake U code = groupShares s U code := by
  rw [Exchange.stake, sumOver_asExchange]
  have hdeposits : (s.dexacnts.sum fun key balance =>
      if Holding.SharesOf U code (.deposit key.1 balance.extendedSymbol)
        then balance.quantity.amount.toInt else 0) = 0 :=
    Table.sum_eq_zero fun _ _ _ => rfl
  have hpools : (s.stats.sum fun c token => Books.sumOver (Holding.SharesOf U code)
      (token.entry c true + token.entry c false)) = 0 :=
    Table.sum_eq_zero fun _ _ _ => by simp [CurrencyStats.entry, Holding.SharesOf]
  rw [hdeposits, hpools, zero_add, add_zero]
  rfl

end Balances

section Runs

variable {env : Env} {w w' : World} {h : History}

/-- In every state that comes about, the books are those of a sound exchange. -/
theorem sound_of_reaches [Doubles] (hw : Reaches env w) : w.state.asExchange.Sound := by
  obtain ⟨w₀, h, hgenesis, run⟩ := hw
  obtain ⟨trs, -, hdeals⟩ := exists_deals_of_run (lpLedger_of_genesis hgenesis) run
  refine hdeals.invariant Exchange.Sound (fun _ _ _ s htrade => s.trade htrade) ?_
  rw [asExchange_of_genesis hgenesis]
  exact Exchange.sound_empty

/-- A group that trades with one pool, while the others stay away from it, and that keeps its
shares cannot gain in one token of the pool without losing in the other. -/
theorem group_cannot_profit [Doubles]
    {U : Name → Prop} [DecidablePred U] {code : SymbolCode} {token : CurrencyStats}
    (hw : Reaches env w) (htoken : w.state.stats.find? code = some token)
    (run : Run (Step env) w h w') (hapart : ∀ p ∈ h, p.2.action.KeepsApart U code)
    (hshares : groupShares w.state U code ≤ groupShares w'.state U code) {first : Bool}
    (hgain : groupDeposit w.state U (token.sides first) <
      groupDeposit w'.state U (token.sides first)) :
    groupDeposit w'.state U (token.sides !first) <
      groupDeposit w.state U (token.sides !first) := by
  obtain ⟨trs, hstands, hdeals⟩ := exists_deals_of_run (lpLedger_of_reaches hw) run
  have hdealsApart := Run.forall_of_simulated hstands hapart fun p l hp hl => hl.apart hp
  rw [← asExchange_wealth, ← asExchange_wealth] at hgain ⊢
  rw [← asExchange_stake, ← asExchange_stake] at hshares
  exact no_free_lunch (sound_of_reaches hw) (asExchange_market htoken) hdeals hdealsApart hshares
    hgain

open Binary64

/-- Alice, who owns a pool, gains BBB and loses AAA. -/
theorem group_cannot_profit_sample :
    ∃ w w' h, Reaches sampleEnv w ∧ Run (Step sampleEnv) w h w' ∧
      groupDeposit w'.state (· = nameLiteral "alice") (sampleB 0).extendedSymbol = 1000597 ∧
      groupDeposit w'.state (· = nameLiteral "alice") (sampleA 0).extendedSymbol <
        groupDeposit w.state (· = nameLiteral "alice") (sampleA 0).extendedSymbol := by
  let trade : List (Ctx × Action) :=
    [(sampleCtx 2000 "alice", .exchange (nameLiteral "alice") (sampleSymbol "AB").code
      (sampleA 600) (sampleB 1).quantity)]
  obtain ⟨⟨pre, w⟩, hpre, hrest⟩ := Option.bind_eq_some_iff.mp
    (show ((play (stepWith sampleEnv) sampleWorld samplePool).bind fun r =>
        (play (stepWith sampleEnv) r.2 trade).map fun q =>
          ((r.2.state.stats.find? (sampleSymbol "AB").code).map fun token =>
              (token.sides true, token.sides false),
            groupDeposit r.2.state (· = nameLiteral "alice") (sampleB 0).extendedSymbol,
            groupDeposit q.2.state (· = nameLiteral "alice") (sampleB 0).extendedSymbol,
            groupShares r.2.state (· = nameLiteral "alice") (sampleSymbol "AB").code,
            groupShares q.2.state (· = nameLiteral "alice") (sampleSymbol "AB").code)) =
      some (some ((sampleA 0).extendedSymbol, (sampleB 0).extendedSymbol), 1000000, 1000597,
        1000000, 1000000) by decide +kernel)
  obtain ⟨h, w', hplay, hobs⟩ := exists_of_play hrest
  simp only [Prod.mk.injEq] at hobs
  obtain ⟨hsides, hB, hB', hshares, hshares'⟩ := hobs
  obtain ⟨token, htoken, hsym⟩ := Option.map_eq_some_iff.mp hsides
  obtain ⟨hA, hB0⟩ := Prod.mk.inj hsym
  have hw : Reaches sampleEnv w := reaches_of_play sampleWorld_genesis hpre
  have hrun := run_of_play (step_of_stepWith sampleEnv) _ hplay
  refine ⟨w, w', h, hw, hrun, hB', ?_⟩
  have hgain : groupDeposit w.state (· = nameLiteral "alice") (token.sides false) <
      groupDeposit w'.state (· = nameLiteral "alice") (token.sides false) := by
    rw [hB0, hB, hB']
    decide
  rw [← hA]
  refine group_cannot_profit hw htoken hrun ?_ (by rw [hshares, hshares']) hgain
  rintro ⟨u, ctx, a, sent⟩ hp
  have hmem := input_mem_of_play hplay hp
  simp only [trade, List.mem_singleton, Prod.mk.injEq] at hmem
  obtain ⟨-, rfl⟩ := hmem
  exact iff_of_true rfl rfl

end Runs

end Lemonade
