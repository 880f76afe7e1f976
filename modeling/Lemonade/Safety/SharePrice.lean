import Lemonade.Safety.LpLedger
import Mathlib.Tactic

/-!
# The value of a share

As long as a pool exists, no action lowers what one of its shares stands for.
Buying and selling shares lowers neither reserve per share, everything else keeps the
supply and does not lower the product of the reserves.  Over a run this adds up to
the order of the abstract pools.
-/

namespace Lemonade

open Kernel

section Steps

/-- Buying or selling shares. -/
def Action.TradesShares : Action → Prop
  | .addliquidity _ _ _ _ => True
  | .rmliquidity _ _ _ _ => True
  | _ => False

/-- The reserve per share has not fallen. -/
def ShareKept (token token' : CurrencyStats) : Prop :=
  ∀ first, (token.reserve first).quantity.amount.toInt * token'.supply.amount.toInt ≤
    (token'.reserve first).quantity.amount.toInt * token.supply.amount.toInt

/-- The supply is the same and the product of the reserves has not fallen. -/
def ProductKept (token token' : CurrencyStats) : Prop :=
  token'.supply = token.supply ∧
    token.pool1.quantity.amount.toInt * token.pool2.quantity.amount.toInt ≤
      token'.pool1.quantity.amount.toInt * token'.pool2.quantity.amount.toInt

theorem ShareKept.refl (token : CurrencyStats) : ShareKept token token := fun _ => le_refl _

theorem ProductKept.refl (token : CurrencyStats) : ProductKept token token := ⟨rfl, le_refl _⟩

theorem LiquidityUpdate.shareKept
    {token token' : CurrencyStats} {n : ℤ} {pay : Bool → ExtendedAsset}
    (h : LiquidityUpdate token token' n pay) : ShareKept token token' := by
  intro first
  rw [h.supply, h.reserve]
  exact reserve_share_le (h.share first)

theorem SwapUpdate.productKept [Doubles]
    {token token' : CurrencyStats} {first : Bool} {input net out : ExtendedAsset}
    (h : SwapUpdate token token' first input net out) : ProductKept token token' := by
  refine ⟨h.supply, ?_⟩
  have hproduct := h.product
  rw [h.inReserve] at hproduct
  have hle := swap_product_le hproduct
  have hin := h.inReserve
  have hout := h.outReserve
  rw [← hin, ← sub_eq_add_neg, ← hout] at hle
  cases first with
  | true => exact hle
  | false =>
      rw [mul_comm token.pool1.quantity.amount.toInt, mul_comm token'.pool1.quantity.amount.toInt]
      exact hle

variable {env : Env} {ctx : Ctx} {s s' : State} {a : Action} {sent : List Inline}
  {code : SymbolCode} {token : CurrencyStats}

/-- What a step does to a pool that it does not remove. -/
def PoolKept (a : Action) (code : SymbolCode) (token : CurrencyStats) (s' : State) : Prop :=
  ∃ token', s'.stats.find? code = some token' ∧
    (a.TradesShares → ShareKept token token') ∧
    (¬ a.TradesShares → ProductKept token token')

theorem poolKept_of_find?
    (h : s'.stats.find? code = some token) : PoolKept a code token s' :=
  ⟨token, h, fun _ => .refl token, fun _ => .refl token⟩

theorem poolKept_of_trade
    {user : Name} {toAdd maxAsset1 maxAsset2 : Asset} (inv : LpLedger s)
    (htoken : s.stats.find? code = some token) (htrade : a.TradesShares)
    (h : addSignedLiq s user toAdd maxAsset1 maxAsset2 = .ok s') : PoolKept a code token s' := by
  obtain ⟨token₀, token', pay, s₁, s₂, s₃, htoken₀, hupdate, h1, h2, hcredit, rfl, -⟩ :=
    inv.addSignedLiq h
  have hstats : s₃.stats = s.stats :=
    hcredit.stats.trans ((addSignedExtBalance_keepsShares h2).stats.trans
      (addSignedExtBalance_keepsShares h1).stats)
  by_cases hcode : toAdd.symbol.code = code
  · subst hcode
    obtain rfl := Option.some.inj (htoken.symm.trans htoken₀)
    exact ⟨token', Table.find?_put_self _ _ _, fun _ => hupdate.shareKept,
      fun hnot => absurd htrade hnot⟩
  · refine poolKept_of_find? ?_
    rw [Table.find?_put_of_ne _ _ hcode, hstats]
    exact htoken

theorem poolKept_of_swap [Doubles]
    {pairToken : SymbolCode} {input net out : ExtendedAsset} {minExpected : Asset}
    (inv : LpLedger s) (htoken : s.stats.find? code = some token) (htrade : ¬ a.TradesShares)
    (h : Swapped s pairToken input minExpected net out s') : PoolKept a code token s' := by
  obtain ⟨token₀, token', first, htoken₀, hupdate, -, rfl⟩ := h.update inv.pools
  by_cases hcode : pairToken = code
  · subst hcode
    obtain rfl := Option.some.inj (htoken.symm.trans htoken₀)
    exact ⟨token', Table.find?_put_self _ _ _, fun hdo => absurd hdo htrade,
      fun _ => hupdate.productKept⟩
  · refine poolKept_of_find? ?_
    rw [Table.find?_put_of_ne _ _ hcode]
    exact htoken

theorem poolKept_of_exchange [Doubles]
    {user : Name} {pairToken : SymbolCode} {extAssetIn : ExtendedAsset} {minExpected : Asset}
    (inv : LpLedger s) (htoken : s.stats.find? code = some token) (htrade : ¬ a.TradesShares)
    (h : exchange env ctx s user pairToken extAssetIn minExpected = .ok s') :
    PoolKept a code token s' := by
  obtain ⟨_, _, s₁, s₂, -, -, hswap, hpay, hget⟩ := exchange_eq_ok h
  obtain ⟨token', htoken', hkept⟩ := poolKept_of_swap inv htoken htrade hswap
  refine ⟨token', ?_, hkept⟩
  rw [(addSignedExtBalance_keepsShares hget).stats, (addSignedExtBalance_keepsShares hpay).stats]
  exact htoken'

theorem poolKept_of_move [Doubles]
    (inv : LpLedger s) (htoken : s.stats.find? code = some token)
    (hkept : ∀ user lpSymbol, a = .rmpool user lpSymbol → lpSymbol.code ≠ code)
    (h : DexMove env ctx s a s' sent) : PoolKept a code token s' := by
  have hsame : s'.stats = s.stats → PoolKept a code token s' := by
    intro hstats
    refine poolKept_of_find? ?_
    rw [hstats]
    exact htoken
  cases h with
  | transfer h =>
      obtain ⟨_, _, -, -, -, -, -, hsub, hadd⟩ := transfer_eq_ok h
      obtain ⟨_, _, -, -, rfl⟩ := addBalance_eq_ok hadd
      obtain ⟨_, _, _, _, -, -, -, -, -, -, rfl⟩ := subBalance_eq_ok hsub
      exact hsame rfl
  | tokenOpen h =>
      rcases tokenOpen_eq_ok h with rfl | ⟨-, rfl⟩
      · exact hsame rfl
      · exact hsame rfl
  | tokenClose h =>
      obtain ⟨_, -, -, -, rfl⟩ := tokenClose_eq_ok h
      exact hsame rfl
  | openext h =>
      rcases openext_eq_ok h with rfl | ⟨_, -, -, rfl⟩
      · exact hsame rfl
      · exact hsame rfl
  | closeext h =>
      obtain ⟨_, _, -, -, rfl, -⟩ := closeext_eq_ok h
      exact hsame rfl
  | withdraw h =>
      obtain ⟨-, -, hadd, -⟩ := withdraw_eq_ok h
      exact hsame (addSignedExtBalance_keepsShares hadd).stats
  | addliquidity h => exact poolKept_of_trade inv htoken trivial (addliquidity_eq_ok h).2.2
  | rmliquidity h => exact poolKept_of_trade inv htoken trivial (rmliquidity_eq_ok h).2.2
  | exchange h => exact poolKept_of_exchange inv htoken id h
  | exchangeall h =>
      obtain ⟨_, _, _, -, -, hall⟩ := exchangeall_eq_ok h
      exact poolKept_of_exchange inv htoken id hall
  | inittoken h =>
      obtain ⟨_, s₁, _, _, _, s₂, s₃, -, -, -, -, -, -, -, -, -, hfee, hfresh, hshares, h1, h2⟩ :=
        inittoken_eq_ok h
      obtain ⟨_, _, -, -, rfl⟩ := addBalance_eq_ok hshares
      have hfee' := (payPoolFee_keepsShares hfee).stats
      refine poolKept_of_find? ?_
      rw [(addSignedExtBalance_keepsShares h2).stats, (addSignedExtBalance_keepsShares h1).stats,
        Table.find?_put_of_ne, hfee', htoken]
      rintro rfl
      rw [hfee', htoken] at hfresh
      cases hfresh
  | rmpool h =>
      obtain ⟨_, _, _, _, _, -, -, -, rfl⟩ := rmpool_eq_ok h
      refine poolKept_of_find? ?_
      rw [Table.find?_erase_of_ne _ (hkept _ _ rfl)]
      exact htoken
  | clmpoolreward h =>
      obtain ⟨_, code₀, token₀, fee1, fee2, _, -, htoken₀, -, -, -, rfl⟩ := clmpoolreward_eq_ok h
      by_cases hcode : code₀ = code
      · subst hcode
        obtain rfl := Option.some.inj (htoken.symm.trans htoken₀)
        exact ⟨_, Table.find?_put_self _ _ _, fun hdo => hdo.elim, fun _ => ⟨rfl, le_refl _⟩⟩
      · refine poolKept_of_find? ?_
        rw [Table.find?_put_of_ne _ _ hcode]
        exact htoken
  | deposit _ _ h => exact hsame (addSignedExtBalance_keepsShares h).stats
  | memoexchange _ _ _ h =>
      obtain ⟨_, _, _, -, hswap, -⟩ := memoexchange_eq_ok h
      exact poolKept_of_swap inv htoken id hswap

theorem poolKept_of_exec [Doubles]
    (inv : LpLedger s) (htoken : s.stats.find? code = some token)
    (hkept : ∀ user lpSymbol, a = .rmpool user lpSymbol → lpSymbol.code ≠ code)
    (h : exec env ctx s a = .ok (s', sent)) : PoolKept a code token s' := by
  have hsame : KeepsDex s s' → PoolKept a code token s' := by
    intro dex
    refine poolKept_of_find? ?_
    rw [dex.2.2.1]
    exact htoken
  cases exec_area h with
  | stakes _ dex => exact hsame dex
  | games _ dex => exact hsame dex
  | dex move => exact poolKept_of_move inv htoken hkept move
  | idle _ dex => exact hsame dex

end Steps

section Runs

variable {env : Env} {v w : World} {h : History} {code : SymbolCode} {token : CurrencyStats}

theorem valueLE_of_kept
    {token' : CurrencyStats} {a : Action} (ok : PoolOk token) (ok' : PoolOk token')
    (hshare : a.TradesShares → ShareKept token token')
    (hproduct : ¬ a.TradesShares → ProductKept token token') : ok.pool.ValueLE ok'.pool := by
  by_cases htrade : a.TradesShares
  · exact Pool.valueLE_of_shares (hshare htrade true) (hshare htrade false)
  · obtain ⟨hsupply, hle⟩ := hproduct htrade
    refine Pool.valueLE_of_product ?_ hle
    exact congrArg (fun x => x.amount.toInt) hsupply

/-- The pool exists. -/
def HasPool (code : SymbolCode) (w : World) : Prop :=
  LpLedger w.state ∧ ∃ token, w.state.stats.find? code = some token

/-- The event does not remove the pool. -/
def KeepsPool (code : SymbolCode) (p : World × Event) : Prop :=
  ∀ user lpSymbol, p.2.action = .rmpool user lpSymbol → lpSymbol.code ≠ code

theorem HasPool.step [Doubles]
    {u : World} {e : Event} (hpool : HasPool code u) (hkeep : KeepsPool code (u, e))
    (hstep : Step env u e v) : HasPool code v := by
  obtain ⟨inv, token, htoken⟩ := hpool
  obtain ⟨token', htoken', -⟩ := poolKept_of_exec inv htoken hkeep hstep.2.1
  exact ⟨inv.exec hstep.2.1, token', htoken'⟩

/-- As long as a pool exists, no step and no run lowers the value of its shares. -/
theorem share_value_never_falls [Doubles]
    (hv : Reaches env v) (htoken : v.state.stats.find? code = some token)
    (run : Run (Step env) v h w) (hkept : ∀ p ∈ h, KeepsPool code p) :
    (∀ p ∈ h, ∀ p', Step env p.1 p.2 p' →
      ∃ t, p.1.state.stats.find? code = some t ∧ PoolKept p.2.action code t p'.state) ∧
    ∃ token', w.state.stats.find? code = some token' ∧
      token.pool1.quantity.amount.toInt * token.pool2.quantity.amount.toInt *
          token'.supply.amount.toInt ^ 2 ≤
        token'.pool1.quantity.amount.toInt * token'.pool2.quantity.amount.toInt *
          token.supply.amount.toInt ^ 2 := by
  have hpool : HasPool code v := ⟨lpLedger_of_reaches hv, token, htoken⟩
  have hinv : ∀ s e t, KeepsPool code (s, e) → HasPool code s → Step env s e t →
      HasPool code t := fun _ _ _ hkeep hs hstep => hs.step hkeep hstep
  constructor
  · rintro ⟨u, e⟩ hp p' hstep
    obtain ⟨pre, post, -, rfl, hpre, -, -⟩ := run.exists_of_mem hp
    have hkept' : ∀ p ∈ pre, KeepsPool code p := fun p hp' =>
      hkept p (List.mem_append_left _ hp')
    obtain ⟨inv, t, ht⟩ := hpre.invariant_of_forall (KeepsPool code) (HasPool code) hinv hkept'
      hpool
    exact ⟨t, ht, poolKept_of_exec inv ht (hkept _ hp) hstep.2.1⟩
  · obtain ⟨inv, token', htoken'⟩ :=
      run.invariant_of_forall (KeepsPool code) (HasPool code) hinv hkept hpool
    refine ⟨token', htoken', ?_⟩
    have hvalue := run.related_of_forall (KeepsPool code) (HasPool code)
      (fun s t => ∀ token token', s.state.stats.find? code = some token →
        t.state.stats.find? code = some token' →
        ∀ (ok : PoolOk token) (ok' : PoolOk token'), ok.pool.ValueLE ok'.pool)
      ?_ ?_ hinv ?_ hkept hpool
    · exact hvalue token token' htoken htoken' (hpool.1.pools _ _ htoken)
        (inv.pools _ _ htoken')
    · intro s _ t t' ht ht' ok ok'
      obtain rfl := Option.some.inj (ht.symm.trans ht')
      exact Pool.valueLE_refl _
    · rintro s t u - ⟨invt, mid, hmid⟩ - hst htu token token' hs hu ok ok'
      have okmid := invt.pools _ mid hmid
      exact Pool.valueLE_trans (hst token mid hs hmid ok okmid) (htu mid token' hmid hu okmid ok')
    · rintro s e t hkeep ⟨invs, -⟩ hstep token token' hs ht ok ok'
      obtain ⟨token'', ht', hshare, hproduct⟩ := poolKept_of_exec invs hs hkeep hstep.2.1
      obtain rfl := Option.some.inj (ht.symm.trans ht')
      exact valueLE_of_kept ok ok' hshare hproduct

open Binary64

/-- Alice swaps in both directions and sells some of her shares. -/
theorem share_value_never_falls_sample :
    ∃ v w h token token', Run (Step sampleEnv) v h w ∧
      v.state.stats.find? (sampleSymbol "AB").code = some token ∧
      w.state.stats.find? (sampleSymbol "AB").code = some token' ∧
      token.supply.amount = 1000000 ∧ token'.supply.amount = 900000 ∧
      token.pool1.quantity.amount.toInt * token.pool2.quantity.amount.toInt *
          token'.supply.amount.toInt ^ 2 ≤
        token'.pool1.quantity.amount.toInt * token'.pool2.quantity.amount.toInt *
          token.supply.amount.toInt ^ 2 := by
  let trades : List (Ctx × Action) :=
    [(sampleCtx 2000 "alice", .exchange (nameLiteral "alice") (sampleSymbol "AB").code
        (sampleA 10000) (sampleB 1).quantity),
      (sampleCtx 2000 "alice", .exchange (nameLiteral "alice") (sampleSymbol "AB").code
        (sampleB (-5000)) (sampleA (-10000)).quantity),
      (sampleCtx 3000 "alice", .rmliquidity (nameLiteral "alice")
        ⟨100000, sampleSymbol "AB"⟩ (sampleA 0).quantity (sampleB 0).quantity)]
  obtain ⟨h₀, v, hplay₀, hobs⟩ := exists_of_play
    (show (play (stepWith sampleEnv) sampleWorld samplePool).map (fun r =>
        ((r.2.state.stats.find? (sampleSymbol "AB").code).map fun t => t.supply.amount,
          (play (stepWith sampleEnv) r.2 trades).map fun x =>
            (x.2.state.stats.find? (sampleSymbol "AB").code).map fun t => t.supply.amount)) =
      some (some 1000000, some (some 900000)) by decide +kernel)
  obtain ⟨hbefore, hafter⟩ := Prod.mk.inj hobs
  obtain ⟨token, htoken, hsupply⟩ := Option.map_eq_some_iff.mp hbefore
  obtain ⟨h, w, hplay, hafter⟩ := exists_of_play hafter
  obtain ⟨token', htoken', hsupply'⟩ := Option.map_eq_some_iff.mp hafter
  have hrun := run_of_play (step_of_stepWith sampleEnv) _ hplay
  refine ⟨v, w, h, token, token', hrun, htoken, htoken', hsupply, hsupply', ?_⟩
  have hfalls := share_value_never_falls (reaches_of_play sampleWorld_genesis hplay₀) htoken hrun
    ?_
  · obtain ⟨-, token'', htoken'', hle⟩ := hfalls
    obtain rfl := Option.some.inj (htoken'.symm.trans htoken'')
    exact hle
  · intro p hp user lpSymbol hrm
    have hmem := input_mem_of_play hplay hp
    rw [hrm] at hmem
    simp [trades] at hmem

end Runs

end Lemonade
