import Lemonade.Safety.SwapPaths
import Mathlib.Tactic

/-!
# The bounds a user sets

A trade states how much it may cost or must yield.  Buying and selling shares are one
signed operation whose bounds are signed too, and a swap compares what it yields with a
signed expectation.  In terms of the deposits of the user every bound is kept, and what
the user gains or loses is what the pool loses or gains.
-/

namespace Lemonade

open Kernel

section Shares

variable {env : Env} {ctx : Ctx} {s s' : State} {user : Name} {code : SymbolCode}

/-- The pool and the user have exchanged shares against tokens, and nothing is lost. -/
structure LiquidityTrade (s s' : State) (user : Name) (code : SymbolCode)
    (token token' : CurrencyStats) : Prop where
  before : s.stats.find? code = some token
  after : s'.stats.find? code = some token'
  supply : token'.supply.amount.toInt - token.supply.amount.toInt =
    lpBalance s' code user - lpBalance s code user
  info : lpInfo s' code user - lpInfo s code user = lpBalance s' code user - lpBalance s code user
  symbol : ∀ first,
    (token'.reserve first).extendedSymbol = (token.reserve first).extendedSymbol
  reserve : ∀ first, (token'.reserve first).quantity.amount.toInt -
      (token.reserve first).quantity.amount.toInt =
    -(depositOf s' user (token.reserve first).extendedSymbol -
      depositOf s user (token.reserve first).extendedSymbol)

theorem depositOf_of_same
    (h : s'.dexacnts = s.dexacnts) (sym : ExtendedSymbol) :
    depositOf s' user sym = depositOf s user sym := by
  rw [depositOf, h]
  rfl

theorem lpBalance_of_keepsShares
    (h : KeepsShares s s') (code : SymbolCode) (owner : Name) :
    lpBalance s' code owner = lpBalance s code owner := by
  rw [lpBalance, h.accounts]
  rfl

theorem lpInfo_of_keepsShares
    (h : KeepsShares s s') (code : SymbolCode) (owner : Name) :
    lpInfo s' code owner = lpInfo s code owner := by
  rw [lpInfo, h.userinfo]
  rfl

/-- Two payments for different tokens lower each deposit by its own payment. -/
theorem depositOf_two_debits
    {pay : Bool → ExtendedAsset} {sym : Bool → ExtendedSymbol} {s₁ s₂ : State}
    (ok : DepositsOk s.dexacnts)
    (hsym : ∀ first, (pay first).extendedSymbol = sym first)
    (hne : ∀ first, sym first ≠ sym !first)
    (h1 : addSignedExtBalance s user (pay true).neg = .ok s₁)
    (h2 : addSignedExtBalance s₁ user (pay false).neg = .ok s₂) (first : Bool) :
    depositOf s₂ user (sym first) =
      depositOf s user (sym first) - (pay first).quantity.amount.toInt := by
  have hne' : sym true ≠ sym false := hne true
  rw [depositOf_debit (sym first) (ok.add h1) h2, depositOf_debit (sym first) ok h1, hsym, hsym]
  cases first with
  | true =>
      rw [if_pos rfl, if_neg hne'.symm]
      ring
  | false =>
      rw [if_neg hne', if_pos rfl]
      ring

/-- Shares are bought, or sold if `toAdd` is negative, and no payment exceeds its bound. -/
theorem liquidityTrade_of_addSignedLiq
    {toAdd maxAsset1 maxAsset2 : Asset} (inv : LpLedger s)
    (h : addSignedLiq s user toAdd maxAsset1 maxAsset2 = .ok s') :
    ∃ token token',
      LiquidityTrade s s' user toAdd.symbol.code token token' ∧
      lpBalance s' toAdd.symbol.code user =
        lpBalance s toAdd.symbol.code user + toAdd.amount.toInt ∧
      ∀ first, depositOf s user (token.reserve first).extendedSymbol -
          depositOf s' user (token.reserve first).extendedSymbol ≤
        (if first then maxAsset1 else maxAsset2).amount.toInt := by
  obtain ⟨token, token', pay, s₁, s₂, s₃, htoken, hupdate, h1, h2, hcredit, rfl, -, hbound1,
    hbound2⟩ := inv.addSignedLiq h
  have hkeep1 := addSignedExtBalance_keepsShares h1
  have hkeep2 := addSignedExtBalance_keepsShares h2
  have hsupply := hupdate.supply
  set s' : State := { s₃ with stats := s₃.stats.put toAdd.symbol.code token' } with hs'
  have hdeposit : ∀ first, depositOf s' user (token.reserve first).extendedSymbol =
      depositOf s user (token.reserve first).extendedSymbol -
        (pay first).quantity.amount.toInt := by
    intro first
    rw [show depositOf s' user _ = depositOf s₃ user _ from rfl,
      depositOf_of_same hcredit.dexacnts]
    exact depositOf_two_debits inv.deposits hupdate.symbol (inv.pools _ token htoken).reserve_ne
      h1 h2 first
  have hbalance : lpBalance s' toAdd.symbol.code user =
      lpBalance s toAdd.symbol.code user + toAdd.amount.toInt := by
    rw [show lpBalance s' _ _ = lpBalance s₃ _ _ from rfl, hcredit.lpBalance, if_pos ⟨rfl, rfl⟩,
      lpBalance_of_keepsShares hkeep2, lpBalance_of_keepsShares hkeep1]
  have hinfo : lpInfo s' toAdd.symbol.code user =
      lpInfo s toAdd.symbol.code user + toAdd.amount.toInt := by
    rw [show lpInfo s' _ _ = lpInfo s₃ _ _ from rfl, hcredit.lpInfo, if_pos ⟨rfl, rfl⟩,
      lpInfo_of_keepsShares hkeep2, lpInfo_of_keepsShares hkeep1]
  refine ⟨token, token', ⟨htoken, Table.find?_put_self _ _ _, ?_, ?_, hupdate.reserveSymbol, ?_⟩,
    hbalance, ?_⟩
  · omega
  · omega
  · intro first
    have hfirst := hdeposit first
    have hreserve := hupdate.reserve first
    omega
  · intro first
    rw [hdeposit first, sub_sub_cancel]
    cases first with
    | true => exact Int64.le_iff_toInt_le.mp hbound1
    | false => exact Int64.le_iff_toInt_le.mp hbound2

end Shares

section Swaps

variable {env : Env} {ctx : Ctx} {s s' : State} {user : Name} {pairToken : SymbolCode}
variable {extAssetIn : ExtendedAsset} {minExpected : Asset}

/-- The deposits of a user after a swap. -/
structure SwapTrade [Doubles] (s s' : State) (user : Name) (token : CurrencyStats) (first : Bool)
    (input : ExtendedAsset) (minExpected : Asset) : Prop where
  inputSymbol : input.extendedSymbol = (token.reserve first).extendedSymbol
  expectedSymbol : minExpected.symbol = (token.reserve !first).quantity.symbol
  debit : depositOf s user (token.reserve first).extendedSymbol -
      depositOf s' user (token.reserve first).extendedSymbol =
    netOf input.quantity.amount.toInt
  credit : minExpected.amount.toInt ≤
    depositOf s' user (token.reserve !first).extendedSymbol -
      depositOf s user (token.reserve !first).extendedSymbol

theorem swapTrade_of_exchange [Doubles]
    (inv : LpLedger s)
    (h : exchange env ctx s user pairToken extAssetIn minExpected = .ok s') :
    ∃ token first,
      s.stats.find? pairToken = some token ∧
      SwapTrade s s' user token first extAssetIn minExpected := by
  obtain ⟨net, out, s₁, s₂, -, -, hswap, hpay, hget⟩ := exchange_eq_ok h
  have inv1 := inv.swap hswap
  have inv2 := inv1.deposit hpay
  obtain ⟨token, token', first, htoken, hupdate, hmin, hstate⟩ := hswap.update inv.pools
  have hkept : ∀ sym, depositOf s₁ user sym = depositOf s user sym := by
    rw [hstate]
    exact fun sym => rfl
  have hne := (inv.pools _ token htoken).reserve_ne first
  have hnet : net.quantity.amount.toInt = netOf extAssetIn.quantity.amount.toInt := hupdate.net_eq
  refine ⟨token, first, htoken, hupdate.inputSymbol,
    hswap.expectedSymbol (inv.pools _ token htoken) htoken hupdate.inputSymbol, ?_, ?_⟩
  · rw [depositOf_credit _ inv2.deposits hget, depositOf_debit _ inv1.deposits hpay, hkept,
      hupdate.outSymbol, hupdate.netSymbol, if_neg hne.symm, if_pos rfl, ← hnet]
    ring
  · rw [depositOf_credit _ inv2.deposits hget, depositOf_debit _ inv1.deposits hpay, hkept,
      hupdate.outSymbol, hupdate.netSymbol, if_pos rfl, if_neg hne]
    have hle := Int64.le_iff_toInt_le.mp hmin
    linarith

end Swaps

section Main

theorem toInt_neg_of_nonneg {a : Int64} (h : 0 ≤ a) : (-a).toInt = -a.toInt := by
  have hnonneg : 0 ≤ a.toInt := Int64.le_iff_toInt_le.mp h
  have hlt := a.toInt_lt
  rw [Int64.toInt_neg]
  exact Int.bmod_eq_of_le (by omega) (by omega)

variable {env : Env} {ctx : Ctx} {w : World} {user : Name}

/-- In every reachable state a trade keeps the bounds of its user: the shares are exact, no
deposit is lowered by more than the most or raised by less than the least that was allowed,
and the pool changes by the opposite. -/
theorem trades_respect_user_bounds [Doubles] (hw : Reaches env w) :
    (∀ (toBuy maxAsset1 maxAsset2 : Asset) (s' : State),
      addliquidity env ctx w.state user toBuy maxAsset1 maxAsset2 = .ok s' →
      ∃ token token',
        LiquidityTrade w.state s' user toBuy.symbol.code token token' ∧
        lpBalance s' toBuy.symbol.code user =
          lpBalance w.state toBuy.symbol.code user + toBuy.amount.toInt ∧
        depositOf w.state user token.pool1.extendedSymbol -
          depositOf s' user token.pool1.extendedSymbol ≤ maxAsset1.amount.toInt ∧
        depositOf w.state user token.pool2.extendedSymbol -
          depositOf s' user token.pool2.extendedSymbol ≤ maxAsset2.amount.toInt) ∧
    (∀ (toSell minAsset1 minAsset2 : Asset) (s' : State),
      rmliquidity env ctx w.state user toSell minAsset1 minAsset2 = .ok s' →
      ∃ token token',
        LiquidityTrade w.state s' user toSell.symbol.code token token' ∧
        lpBalance s' toSell.symbol.code user =
          lpBalance w.state toSell.symbol.code user - toSell.amount.toInt ∧
        minAsset1.amount.toInt ≤ depositOf s' user token.pool1.extendedSymbol -
          depositOf w.state user token.pool1.extendedSymbol ∧
        minAsset2.amount.toInt ≤ depositOf s' user token.pool2.extendedSymbol -
          depositOf w.state user token.pool2.extendedSymbol) ∧
    ∀ (pairToken : SymbolCode) (extAssetIn : ExtendedAsset) (minExpected : Asset) (s' : State),
      exchange env ctx w.state user pairToken extAssetIn minExpected = .ok s' →
      ∃ token first,
        w.state.stats.find? pairToken = some token ∧
        extAssetIn.extendedSymbol = (token.reserve first).extendedSymbol ∧
        minExpected.symbol = (token.reserve !first).quantity.symbol ∧
        (0 < extAssetIn.quantity.amount →
          depositOf w.state user (token.reserve first).extendedSymbol -
              depositOf s' user (token.reserve first).extendedSymbol ≤
            extAssetIn.quantity.amount.toInt ∧
          minExpected.amount.toInt ≤
            depositOf s' user (token.reserve !first).extendedSymbol -
              depositOf w.state user (token.reserve !first).extendedSymbol) ∧
        (extAssetIn.quantity.amount < 0 →
          depositOf w.state user (token.reserve !first).extendedSymbol -
              depositOf s' user (token.reserve !first).extendedSymbol ≤
            |minExpected.amount.toInt|) := by
  have inv := lpLedger_of_reaches hw
  refine ⟨?_, ?_, ?_⟩
  · intro toBuy maxAsset1 maxAsset2 s' h
    obtain ⟨token, token', trade, hbalance, hbound⟩ :=
      liquidityTrade_of_addSignedLiq inv (addliquidity_eq_ok h).2.2
    exact ⟨token, token', trade, hbalance, hbound true, hbound false⟩
  · intro toSell minAsset1 minAsset2 s' h
    simp only [rmliquidity, bind_eq_ok_iff, requireAuth_eq_ok_iff, check_eq_ok_iff] at h
    obtain ⟨_, -, _, -, _, hpos, _, ⟨hmin1, hmin2⟩, h⟩ := h
    obtain ⟨token, token', trade, hbalance, hbound⟩ := liquidityTrade_of_addSignedLiq inv h
    have hbound1 : _ ≤ (-minAsset1.amount).toInt := hbound true
    have hbound2 : _ ≤ (-minAsset2.amount).toInt := hbound false
    rw [toInt_neg_of_nonneg hmin1] at hbound1
    rw [toInt_neg_of_nonneg hmin2] at hbound2
    rw [Asset.neg_amount, toInt_neg_of_nonneg (Int64.le_of_lt hpos)] at hbalance
    have hraise1 := le_neg_of_le_neg hbound1
    have hraise2 := le_neg_of_le_neg hbound2
    rw [neg_sub] at hraise1 hraise2
    exact ⟨token, token', trade, hbalance, hraise1, hraise2⟩
  · intro pairToken extAssetIn minExpected s' h
    obtain ⟨token, first, htoken, trade⟩ := swapTrade_of_exchange inv h
    refine ⟨token, first, htoken, trade.inputSymbol, trade.expectedSymbol, ?_, ?_⟩
    · intro hpos
      have hlt := netOf_lt (Int64.lt_iff_toInt_lt.mp hpos)
      exact ⟨trade.debit.trans_le hlt.le, trade.credit⟩
    · intro _
      have hcredit := trade.credit
      have habs := neg_abs_le minExpected.amount.toInt
      linarith

open Binary64

/-- Alice buys a thousand shares for at most two thousand of each token. -/
theorem trades_respect_user_bounds_sample :
    ∃ w s', Reaches sampleEnv w ∧
      lpBalance s' (sampleSymbol "AB").code (nameLiteral "alice") =
        lpBalance w.state (sampleSymbol "AB").code (nameLiteral "alice") + 1000 := by
  obtain ⟨h, w, hplay, hobs⟩ := exists_of_play
    (show (play (stepWith sampleEnv) sampleWorld samplePool).map
        (fun r => (addliquidity sampleEnv (sampleCtx 2000 "alice") r.2.state (nameLiteral "alice")
          ⟨1000, sampleSymbol "AB"⟩ (sampleA 2000).quantity (sampleB 2000).quantity).isOk) =
      some true by decide +kernel)
  have hw := reaches_of_play sampleWorld_genesis hplay
  obtain ⟨s', hbuy⟩ := succeeds_iff_isOk.mpr hobs
  obtain ⟨_, _, -, hbalance, -⟩ := (trades_respect_user_bounds hw).1 _ _ _ _ hbuy
  exact ⟨w, s', hw, hbalance⟩

end Main

end Lemonade
