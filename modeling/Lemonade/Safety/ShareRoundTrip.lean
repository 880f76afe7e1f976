import Lemonade.Safety.Exit
import Mathlib.Tactic

/-!
# Buying shares and selling them at once

The price of shares is rounded up when they are bought and down when they are sold, so a
purchase that is undone costs a unit of each token at most, and brings nothing.
-/

namespace Lemonade

open Kernel

section Purchase

variable {s s₁ : State} {user : Name} {toBuy maxAsset1 maxAsset2 : Asset}
  {token token₁ : CurrencyStats}

/-- What a purchase of shares changes. -/
structure Bought (s s₁ : State) (user : Name) (toBuy : Asset) (token token₁ : CurrencyStats)
    (cost : Bool → ℤ) : Prop where
  before : s.stats.find? toBuy.symbol.code = some token
  after : s₁.stats.find? toBuy.symbol.code = some token₁
  symbol : toBuy.symbol = token₁.supply.symbol
  supply : token₁.supply.amount.toInt = token.supply.amount.toInt + toBuy.amount.toInt
  balance : lpBalance s₁ toBuy.symbol.code user =
    lpBalance s toBuy.symbol.code user + toBuy.amount.toInt
  reserveSymbol : ∀ first,
    (token₁.reserve first).extendedSymbol = (token.reserve first).extendedSymbol
  price : ∀ first, IsCeilDiv (cost first)
    (toBuy.amount.toInt * (token.reserve first).quantity.amount.toInt) token.supply.amount.toInt
  reserve : ∀ first, (token₁.reserve first).quantity.amount.toInt =
    (token.reserve first).quantity.amount.toInt + cost first
  deposit : ∀ first, depositOf s₁ user (token.reserve first).extendedSymbol =
    depositOf s user (token.reserve first).extendedSymbol - cost first

theorem exists_bought
    (inv : LpLedger s) (h : addSignedLiq s user toBuy maxAsset1 maxAsset2 = .ok s₁) :
    ∃ token token₁ cost, Bought s s₁ user toBuy token token₁ cost := by
  obtain ⟨token, token₁, trade, hbalance, -⟩ := liquidityTrade_of_addSignedLiq inv h
  obtain ⟨token', toPay1, toPay2, t₁, t₂, t₃, supply, pool1, pool2, hvalid, htoken', hpay1, hpay2,
    h1, h2, h3, hsupply, hpool1, hpool2, -, rfl⟩ := addSignedLiq_eq_ok h
  obtain rfl := Option.some.inj (trade.before.symm.trans htoken')
  obtain rfl := Option.some.inj ((Table.find?_put_self _ _ _).symm.trans trade.after)
  obtain ⟨hcompute1, hsym1⟩ := toPay_eq_ok hpay1
  obtain ⟨hcompute2, hsym2⟩ := toPay_eq_ok hpay2
  obtain ⟨hsymbol, hrange, rfl⟩ := Asset.add_eq_ok_iff.mp hsupply
  obtain ⟨-, hrange1, rfl⟩ := ExtendedAsset.add_eq_ok_iff.mp hpool1
  obtain ⟨-, hrange2, rfl⟩ := ExtendedAsset.add_eq_ok_iff.mp hpool2
  have ok := inv.pools _ token trade.before
  have hreserve : ∀ first, (CurrencyStats.reserve { token with
      supply := ⟨token.supply.amount + toBuy.amount, token.supply.symbol⟩
      pool1 := ⟨⟨token.pool1.quantity.amount + toPay1.quantity.amount,
        token.pool1.quantity.symbol⟩, token.pool1.contract⟩
      pool2 := ⟨⟨token.pool2.quantity.amount + toPay2.quantity.amount,
        token.pool2.quantity.symbol⟩, token.pool2.contract⟩ } first).quantity.amount.toInt =
      (token.reserve first).quantity.amount.toInt +
        (if first then toPay1 else toPay2).quantity.amount.toInt := by
    rintro (_ | _)
    · exact toInt_add_of_inRange (ok.reserve_inRange false) hrange2
    · exact toInt_add_of_inRange (ok.reserve_inRange true) hrange1
  refine ⟨token, _, fun first => (if first then toPay1 else toPay2).quantity.amount.toInt,
    trade.before, trade.after, hsymbol, toInt_add_of_inRange ok.supply_inRange hrange, hbalance,
    trade.symbol, ?_, hreserve, ?_⟩
  · rintro (_ | _)
    · exact (compute_eq_ok hcompute2).2.2.2.2
    · exact (compute_eq_ok hcompute1).2.2.2.2
  · intro first
    have htrade := trade.reserve first
    rw [hreserve] at htrade
    linarith

theorem depositOf_le (ok : DepositsOk s.dexacnts) (sym : ExtendedSymbol) :
    depositOf s user sym ≤ maxAmount := by
  cases hrow : findDexacnt s user sym with
  | none =>
      rw [depositOf_of_none hrow]
      decide
  | some found =>
      obtain ⟨key, balance⟩ := found
      rw [depositOf_of_row ok hrow]
      exact (ok.holdable _ _ (findDexacnt_eq_some hrow).1).inRange.2

theorem KeysLeft.addSignedLiq
    {n : ℕ} (hkeys : KeysLeft s user (n + 2)) (hn : n + 2 < 2 ^ 64 - 2)
    (h : addSignedLiq s user toBuy maxAsset1 maxAsset2 = .ok s₁) (inv : LpLedger s) :
    KeysLeft s₁ user n := by
  obtain ⟨_, _, _, t₁, t₂, t₃, _, _, _, hvalid, -, -, -, h1, h2, h3, -, -, -, -, rfl⟩ :=
    addSignedLiq_eq_ok h
  have inv₂ := (inv.deposit h1).deposit h2
  have hkept := (moveShares_credited inv₂.shares hvalid.1 h3).dexacnts
  have hleft := (KeysLeft.add hkeys h1 (by omega)).add h2 (by omega)
  intro id hid
  rw [dexacntIds] at hid
  simp only [hkept] at hid
  exact hleft id hid

/-- Nothing is asked for at least. -/
def noLess (token : CurrencyStats) (first : Bool) : Asset :=
  ⟨0, (token.reserve first).quantity.symbol⟩

/-- Shares that have just been bought can be sold. -/
theorem Bought.redeemable
    {cost : Bool → ℤ} (bought : Bought s s₁ user toBuy token token₁ cost) (inv : LpLedger s)
    (inv₁ : LpLedger s₁) (hpos : 0 < toBuy.amount.toInt) :
    Redeemable s₁ user toBuy (noLess token true) (noLess token false) token₁ := by
  have ok := inv.pools _ token bought.before
  have ok₁ := inv₁.pools _ token₁ bought.after
  have hredeemed : ∀ first, token₁.redeemed toBuy.amount.toInt first ≤ cost first := by
    intro first
    have hback := (bought.price first).paid_back ok.supply_pos hpos
    rw [CurrencyStats.redeemed, bought.reserve, bought.supply]
    exact hback.2
  refine ⟨bought.symbol, hpos, ?_, ?_, ?_, ?_⟩
  · have hheld := inv.shares.lpBalance_nonneg toBuy.symbol.code user
    rw [bought.balance]
    omega
  · have hsupply := ok.supply_pos
    rw [bought.supply]
    omega
  · have hsym := fun first => congrArg ExtendedSymbol.sym (bought.reserveSymbol first)
    rintro (_ | _)
    · exact ⟨(hsym false).symm, le_refl 0, ok₁.redeemed_nonneg hpos.le false⟩
    · exact ⟨(hsym true).symm, le_refl 0, ok₁.redeemed_nonneg hpos.le true⟩
  · intro first
    have hmax : depositOf s user (token.reserve first).extendedSymbol ≤ maxAmount :=
      depositOf_le inv.deposits _
    have hle := hredeemed first
    rw [bought.reserveSymbol, bought.deposit]
    omega

end Purchase

section Undone

variable {env : Env} {ctx : Ctx} {w : World} {s₁ : State} {user : Name}
  {toBuy maxAsset1 maxAsset2 : Asset} {token : CurrencyStats}

/-- Whoever buys shares can sell them again at once.  That restores the shares of the pool and
costs the buyer at most one unit of each token, which is left to the pool. -/
theorem purchase_can_be_undone [Doubles]
    (hw : Reaches env w) (hkeys : KeysLeft w.state user 3)
    (hbuy : addliquidity env ctx w.state user toBuy maxAsset1 maxAsset2 = .ok s₁)
    (htoken : w.state.stats.find? toBuy.symbol.code = some token) :
    ∃ s₂ token₂,
      rmliquidity env ctx s₁ user toBuy (noLess token true) (noLess token false) = .ok s₂ ∧
      s₂.stats.find? toBuy.symbol.code = some token₂ ∧
      token₂.supply.amount.toInt = token.supply.amount.toInt ∧
      lpBalance s₂ toBuy.symbol.code user = lpBalance w.state toBuy.symbol.code user ∧
      ∀ first, ∃ lost, 0 ≤ lost ∧ lost ≤ 1 ∧
        depositOf s₂ user (token.reserve first).extendedSymbol =
          depositOf w.state user (token.reserve first).extendedSymbol - lost ∧
        (token₂.reserve first).quantity.amount.toInt =
          (token.reserve first).quantity.amount.toInt + lost := by
  have inv := lpLedger_of_reaches hw
  obtain ⟨hauth, hpos, hadd⟩ := addliquidity_eq_ok hbuy
  have hn : 0 < toBuy.amount.toInt := Int64.lt_iff_toInt_lt.mp hpos
  have hopen : env.isDexOpen = true := by
    simp only [addliquidity, bind_eq_ok_iff, check_eq_ok_iff] at hbuy
    obtain ⟨_, hopen, -⟩ := hbuy
    exact hopen
  obtain ⟨_, _, _, _, _, _, -, -, -, -, -, -, inv₁, -, -⟩ := inv.addSignedLiq hadd
  obtain ⟨_, token₁, cost, bought⟩ := exists_bought inv hadd
  obtain rfl := Option.some.inj (htoken.symm.trans bought.before)
  have agree := (symbolsAgree_of_reaches hw).addSignedLiq hadd
  have hkeys₁ : KeysLeft s₁ user 1 := hkeys.addSignedLiq (by norm_num) hadd inv
  have hvalid : ∀ first, (token₁.reserve first).quantity.symbol.isValid = true := by
    intro first
    have hsym := congrArg ExtendedSymbol.sym (bought.reserveSymbol first)
    rw [show (token₁.reserve first).quantity.symbol = _ from hsym]
    exact (registered_of_reaches hw).2.reserve htoken first
  have hsale := bought.redeemable inv inv₁ hn
  obtain ⟨s₂, hsell⟩ :=
    rmliquidity_of_redeemable inv₁ agree hopen hauth hkeys₁ hvalid bought.after hsale
  obtain ⟨_, token₂, trade, hbalance, -⟩ :=
    liquidityTrade_of_addSignedLiq inv₁ (rmliquidity_eq_ok hsell).2.2
  obtain rfl := Option.some.inj (bought.after.symm.trans trade.before)
  have hsupply := trade.supply
  rw [Asset.neg_symbol, Asset.neg_amount, toInt_neg_of_nonneg (Int64.le_of_lt hpos),
    bought.balance] at hbalance
  rw [Asset.neg_symbol, hbalance, bought.balance, bought.supply] at hsupply
  refine ⟨s₂, token₂, hsell, trade.after, by omega, by omega, ?_⟩
  intro first
  have hback := (bought.price first).paid_back (inv.pools _ token htoken).supply_pos hn
  have hgain := depositOf_of_rmliquidity inv₁ hkeys₁ hvalid bought.after hsell first
  have hreserve := trade.reserve first
  rw [CurrencyStats.redeemed, bought.reserve, bought.supply, bought.reserveSymbol,
    bought.deposit] at hgain
  rw [bought.reserveSymbol, bought.reserve, hgain, bought.deposit] at hreserve
  refine ⟨cost first - toBuy.amount.toInt * ((token.reserve first).quantity.amount.toInt +
    cost first) / (token.supply.amount.toInt + toBuy.amount.toInt), ?_, ?_, ?_, ?_⟩
  · exact sub_nonneg.mpr hback.2
  · exact sub_le_comm.mp hback.1
  · rw [hgain]
    ring
  · linarith

open Binary64

/-- Alice buys a thousand shares of her pool and sells them again. -/
theorem purchase_can_be_undone_sample :
    ∃ w s₁ s₂ token, Reaches sampleEnv w ∧
      addliquidity sampleEnv (sampleCtx 2000 "alice") w.state (nameLiteral "alice")
        ⟨1000, sampleSymbol "AB"⟩ (sampleA 2000).quantity (sampleB 2000).quantity = .ok s₁ ∧
      rmliquidity sampleEnv (sampleCtx 2000 "alice") s₁ (nameLiteral "alice")
        ⟨1000, sampleSymbol "AB"⟩ (noLess token true) (noLess token false) = .ok s₂ ∧
      lpBalance s₂ (sampleSymbol "AB").code (nameLiteral "alice") =
        lpBalance w.state (sampleSymbol "AB").code (nameLiteral "alice") := by
  obtain ⟨h, w, hplay, hobs⟩ := exists_of_play
    (show (play (stepWith sampleEnv) sampleWorld samplePool).map (fun r =>
        ((addliquidity sampleEnv (sampleCtx 2000 "alice") r.2.state (nameLiteral "alice")
            ⟨1000, sampleSymbol "AB"⟩ (sampleA 2000).quantity (sampleB 2000).quantity).isOk,
          (r.2.state.stats.find? (sampleSymbol "AB").code).isSome,
          decide (∀ id ∈ dexacntIds r.2.state (nameLiteral "alice"), id + 3 + 1 < 2 ^ 64 - 2))) =
      some (true, true, true) by decide +kernel)
  simp only [Prod.mk.injEq, decide_eq_true_eq] at hobs
  obtain ⟨hbuy, hstats, hkeys⟩ := hobs
  obtain ⟨s₁, hbuy⟩ := succeeds_iff_isOk.mpr hbuy
  obtain ⟨token, htoken⟩ := Option.isSome_iff_exists.mp hstats
  have hw := reaches_of_play sampleWorld_genesis hplay
  obtain ⟨s₂, _, hsell, -, -, hbalance, -⟩ := purchase_can_be_undone hw hkeys hbuy htoken
  exact ⟨w, s₁, s₂, token, hw, hbuy, hsell, hbalance⟩

end Undone

end Lemonade
