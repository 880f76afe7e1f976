import Lemonade.Safety.CeilingDivision
import Lemonade.Safety.Custody
import Lemonade.Safety.DexBooks
import Lemonade.Safety.UserBounds
import Mathlib.Tactic

/-!
# The deals of the contract

What each action does to the books of the contract is a deal of the exchange, or a few
deals one after the other.  A swap books a fee that nobody pays, and then swaps what is
left of the input; the price of shares is rounded up.
-/

namespace Lemonade

open Kernel

section Trades

variable {env : Env} {ctx : Ctx} {s s' : State} {user : Name} {code : SymbolCode}
variable {token token' : CurrencyStats}

/-- Steps that make an entry and keep the pools listed as they are. -/
theorem asExchange_post
    {b : DexBooks}
    (hbooks : depositBooks s'.dexacnts + shareBooks s'.accounts + poolBooks s'.stats =
      depositBooks s.dexacnts + shareBooks s.accounts + poolBooks s.stats + b)
    (hmarket : ∀ code, (s'.stats.find? code).map CurrencyStats.sides =
      (s.stats.find? code).map CurrencyStats.sides) : s'.asExchange = s.asExchange.post b :=
  Exchange.ext hbooks (funext hmarket)

theorem asExchange_of_same
    (hdexacnts : s'.dexacnts = s.dexacnts) (haccounts : shareBooks s'.accounts =
      shareBooks s.accounts) (hstats : s'.stats = s.stats) : s'.asExchange = s.asExchange := by
  refine Exchange.ext ?_ ?_
  · simp only [State.asExchange, hdexacnts, haccounts, hstats]
  · simp only [State.asExchange, hstats]

theorem asExchange_of_keepsDex (h : KeepsDex s s') : s'.asExchange = s.asExchange :=
  asExchange_of_same h.2.2.2 (congrArg shareBooks h.1) h.2.2.1

/-- Replacing the row of a pool by one with the same tokens lists the same markets. -/
theorem market_put
    (htoken : s.stats.find? code = some token) (hsides : token'.sides = token.sides)
    (c : SymbolCode) :
    ((s.stats.put code token').find? c).map CurrencyStats.sides =
      (s.stats.find? c).map CurrencyStats.sides := by
  refine Table.map_find?_put _ _ ?_ c
  rw [htoken, Option.map_some, hsides]

theorem depositOf_nonneg
    (ok : DepositsOk s.dexacnts) (user : Name) (sym : ExtendedSymbol) :
    0 ≤ depositOf s user sym := by
  unfold depositOf deposited
  refine Table.sum_nonneg ?_
  intro key balance hrow
  split_ifs
  · exact (ok.holdable key balance hrow).nonneg
  · exact le_refl _

/-- A payment into or out of a deposit settles it. -/
theorem trade_settle
    {toAdd : ExtendedAsset} (inv : LpLedger s) (h : addSignedExtBalance s user toAdd = .ok s') :
    s.asExchange.Trade (.settle user toAdd.extendedSymbol toAdd.quantity.amount.toInt)
      s'.asExchange := by
  have hkeep := addSignedExtBalance_keepsShares h
  have hstate : s'.asExchange = s.asExchange.post
      (.single (.deposit user toAdd.extendedSymbol) toAdd.quantity.amount.toInt) := by
    refine asExchange_post ?_ fun c => by rw [hkeep.stats]
    rw [depositBooks_add inv.deposits h, hkeep.accounts, hkeep.stats]
    abel
  rw [hstate]
  refine .settle ?_
  have hcredit := depositOf_credit toAdd.extendedSymbol inv.deposits h
  rw [if_pos rfl] at hcredit
  rw [asExchange_deposit, ← hcredit]
  exact depositOf_nonneg (inv.deposits.add h) _ _

theorem trade_settle_debit
    {toPay : ExtendedAsset} (inv : LpLedger s)
    (h : addSignedExtBalance s user toPay.neg = .ok s') :
    s.asExchange.Trade (.settle user toPay.extendedSymbol (-toPay.quantity.amount.toInt))
      s'.asExchange := by
  have hneg : toPay.neg.quantity.amount.toInt = -toPay.quantity.amount.toInt :=
    toInt_neg_of_inRange (amountInRange_of_neg (addSignedExtBalance_eq_ok h).1.1)
  have htrade := trade_settle inv h
  rw [hneg] at htrade
  exact htrade

/-- A user has one row for each token. -/
theorem depositOf_of_row
    {sym : ExtendedSymbol} {key : Name × Nat} {balance : ExtendedAsset}
    (ok : DepositsOk s.dexacnts) (hrow : findDexacnt s user sym = some (key, balance)) :
    depositOf s user sym = balance.quantity.amount.toInt := by
  obtain ⟨hfind, rfl, rfl⟩ := findDexacnt_eq_some hrow
  have herase := deposited_erase (fun u x => u = key.1 ∧ x = balance.extendedSymbol) hfind
  have hzero : deposited (fun u x => u = key.1 ∧ x = balance.extendedSymbol)
      (s.dexacnts.erase key) = 0 := by
    refine Table.sum_eq_zero ?_
    rintro ⟨u, i⟩ b hb
    rw [Table.find?_erase] at hb
    split_ifs at hb with hkey
    rw [if_neg]
    rintro ⟨rfl, hsym⟩
    exact hkey (Prod.ext rfl (ok.unique _ _ _ _ _ hfind hb hsym.symm))
  rw [hzero, if_pos ⟨rfl, rfl⟩] at herase
  unfold depositOf
  omega

theorem trade_closeext
    {dest : Name} {extSymbol : ExtendedSymbol} {memo : Text} {sent : List Inline}
    (inv : LpLedger s) (h : closeext env ctx s user dest extSymbol memo = .ok (s', sent)) :
    s.asExchange.Trade (.settle user extSymbol (-depositOf s user extSymbol)) s'.asExchange := by
  obtain ⟨key, balance, -, hrow, rfl, -⟩ := closeext_eq_ok h
  have hdeposit := depositOf_of_row inv.deposits hrow
  obtain ⟨hfind, rfl, rfl⟩ := findDexacnt_eq_some hrow
  have hstate : ({ s with dexacnts := s.dexacnts.erase key } : State).asExchange =
      s.asExchange.post (.single (.deposit key.1 balance.extendedSymbol)
        (-depositOf s key.1 balance.extendedSymbol)) := by
    refine asExchange_post ?_ fun _ => rfl
    rw [depositBooks_erase hfind, hdeposit, Finsupp.single_neg]
    abel
  rw [hstate]
  refine .settle ?_
  rw [asExchange_deposit]
  omega

theorem trade_send
    {source dest : Name} {quantity : Asset} {memo : Text} (inv : LpLedger s)
    (h : transfer ctx s source dest quantity memo = .ok s') :
    s.asExchange.Trade (.send source dest quantity.symbol.code quantity.amount.toInt)
      s'.asExchange := by
  obtain ⟨-, hpos, s₁, h1, ok1, h2⟩ := transfer_credited inv.shares h
  have hstate : s'.asExchange = s.asExchange.post (move (.shares source quantity.symbol.code)
      (.shares dest quantity.symbol.code) quantity.amount.toInt) := by
    refine asExchange_post ?_ fun c => by rw [h2.stats, h1.stats]
    rw [h2.dexacnts, h1.dexacnts, h2.stats, h1.stats, shareBooks_of_credited h2,
      shareBooks_of_credited h1, Finsupp.single_neg, move]
    abel
  rw [hstate]
  refine .send hpos ?_
  have hdebit := h1.lpBalance quantity.symbol.code source
  have hnonneg := ok1.lpBalance_nonneg quantity.symbol.code source
  rw [if_pos ⟨rfl, rfl⟩] at hdebit
  rw [asExchange_shares]
  omega

/-- The price of shares is rounded up exactly. -/
theorem isCeilDiv_of_toPay
    {toAdd supply : Int64} {pool paying : ExtendedAsset}
    (h : toPay toAdd supply pool = .ok paying) :
    IsCeilDiv paying.quantity.amount.toInt (toAdd.toInt * pool.quantity.amount.toInt)
      supply.toInt := by
  obtain ⟨hcompute, -⟩ := toPay_eq_ok h
  obtain ⟨-, -, -, -, hceil⟩ := compute_eq_ok hcompute
  exact hceil

/-- Two payments and a change of shares, as entries of an investment. -/
theorem invest_entries
    {n : ℤ} {pay : Bool → ExtendedAsset} (h : LiquidityUpdate token token' n pay) :
    (token'.entry code true - token.entry code true) +
        (token'.entry code false - token.entry code false) -
        .single (.deposit user (pay true).extendedSymbol) (pay true).quantity.amount.toInt -
        .single (.deposit user (pay false).extendedSymbol) (pay false).quantity.amount.toInt =
      invest user code token.sides fun first => (pay first).quantity.amount.toInt := by
  rw [h.entry, h.entry, h.symbol, h.symbol, invest, move, move]
  simp only [CurrencyStats.sides]
  abel

theorem trade_subscribe
    {toAdd maxAsset1 maxAsset2 : Asset} (inv : LpLedger s)
    (h : addSignedLiq s user toAdd maxAsset1 maxAsset2 = .ok s') :
    ∃ pay, s.asExchange.Trade (.subscribe user toAdd.symbol.code toAdd.amount.toInt pay)
      s'.asExchange := by
  obtain ⟨token, toPay1, toPay2, s₁, s₂, s₃, supply, pool1, pool2, hvalid, htoken, hpay1, hpay2,
    h1, h2, h3, hsupply, hpool1, hpool2, hne, hstate⟩ := addSignedLiq_eq_ok h
  have inv1 := inv.deposit h1
  have inv2 := inv1.deposit h2
  have hkeep1 := addSignedExtBalance_keepsShares h1
  have hkeep2 := addSignedExtBalance_keepsShares h2
  have hcredit := moveShares_credited inv2.shares hvalid.1 h3
  have hstats : s₃.stats = s.stats := by rw [hcredit.stats, hkeep2.stats, hkeep1.stats]
  have haccounts : s₂.accounts = s.accounts := by rw [hkeep2.accounts, hkeep1.accounts]
  have hbalance : lpBalance s₃ toAdd.symbol.code user =
      lpBalance s toAdd.symbol.code user + toAdd.amount.toInt := by
    rw [hcredit.lpBalance, if_pos ⟨rfl, rfl⟩, lpBalance_of_keepsShares hkeep2,
      lpBalance_of_keepsShares hkeep1]
  have hheld : 0 ≤ lpBalance s toAdd.symbol.code user + toAdd.amount.toInt := by
    rw [← hbalance]
    exact (hcredit.sharesOk inv2.shares).lpBalance_nonneg _ _
  have htotal : lpTotal s toAdd.symbol.code = token.supply.amount.toInt := by
    rw [inv.total, lpSupply, Table.weight_of_find? htoken]
  have hle := inv.shares.lpBalance_le_total toAdd.symbol.code user
  let pay : Bool → ExtendedAsset := fun first => if first then toPay1 else toPay2
  have hupdate : LiquidityUpdate token
      { token with supply := supply, pool1 := pool1, pool2 := pool2 } toAdd.amount.toInt pay :=
    (inv.pools _ token htoken).liquidity hpay1 hpay2 hsupply hpool1 hpool2 hne (by omega)
  have hrow : s'.stats = s.stats.put toAdd.symbol.code
      { token with supply := supply, pool1 := pool1, pool2 := pool2 } := by
    rw [hstate, ← hstats]
  have hshares : s'.accounts = s₃.accounts := by rw [hstate]
  have hdexacnts : s'.dexacnts = s₂.dexacnts := by
    rw [hstate]
    exact hcredit.dexacnts
  have hbooks : s'.asExchange = s.asExchange.post
      (invest user toAdd.symbol.code token.sides (fun first => (pay first).quantity.amount.toInt) +
        .single (.shares user toAdd.symbol.code) toAdd.amount.toInt) := by
    refine asExchange_post ?_ fun c => ?_
    · rw [hrow, hshares, hdexacnts, poolBooks_put htoken, shareBooks_of_credited hcredit,
        haccounts, depositBooks_debit inv1.deposits h2, depositBooks_debit inv.deposits h1,
        ← invest_entries hupdate]
      simp only [pay, if_true, Bool.false_eq_true, if_false]
      abel
    · rw [hrow]
      exact market_put htoken (funext hupdate.reserveSymbol) c
  rw [hbooks]
  refine ⟨_, .subscribe (asExchange_market htoken) ?_ ?_ ?_ ?_⟩
  · intro first
    rw [asExchange_reserve htoken, asExchange_supply, htotal]
    cases first with
    | true => exact isCeilDiv_of_toPay hpay1
    | false => exact isCeilDiv_of_toPay hpay2
  · intro first
    have hdebit : depositOf s₂ user (token.sides first) =
        depositOf s user (token.sides first) - (pay first).quantity.amount.toInt :=
      depositOf_two_debits inv.deposits hupdate.symbol (inv.pools _ token htoken).reserve_ne h1 h2
        first
    have hnonneg := depositOf_nonneg inv2.deposits user (token.sides first)
    rw [asExchange_deposit]
    omega
  · rw [asExchange_shares]
    exact hheld
  · have hsum := hupdate.supply
    have hpos := hupdate.ok.supply_pos
    rw [asExchange_supply, htotal]
    omega

/-- The entries that a swap makes in a pool, and its price. -/
structure SwapEntries [Doubles] (s s' : State) (pairToken : SymbolCode) (token : CurrencyStats)
    (first : Bool) (input net out : ExtendedAsset) : Prop where
  before : s.stats.find? pairToken = some token
  inputSymbol : input.extendedSymbol = token.sides first
  netSymbol : net.extendedSymbol = token.sides first
  outSymbol : out.extendedSymbol = token.sides !first
  net_eq : net.quantity.amount.toInt = netOf input.quantity.amount.toInt
  stays : 0 < (token.reserve first).quantity.amount.toInt + net.quantity.amount.toInt
  priced : out.quantity.amount.toInt = swapOut (token.reserve first).quantity.amount.toInt
    (token.reserve !first).quantity.amount.toInt net.quantity.amount.toInt
  dexacnts : s'.dexacnts = s.dexacnts
  accounts : s'.accounts = s.accounts
  pools : poolBooks s'.stats = poolBooks s.stats +
    .single (.fee pairToken first (token.sides first)) (feeCredit token first input) +
    .single (.reserve pairToken first (token.sides first)) net.quantity.amount.toInt -
    .single (.reserve pairToken (!first) (token.sides !first)) out.quantity.amount.toInt
  markets : ∀ c, (s'.stats.find? c).map CurrencyStats.sides =
    (s.stats.find? c).map CurrencyStats.sides

theorem Swapped.entries [Doubles]
    {pairToken : SymbolCode} {input net out : ExtendedAsset} {minExpected : Asset}
    (inv : LpLedger s) (h : Swapped s pairToken input minExpected net out s') :
    ∃ token first, SwapEntries s s' pairToken token first input net out := by
  obtain ⟨token, first, htoken, hnetSym, -, houtput⟩ := h.largestOutput inv.pools
  obtain ⟨_, token', first', htoken', hupdate, -, rfl⟩ := h.update inv.pools
  obtain rfl := Option.some.inj (htoken.symm.trans htoken')
  have ok := inv.pools _ token htoken
  obtain rfl := ok.side_unique (hnetSym.symm.trans hupdate.netSymbol)
  refine ⟨token, first, htoken, hupdate.inputSymbol, hnetSym, hupdate.outSymbol, hupdate.net_eq,
    houtput.nonempty, houtput.eq_floor, rfl, rfl, ?_, ?_⟩
  · have hin := hupdate.entry_in pairToken ok
    have hout := hupdate.entry_out pairToken
    have hput : poolBooks (s.stats.put pairToken token') = _ := poolBooks_put htoken
    rw [hput]
    cases first with
    | true =>
        rw [Bool.not_true] at hout ⊢
        rw [hin, hout]
        abel
    | false =>
        rw [Bool.not_false] at hout ⊢
        rw [hin, hout]
        abel
  · exact market_put htoken (funext hupdate.reserveSymbol)

/-- The exchange after the fee of a swap has been booked. -/
theorem SwapEntries.trade_accrue [Doubles]
    {pairToken : SymbolCode} {first : Bool} {input net out : ExtendedAsset}
    (h : SwapEntries s s' pairToken token first input net out) :
    s.asExchange.Trade
      (.accrue pairToken first input.extendedSymbol (feeCredit token first input))
      (s.asExchange.post (.single (.fee pairToken first (token.sides first))
        (feeCredit token first input))) := by
  rw [h.inputSymbol]
  exact .accrue (asExchange_market h.before)

/-- An account that has the input in its deposit can swap it. -/
theorem SwapEntries.trade_swap [Doubles]
    {pairToken : SymbolCode} {first : Bool} {input net out : ExtendedAsset} {ex : Dex}
    (h : SwapEntries s s' pairToken token first input net out)
    (hmarket : ex.market = s.asExchange.market)
    (hreserve : ∀ b x, ex.reserve pairToken b x = s.asExchange.reserve pairToken b x)
    (funded : net.quantity.amount.toInt ≤ ex.deposit user (token.sides first))
    (covered : 0 ≤ ex.deposit user (token.sides !first) + out.quantity.amount.toInt) :
    ex.Trade
      (.swap user pairToken first (netOf input.quantity.amount.toInt) out.quantity.amount.toInt)
      (ex.post (move (.deposit user (token.sides first))
          (.reserve pairToken first (token.sides first)) net.quantity.amount.toInt +
        move (.reserve pairToken (!first) (token.sides !first))
          (.deposit user (token.sides !first)) out.quantity.amount.toInt)) := by
  have hsides : s.asExchange.market pairToken = some token.sides := asExchange_market h.before
  rw [← h.net_eq]
  refine .swap (hmarket ▸ hsides) ?_ ?_ funded covered
  · rw [hreserve, asExchange_reserve h.before]
    exact h.stays
  · rw [hreserve, hreserve, asExchange_reserve h.before, asExchange_reserve h.before]
    exact h.priced

/-- A swap from a deposit books the fee and then swaps what is left of the input. -/
theorem trade_exchange [Doubles]
    {pairToken : SymbolCode} {extAssetIn : ExtendedAsset} {minExpected : Asset}
    (inv : LpLedger s)
    (h : exchange env ctx s user pairToken extAssetIn minExpected = .ok s') :
    ∃ token first ex out, s.stats.find? pairToken = some token ∧
      extAssetIn.extendedSymbol = token.sides first ∧
      s.asExchange.Trade (.accrue pairToken first extAssetIn.extendedSymbol
        (feeCredit token first extAssetIn)) ex ∧
      ex.Trade (.swap user pairToken first (netOf extAssetIn.quantity.amount.toInt) out)
        s'.asExchange := by
  obtain ⟨net, out, s₁, s₂, -, -, hswap, hpay, hget⟩ := exchange_eq_ok h
  obtain ⟨token, first, hentries⟩ := hswap.entries inv
  have inv1 := inv.swap hswap
  have inv2 := inv1.deposit hpay
  have hkeep2 := addSignedExtBalance_keepsShares hpay
  have hkeep3 := addSignedExtBalance_keepsShares hget
  let ex : Dex := s.asExchange.post (.single (.fee pairToken first (token.sides first))
    (feeCredit token first extAssetIn))
  have hdeposit : ∀ sym, ex.deposit user sym = depositOf s user sym := by
    intro sym
    rw [Exchange.post_deposit, asExchange_deposit]
    simp
  have hend : s'.asExchange = ex.post (move (.deposit user (token.sides first))
        (.reserve pairToken first (token.sides first)) net.quantity.amount.toInt +
      move (.reserve pairToken (!first) (token.sides !first))
        (.deposit user (token.sides !first)) out.quantity.amount.toInt) := by
    refine Exchange.ext ?_ (funext fun c => ?_)
    · simp only [State.asExchange, ex, Exchange.post_books, move]
      rw [depositBooks_add inv2.deposits hget, depositBooks_debit inv1.deposits hpay,
        hkeep3.accounts, hkeep2.accounts, hkeep3.stats, hkeep2.stats, hentries.dexacnts,
        hentries.accounts, hentries.pools, hentries.netSymbol, hentries.outSymbol]
      abel
    · simp only [State.asExchange, ex, Exchange.post_market]
      rw [hkeep3.stats, hkeep2.stats, hentries.markets]
  have hother : token.sides first ≠ token.sides !first :=
    (inv.pools _ token hentries.before).reserve_ne first
  refine ⟨token, first, ex, out.quantity.amount.toInt, hentries.before, hentries.inputSymbol,
    hentries.trade_accrue, ?_⟩
  rw [hend]
  refine hentries.trade_swap rfl (fun b x => ?_) ?_ ?_
  · rw [Exchange.post_reserve]
    simp
  · have hpaid := depositOf_debit (token.sides first) inv1.deposits hpay
    have hnonneg := depositOf_nonneg inv2.deposits user (token.sides first)
    rw [hentries.netSymbol, if_pos rfl, depositOf_of_same hentries.dexacnts] at hpaid
    rw [hdeposit]
    omega
  · have hgot := depositOf_credit (token.sides !first) inv2.deposits hget
    have hpaid := depositOf_debit (token.sides !first) inv1.deposits hpay
    have hnonneg := depositOf_nonneg (inv2.deposit hget).deposits user (token.sides !first)
    rw [hentries.outSymbol, if_pos rfl] at hgot
    rw [hentries.netSymbol, if_neg hother, depositOf_of_same hentries.dexacnts] at hpaid
    rw [hdeposit]
    omega

end Trades

section Markets

variable {env : Env} {ctx : Ctx} {s s' : State} {user : Name} {code : SymbolCode}

/-- The removal of a pool winds up its market. -/
theorem trade_rmpool
    {lpSymbol : Symbol} (inv : LpLedger s) (h : rmpool env ctx s user lpSymbol = .ok s') :
    s.asExchange.Trade (.wind lpSymbol.code) s'.asExchange := by
  obtain ⟨token, poollists, lemindexes, swaplists, accounts, -, htoken, -, hstate⟩ :=
    rmpool_eq_ok h
  have hstats : s'.stats = s.stats.erase lpSymbol.code := by rw [hstate]
  have hdexacnts : s'.dexacnts = s.dexacnts := by rw [hstate]
  have hends : s'.asExchange =
      (s.asExchange.clear (Holding.OfMarket lpSymbol.code)).list lpSymbol.code none := by
    classical
    refine Exchange.ext (Finsupp.ext fun k => ?_) (funext fun c => ?_)
    · rw [Exchange.list_books, Exchange.clear_books, Books.clear_apply]
      have hpool : ∀ c, k.OfMarket c → (∀ owner c, k ≠ .shares owner c) →
          s'.asExchange.books k =
            if k.OfMarket lpSymbol.code then 0 else s.asExchange.books k := by
        intro c hk hshares
        have hcode : k.OfMarket lpSymbol.code ↔ lpSymbol.code = c := by
          cases k with
          | deposit => exact hk.elim
          | shares owner c => exact absurd rfl (hshares owner c)
          | reserve q side x => exact ⟨fun he => he.symm.trans hk, fun he => hk.trans he.symm⟩
          | fee q side x => exact ⟨fun he => he.symm.trans hk, fun he => hk.trans he.symm⟩
        rw [asExchange_pool c hk hshares, asExchange_pool c hk hshares, hstats, Table.weight_erase]
        simp only [hcode]
      cases k with
      | deposit owner sym =>
          have hsame : s'.asExchange.deposit owner sym = s.asExchange.deposit owner sym := by
            rw [asExchange_deposit, asExchange_deposit, depositOf_of_same hdexacnts]
          exact hsame.trans (if_neg id).symm
      | shares owner c =>
          have hbalance : s'.asExchange.shares owner c =
              if c = lpSymbol.code then 0 else s.asExchange.shares owner c := by
            rw [asExchange_shares, asExchange_shares, lpBalance_rmpool inv h]
          exact hbalance.trans (if_congr Iff.rfl rfl rfl)
      | reserve c side sym => exact hpool c rfl fun _ _ => by simp
      | fee c side sym => exact hpool c rfl fun _ _ => by simp
    · rw [Exchange.list_market, Exchange.clear_market]
      simp only [State.asExchange, hstats, Table.find?_erase]
      by_cases hc : c = lpSymbol.code
      · simp [hc]
      · simp [hc, Ne.symm hc]
  rw [hends]
  exact .wind (asExchange_market htoken)

/-- The row that `clmpoolreward` leaves. -/
theorem clmpoolreward_stats [Doubles]
    {pairTokenSymbol : Text} {total pool : ℚ} {sent : List Inline}
    (h : clmpoolreward env ctx s pairTokenSymbol total pool = .ok (s', sent)) :
    ∃ code token fee1 fee2, SymbolCode.ofText pairTokenSymbol = .ok code ∧
      s.stats.find? code = some token ∧
      fee1.quantity.amount = 0 ∧ fee2.quantity.amount = 0 ∧
      s'.accounts = s.accounts ∧ s'.dexacnts = s.dexacnts ∧
      s'.stats = s.stats.put code { token with fee1 := fee1, fee2 := fee2 } := by
  simp only [clmpoolreward, bind_eq_ok_iff, requireAuth_eq_ok_iff, check_eq_ok_iff,
    require_eq_ok_iff, pure_eq_ok_iff, Prod.mk.injEq] at h
  obtain ⟨_, -, ⟨s₁, issued⟩, hissue, code, hcode, config, -, token, htoken, _, -, _, -, rfl,
    -⟩ := h
  obtain ⟨_, config', -, rfl, -, -⟩ := issueLem_frame hissue
  exact ⟨code, token, _, _, hcode, htoken, rfl, rfl, rfl, rfl, rfl⟩

/-- The fees that are paid out are cleared. -/
theorem trade_clmpoolreward [Doubles]
    {pairTokenSymbol : Text} {total pool : ℚ} {sent : List Inline}
    (h : clmpoolreward env ctx s pairTokenSymbol total pool = .ok (s', sent)) :
    ∃ code, SymbolCode.ofText pairTokenSymbol = .ok code ∧
      s.asExchange.Trade (.distribute code) s'.asExchange := by
  obtain ⟨code, token, fee1, fee2, hcode, htoken, hzero1, hzero2, haccounts, hdexacnts, hstats⟩ :=
    clmpoolreward_stats h
  refine ⟨code, hcode, ?_⟩
  have hends : s'.asExchange = s.asExchange.clear (Holding.FeeOf code) := by
    classical
    refine Exchange.ext (Finsupp.ext fun k => ?_) (funext fun c => ?_)
    · rw [Exchange.clear_books, Books.clear_apply]
      have hrow : ∀ c, s'.stats.find? c = if code = c
          then some { token with fee1 := fee1, fee2 := fee2 } else s.stats.find? c := by
        intro c
        rw [hstats, Table.find?_put]
      cases k with
      | deposit owner sym =>
          have hsame : s'.asExchange.deposit owner sym = s.asExchange.deposit owner sym := by
            rw [asExchange_deposit, asExchange_deposit, depositOf_of_same hdexacnts]
          exact hsame.trans (if_neg id).symm
      | shares owner c =>
          have hsame : s'.asExchange.shares owner c = s.asExchange.shares owner c := by
            rw [asExchange_shares, asExchange_shares, lpBalance, haccounts]
            rfl
          exact hsame.trans (if_neg id).symm
      | reserve c side sym =>
          have hk : Holding.OfMarket c
              (.reserve c side sym : Holding Name ExtendedSymbol SymbolCode) :=
            rfl
          refine Eq.trans ?_ (if_neg id).symm
          rw [asExchange_pool c hk (by simp), asExchange_pool c hk (by simp),
            Table.weight, Table.weight, hrow]
          split_ifs with hc
          · subst hc
            rw [htoken]
            simp [CurrencyStats.entry, CurrencyStats.reserve]
          · rfl
      | fee c side sym =>
          have hk : Holding.OfMarket c (.fee c side sym : Holding Name ExtendedSymbol SymbolCode) :=
            rfl
          refine Eq.trans ?_ (if_congr eq_comm rfl rfl)
          rw [asExchange_pool c hk (by simp), asExchange_pool c hk (by simp),
            Table.weight, Table.weight, hrow]
          split_ifs with hc
          · simp [CurrencyStats.entry, CurrencyStats.fee, hzero1, hzero2]
          · rfl
    · rw [Exchange.clear_market]
      simp only [State.asExchange, hstats]
      exact market_put htoken (funext fun first => by cases first <;> rfl) c
  rw [hends]
  exact .distribute (asExchange_market htoken)

/-- What a pool is stocked with. -/
def stock (initialPool1 initialPool2 : ExtendedAsset) (first : Bool) : ExtendedAsset :=
  if first then initialPool1 else initialPool2

/-- A pool is launched from two deposits. -/
theorem trade_inittoken
    {newSymbol : Symbol} {initialPool1 initialPool2 : ExtendedAsset} (inv : LpLedger s)
    (h : inittoken env ctx s user newSymbol initialPool1 initialPool2 = .ok s') :
    ∃ s₁ shares, payPoolFee s user = .ok s₁ ∧
      s₁.asExchange.Trade (.launch user newSymbol.code
        (fun first => (stock initialPool1 initialPool2 first).extendedSymbol)
        (fun first => (stock initialPool1 initialPool2 first).quantity.amount.toInt) shares)
        s'.asExchange := by
  obtain ⟨newToken, s₁, swaplists, poollists, lemindexes, s₂, s₃, -, hpos1, hpos2, hmax1, hmax2,
    hsymbol, hrange, hshares_pos, hcodes, hfee, hfresh, hshares, h1, h2⟩ := inittoken_eq_ok h
  subst hsymbol
  have inv1 := inv.of_keepsShares (payPoolFee_keepsShares hfee) (inv.deposits.payPoolFee hfee)
  have hcredit := addBalance_credited hshares (inv1.shares.of_same rfl rfl) ⟨by omega, hrange⟩
  have hkeep1 := addSignedExtBalance_keepsShares h1
  have hkeep2 := addSignedExtBalance_keepsShares h2
  have ok2 : DepositsOk s₂.dexacnts := inv1.deposits.of_same hcredit.dexacnts
  have ok3 := ok2.add h1
  have ok4 := ok3.add h2
  let n : Bool → ExtendedAsset := stock initialPool1 initialPool2
  let x : Bool → ExtendedSymbol := fun first => (n first).extendedSymbol
  have hne : ∀ first, x first ≠ x !first := by
    have hne' : initialPool1.extendedSymbol ≠ initialPool2.extendedSymbol := by
      intro he
      have hsym : initialPool1.quantity.symbol = initialPool2.quantity.symbol :=
        congrArg ExtendedSymbol.sym he
      exact hcodes (congrArg Symbol.code hsym)
    intro first
    cases first with
    | true => exact hne'
    | false => exact hne'.symm
  have hstats : s'.stats = s₁.stats.put newToken.symbol.code
      (newPool user newToken.symbol newToken initialPool1 initialPool2) := by
    rw [hkeep2.stats, hkeep1.stats, hcredit.stats]
  have hpools : poolBooks s'.stats = poolBooks s₁.stats +
      .single (.reserve newToken.symbol.code true initialPool1.extendedSymbol)
        initialPool1.quantity.amount.toInt +
      .single (.reserve newToken.symbol.code false initialPool2.extendedSymbol)
        initialPool2.quantity.amount.toInt := by
    rw [hstats, poolBooks, Table.sum_put, Table.weight_of_find?_none hfresh, poolBooks]
    simp only [CurrencyStats.entry, newPool, CurrencyStats.reserve, CurrencyStats.fee, if_true,
      Bool.false_eq_true, if_false, Int64.toInt_zero, Finsupp.single_zero, add_zero, sub_zero]
    abel
  have hends : s'.asExchange = (s₁.asExchange.post
      (invest user newToken.symbol.code x (fun first => (n first).quantity.amount.toInt) +
        .single (.shares user newToken.symbol.code) newToken.amount.toInt)).list
          newToken.symbol.code (some x) := by
    classical
    refine Exchange.ext ?_ (funext fun c => ?_)
    · simp only [Exchange.list_books, Exchange.post_books, State.asExchange]
      rw [depositBooks_debit ok3 h2, depositBooks_debit ok2 h1, hcredit.dexacnts, hkeep2.accounts,
        hkeep1.accounts, shareBooks_of_credited hcredit, hpools, invest, move, move]
      simp only [n, x, stock, if_true, Bool.false_eq_true, if_false]
      abel
    · rw [Exchange.list_market, Exchange.post_market]
      simp only [State.asExchange, hstats, Table.find?_put]
      by_cases hc : c = newToken.symbol.code
      · subst hc
        simp only [if_true, Option.map_some, Option.some.injEq]
        funext first
        cases first with
        | true => rfl
        | false => rfl
      · simp [hc, Ne.symm hc]
  refine ⟨s₁, newToken.amount.toInt, hfee, ?_⟩
  rw [hends]
  refine .launch ?_ (hne true) ?_ (by omega) ?_
  · simp [State.asExchange, hfresh]
  · intro first
    cases first with
    | true => exact Int64.lt_iff_toInt_lt.mp hpos1
    | false => exact Int64.lt_iff_toInt_lt.mp hpos2
  · intro first
    have hdebit : depositOf s' user (x first) =
        depositOf s₂ user (x first) - (n first).quantity.amount.toInt :=
      depositOf_two_debits ok2 (fun first => rfl) hne h1 h2 first
    have hnonneg := depositOf_nonneg ok4 user (x first)
    have hsame : depositOf s₂ user (x first) = depositOf s₁ user (x first) :=
      depositOf_of_same hcredit.dexacnts (x first)
    have hfunded : (n first).quantity.amount.toInt ≤ depositOf s₁ user (x first) := by omega
    rw [asExchange_deposit]
    exact hfunded

/-- A swap by memo: the fee is booked, the net input is paid in and swapped, and the output is
paid out. -/
theorem trade_memoexchange [Doubles]
    {input : ExtendedAsset} {minExpected : Asset} {sent : List Inline} (inv : LpLedger s)
    (h : memoexchange env s user input code minExpected = .ok (s', sent)) :
    ∃ token first ex₁ ex₂ ex₃, ∃ out : ExtendedAsset, s.stats.find? code = some token ∧
      input.extendedSymbol = token.sides first ∧
      (∃ memo, sent = [.transfer out.contract user out.quantity memo]) ∧
      s.asExchange.Trade (.accrue code first input.extendedSymbol (feeCredit token first input))
        ex₁ ∧
      ex₁.Trade (.settle user input.extendedSymbol (netOf input.quantity.amount.toInt)) ex₂ ∧
      ex₂.Trade (.swap user code first (netOf input.quantity.amount.toInt)
        out.quantity.amount.toInt) ex₃ ∧
      ex₃.Trade (.settle user out.extendedSymbol (-out.quantity.amount.toInt)) s'.asExchange := by
  obtain ⟨net, out, memo, hmin, hswap, hsent⟩ := memoexchange_eq_ok h
  obtain ⟨token, first, hentries⟩ := hswap.entries inv
  obtain ⟨token₀, _, first₀, htoken₀, hupdate, hout, -⟩ := hswap.update inv.pools
  have hout' : 0 ≤ out.quantity.amount.toInt :=
    (Int64.le_iff_toInt_le.mp hmin).trans (Int64.le_iff_toInt_le.mp hout)
  have hinput := hupdate.input_pos (inv.pools _ token₀ htoken₀) hout'
  have hnet : 0 ≤ net.quantity.amount.toInt := by
    rw [hentries.net_eq]
    exact netOf_nonneg hinput.le
  have hother : token.sides first ≠ token.sides !first :=
    (inv.pools _ token hentries.before).reserve_ne first
  let ex₁ : Dex := s.asExchange.post
    (.single (.fee code first (token.sides first)) (feeCredit token first input))
  let ex₂ : Dex := ex₁.post
    (.single (.deposit user (token.sides first)) net.quantity.amount.toInt)
  let ex₃ : Dex := ex₂.post (move (.deposit user (token.sides first))
      (.reserve code first (token.sides first)) net.quantity.amount.toInt +
    move (.reserve code (!first) (token.sides !first)) (.deposit user (token.sides !first))
      out.quantity.amount.toInt)
  have hdeposit₁ : ∀ sym, ex₁.deposit user sym = depositOf s user sym := by
    intro sym
    rw [Exchange.post_deposit, asExchange_deposit]
    simp
  have hdeposit₂ : ∀ sym, ex₂.deposit user sym = depositOf s user sym +
      if token.sides first = sym then net.quantity.amount.toInt else 0 := by
    intro sym
    rw [Exchange.post_deposit, hdeposit₁, Finsupp.single_apply]
    simp
  have hdeposit₃ : ex₃.deposit user (token.sides !first) =
      depositOf s user (token.sides !first) + out.quantity.amount.toInt := by
    rw [Exchange.post_deposit, hdeposit₂, if_neg hother]
    simp [move, hother]
  have hnonneg := depositOf_nonneg inv.deposits user
  have hend : s'.asExchange = ex₃.post
      (.single (.deposit user (token.sides !first)) (-out.quantity.amount.toInt)) := by
    refine Exchange.ext ?_ (funext fun c => ?_)
    · simp only [State.asExchange, ex₃, ex₂, ex₁, Exchange.post_books, move]
      rw [hentries.dexacnts, hentries.accounts, hentries.pools, Finsupp.single_neg]
      abel
    · simp only [State.asExchange, ex₃, ex₂, ex₁, Exchange.post_market]
      rw [hentries.markets]
  refine ⟨token, first, ex₁, ex₂, ex₃, out, hentries.before, hentries.inputSymbol,
    ⟨memo, hsent⟩, hentries.trade_accrue, ?_, ?_, ?_⟩
  · rw [← hentries.net_eq, hentries.inputSymbol]
    refine .settle ?_
    have hold := hnonneg (token.sides first)
    rw [hdeposit₁]
    omega
  · refine hentries.trade_swap rfl (fun b x => ?_) ?_ ?_
    · rw [Exchange.post_reserve, Exchange.post_reserve]
      simp
    · have hold := hnonneg (token.sides first)
      rw [hdeposit₂, if_pos rfl]
      omega
    · have hold := hnonneg (token.sides !first)
      rw [hdeposit₂, if_neg hother]
      omega
  · rw [hend, hentries.outSymbol]
    refine .settle ?_
    have hold := hnonneg (token.sides !first)
    rw [hdeposit₃]
    omega

end Markets

end Lemonade
