import Lemonade.Kernel.Exchange
import Lemonade.Safety.Solvency
import Lemonade.Safety.SwapPaths
import Mathlib.Tactic

/-!
# The books of the contract

The deposits, LP tokens and pools of the contract are the books of an exchange
(`State.asExchange`): the rows of `dexacnts` are deposits, the balances of LP tokens
are shares, and each pool is a market.
-/

namespace Lemonade

open Kernel

section Books

/-- Holdings of the exchange of the contract. -/
abbrev DexBooks := Books Name ExtendedSymbol SymbolCode

/-- Deposits, LP tokens and pools as an exchange. -/
abbrev Dex := Exchange Name ExtendedSymbol SymbolCode

noncomputable def depositBooks (t : Table (Name × Nat) ExtendedAsset) : DexBooks :=
  t.sum fun key balance =>
    .single (.deposit key.1 balance.extendedSymbol) balance.quantity.amount.toInt

noncomputable def shareBooks (t : Table (Name × SymbolCode) Asset) : DexBooks :=
  t.sum fun key balance => .single (.shares key.1 key.2) balance.amount.toInt

/-- A reserve of a pool, and the fee next to it. -/
noncomputable def CurrencyStats.entry (token : CurrencyStats) (code : SymbolCode) (first : Bool) :
    DexBooks :=
  .single (.reserve code first (token.reserve first).extendedSymbol)
      (token.reserve first).quantity.amount.toInt +
    .single (.fee code first (token.fee first).extendedSymbol)
      (token.fee first).quantity.amount.toInt

noncomputable def poolBooks (t : Table SymbolCode CurrencyStats) : DexBooks :=
  t.sum fun code token => token.entry code true + token.entry code false

/-- The tokens of a pool. -/
def CurrencyStats.sides (token : CurrencyStats) (first : Bool) : ExtendedSymbol :=
  (token.reserve first).extendedSymbol

/-- The exchange that the contract keeps in its tables. -/
noncomputable def State.asExchange (s : State) : Dex where
  books := depositBooks s.dexacnts + shareBooks s.accounts + poolBooks s.stats
  market := fun code => (s.stats.find? code).map CurrencyStats.sides

variable {s s' : State} {user : Name} {code : SymbolCode} {token token' : CurrencyStats}

theorem asExchange_empty : State.empty.asExchange = Exchange.empty := by
  simp only [State.asExchange, Exchange.empty, Exchange.mk.injEq]
  exact ⟨by simp [depositBooks, shareBooks, poolBooks, State.empty, Table.empty, Table.sum], rfl⟩

theorem asExchange_market (h : s.stats.find? code = some token) :
    s.asExchange.market code = some token.sides := by
  simp [State.asExchange, h]

/-- A payment is an entry of the deposit. -/
theorem depositBooks_add
    {toAdd : ExtendedAsset} (ok : DepositsOk s.dexacnts)
    (h : addSignedExtBalance s user toAdd = .ok s') :
    depositBooks s'.dexacnts = depositBooks s.dexacnts +
      .single (.deposit user toAdd.extendedSymbol) toAdd.quantity.amount.toInt := by
  obtain ⟨-, ⟨id, -, -, hfresh, rfl⟩ | ⟨key, balance, balance', hrow, hadd, -, rfl⟩⟩ :=
    addSignedExtBalance_eq_ok h
  · rw [depositBooks, Table.sum_put, Table.weight_of_find?_none hfresh, sub_zero]
    rfl
  · obtain ⟨hfind, rfl, hsym⟩ := findDexacnt_eq_some hrow
    obtain ⟨-, hrange, rfl⟩ := ExtendedAsset.add_eq_ok_iff.mp hadd
    have hsum := toInt_add_of_inRange (ok.holdable key balance hfind).inRange hrange
    have hsym' : (⟨⟨balance.quantity.amount + toAdd.quantity.amount, balance.quantity.symbol⟩,
        balance.contract⟩ : ExtendedAsset).extendedSymbol = balance.extendedSymbol := rfl
    rw [depositBooks, Table.sum_put, Table.weight_of_find? hfind, hsym', hsum, Finsupp.single_add,
      ← hsym, depositBooks]
    abel

theorem depositBooks_debit
    {toPay : ExtendedAsset} (ok : DepositsOk s.dexacnts)
    (h : addSignedExtBalance s user toPay.neg = .ok s') :
    depositBooks s'.dexacnts = depositBooks s.dexacnts -
      .single (.deposit user toPay.extendedSymbol) toPay.quantity.amount.toInt := by
  have hneg : toPay.neg.quantity.amount.toInt = -toPay.quantity.amount.toInt :=
    toInt_neg_of_inRange (amountInRange_of_neg (addSignedExtBalance_eq_ok h).1.1)
  rw [depositBooks_add ok h, hneg, Finsupp.single_neg, sub_eq_add_neg]
  rfl

theorem depositBooks_erase
    {t : Table (Name × Nat) ExtendedAsset} {key : Name × Nat} {balance : ExtendedAsset}
    (hrow : t.find? key = some balance) :
    depositBooks (t.erase key) = depositBooks t -
      .single (.deposit key.1 balance.extendedSymbol) balance.quantity.amount.toInt := by
  rw [depositBooks, Table.sum_erase, Table.weight_of_find? hrow, depositBooks]

/-- Shares that are credited or debited are an entry of their owner. -/
theorem shareBooks_of_credited
    {owner : Name} {n : ℤ} (h : Credited s s' owner code n) :
    shareBooks s'.accounts = shareBooks s.accounts + .single (.shares owner code) n := by
  obtain ⟨balance, haccounts, -, hamount⟩ := h.account
  have hweight : s.accounts.weight (fun key balance =>
      (.single (.shares key.1 key.2) balance.amount.toInt : DexBooks)) (owner, code) =
        .single (.shares owner code) (lpBalance s code owner) := by
    unfold lpBalance Table.weight
    cases s.accounts.find? (owner, code) with
    | none => simp
    | some b => rfl
  rw [shareBooks, haccounts, Table.sum_put, hweight, hamount, Finsupp.single_add, shareBooks]
  abel

/-- Rows without shares do not show. -/
theorem shareBooks_of_weight
    {t t' : Table (Name × SymbolCode) Asset}
    (h : t' = t ∨ (∃ key symbol, t.find? key = none ∧ t' = t.put key ⟨0, symbol⟩) ∨
      ∃ key balance, t.find? key = some balance ∧ balance.amount = 0 ∧ t' = t.erase key) :
    shareBooks t' = shareBooks t := by
  rcases h with rfl | ⟨key, symbol, hnone, rfl⟩ | ⟨key, balance, hrow, hzero, rfl⟩
  · rfl
  · rw [shareBooks, Table.sum_put, Table.weight_of_find?_none hnone, shareBooks]
    simp
  · rw [shareBooks, Table.sum_erase, Table.weight_of_find? hrow, hzero, shareBooks]
    simp

theorem poolBooks_put
    (htoken : s.stats.find? code = some token) :
    poolBooks (s.stats.put code token') = poolBooks s.stats +
      (token'.entry code true - token.entry code true) +
        (token'.entry code false - token.entry code false) := by
  rw [poolBooks, Table.sum_put, Table.weight_of_find? htoken, poolBooks]
  abel

/-- What a trade with the LP adds to a pool. -/
theorem LiquidityUpdate.entry
    {n : ℤ} {pay : Bool → ExtendedAsset} (h : LiquidityUpdate token token' n pay) (first : Bool) :
    token'.entry code first - token.entry code first =
      .single (.reserve code first (token.sides first)) (pay first).quantity.amount.toInt := by
  rw [CurrencyStats.entry, CurrencyStats.entry, h.fees, h.reserveSymbol, h.reserve,
    Finsupp.single_add, CurrencyStats.sides]
  abel

theorem SwapUpdate.entry_in [Doubles]
    (code : SymbolCode) {first : Bool} {input net out : ExtendedAsset} (ok : PoolOk token)
    (h : SwapUpdate token token' first input net out) :
    token'.entry code first - token.entry code first =
      .single (.reserve code first (token.sides first)) net.quantity.amount.toInt +
        .single (.fee code first (token.sides first)) (feeCredit token first input) := by
  have hfee : (token'.fee first).extendedSymbol = (token.fee first).extendedSymbol := by
    rw [h.ok.feeSymbol, ok.feeSymbol, h.reserveSymbol]
  have hcredit : (token'.fee first).quantity.amount.toInt =
      (token.fee first).quantity.amount.toInt + feeCredit token first input := by
    rw [h.fee, feeCredit]
    omega
  rw [CurrencyStats.entry, CurrencyStats.entry, hfee, h.reserveSymbol, h.inReserve, hcredit,
    Finsupp.single_add, Finsupp.single_add, CurrencyStats.sides, ok.feeSymbol]
  abel

theorem SwapUpdate.entry_out [Doubles]
    (code : SymbolCode) {first : Bool} {input net out : ExtendedAsset}
    (h : SwapUpdate token token' first input net out) :
    token'.entry code (!first) - token.entry code (!first) =
      -.single (.reserve code (!first) (token.sides !first)) out.quantity.amount.toInt := by
  rw [CurrencyStats.entry, CurrencyStats.entry, h.otherFee, h.reserveSymbol, h.outReserve,
    Finsupp.single_sub, CurrencyStats.sides]
  abel

/-- A sum over the positions, spread over the tables. -/
theorem sumOver_asExchange (P : Holding Name ExtendedSymbol SymbolCode → Prop) [DecidablePred P] :
    Books.sumOver P s.asExchange.books =
      (s.dexacnts.sum fun key balance =>
        if P (.deposit key.1 balance.extendedSymbol) then balance.quantity.amount.toInt else 0) +
      (s.accounts.sum fun key balance =>
        if P (.shares key.1 key.2) then balance.amount.toInt else 0) +
      s.stats.sum fun code token =>
        Books.sumOver P (token.entry code true + token.entry code false) := by
  simp only [State.asExchange, depositBooks, shareBooks, poolBooks, map_add, Table.map_sum,
    Books.sumOver_single]

/-- An amount at a position, looked up in the tables. -/
theorem asExchange_apply (k : Holding Name ExtendedSymbol SymbolCode) :
    s.asExchange.books k =
      (s.dexacnts.sum fun key balance =>
        (Finsupp.single (.deposit key.1 balance.extendedSymbol)
          balance.quantity.amount.toInt : DexBooks) k) +
      (s.accounts.sum fun key balance =>
        (Finsupp.single (.shares key.1 key.2) balance.amount.toInt : DexBooks) k) +
      s.stats.sum fun code token =>
        (token.entry code true + token.entry code false : DexBooks) k := by
  have hsum : ∀ {κ ρ : Type} (t : Table κ ρ) (f : κ → ρ → DexBooks),
      t.sum f k = t.sum fun key r => f key r k :=
    fun t f => t.map_sum (Finsupp.applyAddHom k) f
  simp only [State.asExchange, depositBooks, shareBooks, poolBooks, Finsupp.add_apply, hsum]

theorem asExchange_deposit (sym : ExtendedSymbol) :
    s.asExchange.deposit user sym = depositOf s user sym := by
  rw [Exchange.deposit, asExchange_apply]
  have hshares : (s.accounts.sum fun key balance =>
      (Finsupp.single (.shares key.1 key.2) balance.amount.toInt : DexBooks)
        (.deposit user sym)) = 0 := Table.sum_eq_zero fun _ _ _ => by simp
  have hpools : (s.stats.sum fun code token =>
      (token.entry code true + token.entry code false : DexBooks) (.deposit user sym)) = 0 :=
    Table.sum_eq_zero fun _ _ _ => by simp [CurrencyStats.entry]
  rw [hshares, hpools, add_zero, add_zero, depositOf, deposited]
  simp only [Finsupp.single_apply, Holding.deposit.injEq]

theorem asExchange_shares : s.asExchange.shares user code = lpBalance s code user := by
  rw [Exchange.shares, asExchange_apply]
  have hdeposits : (s.dexacnts.sum fun key balance =>
      (Finsupp.single (.deposit key.1 balance.extendedSymbol)
        balance.quantity.amount.toInt : DexBooks) (.shares user code)) = 0 :=
    Table.sum_eq_zero fun _ _ _ => by simp
  have hpools : (s.stats.sum fun code' token =>
      (token.entry code' true + token.entry code' false : DexBooks) (.shares user code)) = 0 :=
    Table.sum_eq_zero fun _ _ _ => by simp [CurrencyStats.entry]
  have hrow : ∀ key (balance : Asset), key ≠ (user, code) →
      (Finsupp.single (.shares key.1 key.2) balance.amount.toInt : DexBooks)
        (.shares user code) = 0 := by
    rintro ⟨owner, code'⟩ balance hne
    rw [Finsupp.single_apply, if_neg]
    rintro h
    obtain ⟨rfl, rfl⟩ := Holding.shares.inj h
    exact hne rfl
  rw [hdeposits, hpools, zero_add, add_zero, Table.sum_eq_weight hrow, lpBalance, Table.weight,
    Table.weight]
  simp

/-- What a pool holds stands in its own row. -/
theorem asExchange_pool
    (code : SymbolCode) {k : Holding Name ExtendedSymbol SymbolCode} (hk : k.OfMarket code)
    (hshares : ∀ owner c, k ≠ .shares owner c) :
    s.asExchange.books k = s.stats.weight
      (fun c token => (token.entry c true + token.entry c false : DexBooks) k) code := by
  rw [asExchange_apply]
  have hdeposits : (s.dexacnts.sum fun key balance =>
      (Finsupp.single (.deposit key.1 balance.extendedSymbol) balance.quantity.amount.toInt :
        DexBooks) k) = 0 := by
    refine Table.sum_eq_zero ?_
    rintro key balance -
    rw [Finsupp.single_apply, if_neg]
    rintro rfl
    exact hk
  have haccounts : (s.accounts.sum fun key balance =>
      (Finsupp.single (.shares key.1 key.2) balance.amount.toInt : DexBooks) k) = 0 := by
    refine Table.sum_eq_zero ?_
    rintro key balance -
    rw [Finsupp.single_apply, if_neg]
    rintro rfl
    exact hshares _ _ rfl
  have hrow : ∀ c (token : CurrencyStats), c ≠ code →
      (token.entry c true + token.entry c false : DexBooks) k = 0 := by
    intro c token hne
    cases k with
    | deposit => exact hk.elim
    | shares owner c => exact absurd rfl (hshares owner c)
    | reserve q side x =>
        obtain rfl : q = code := hk
        simp [CurrencyStats.entry, hne]
    | fee q side x =>
        obtain rfl : q = code := hk
        simp [CurrencyStats.entry, hne]
  rw [hdeposits, haccounts, zero_add, zero_add, Table.sum_eq_weight hrow]

theorem asExchange_reserve (htoken : s.stats.find? code = some token) (first : Bool) :
    s.asExchange.reserve code first (token.sides first) =
      (token.reserve first).quantity.amount.toInt := by
  have hk : Holding.OfMarket code
      (.reserve code first (token.sides first) : Holding Name ExtendedSymbol SymbolCode) := rfl
  rw [Exchange.reserve, asExchange_pool code hk (by simp), Table.weight_of_find? htoken]
  cases first <;> simp [CurrencyStats.entry, CurrencyStats.sides]

theorem asExchange_supply : s.asExchange.supply code = lpTotal s code := by
  rw [Exchange.supply, sumOver_asExchange, lpTotal]
  have hdeposits : (s.dexacnts.sum fun key balance =>
      if Holding.currency (π := SymbolCode) (.deposit key.1 balance.extendedSymbol) = .inr code
        then balance.quantity.amount.toInt else 0) = 0 :=
    Table.sum_eq_zero fun _ _ _ => by simp
  have hpools : (s.stats.sum fun code' token =>
      Books.sumOver (fun k => k.currency = .inr code)
        (token.entry code' true + token.entry code' false)) = 0 :=
    Table.sum_eq_zero fun _ _ _ => by simp [CurrencyStats.entry]
  rw [hdeposits, hpools, zero_add, add_zero]
  simp only [Holding.currency, Sum.inr.injEq]
  rfl

end Books

end Lemonade
