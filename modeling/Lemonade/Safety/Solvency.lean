import Lemonade.Safety.LpLedger
import Mathlib.Tactic

/-!
# What the exchange owes and what it holds

Deposits, reserves and accrued fees in a token are claims on what the exchange has
been paid in that token.  All actions of the exchange keep the claims covered but
one: a swap from a deposit credits half of its fee to the pool and debits nobody for
it.  The claims stay covered as long as what is credited is cut off to nothing
(`FeeCovered`).  Doubles are idealised here.
-/

namespace Lemonade

open Kernel
open Idealised

section Holdings

/-- The amount, if it is one of the token. -/
def amountIn (x : ExtendedSymbol) (a : ExtendedAsset) : ℤ :=
  if a.extendedSymbol = x then a.quantity.amount.toInt else 0

/-- Reserves and fees of a pool in a token. -/
def CurrencyStats.held (token : CurrencyStats) (x : ExtendedSymbol) : ℤ :=
  amountIn x token.pool1 + amountIn x token.pool2 + amountIn x token.fee1 +
    amountIn x token.fee2

/-- Deposits, reserves and fees in a token. -/
def holdings (s : State) (x : ExtendedSymbol) : ℤ :=
  deposited (fun _ x' => x' = x) s.dexacnts + s.stats.sum fun _ token => token.held x

/-- Does a memo ask for a deposit or a swap? -/
def DexMemo (memo : Text) : Prop :=
  Operation memo "deposit" ∨ Operation memo "exchange" ∧ 3 ≤ (memoParser memo).length

instance (memo : Text) : Decidable (DexMemo memo) := inferInstanceAs (Decidable (_ ∨ _ ∧ _))

/-- Tokens paid in by deposits and memo exchanges. -/
def inflow (env : Env) (x : ExtendedSymbol) (p : World × Event) : ℤ :=
  match p.2.action with
  | .notify firstReceiver source dest quantity memo =>
      if dest = env.self ∧ source ≠ env.self ∧ DexMemo memo then
        amountIn x ⟨quantity, firstReceiver⟩
      else 0
  | _ => 0

/-- Tokens that an inline action pays out. -/
def Inline.paidIn (x : ExtendedSymbol) : Inline → ℤ
  | .issue _ _ _ _ => 0
  | .transfer contract _ quantity _ => amountIn x ⟨quantity, contract⟩

/-- Tokens paid out by withdrawals, closed deposits and memo exchanges. -/
def outflow (x : ExtendedSymbol) (p : World × Event) : ℤ :=
  match p.2.action with
  | .withdraw _ _ _ _ => (p.2.sent.map (Inline.paidIn x)).sum
  | .closeext _ _ _ _ => (p.2.sent.map (Inline.paidIn x)).sum
  | .notify _ _ _ _ memo =>
      if DexMemo memo then (p.2.sent.map (Inline.paidIn x)).sum else 0
  | _ => 0

/-- A swap of `input` in a pool credits no fee: a sale of the other token, or an input
below the first whole unit of fee into a pool that has not accrued a negative one. -/
def Covered (s : State) (pairToken : SymbolCode) (input : ExtendedAsset) : Prop :=
  ∀ token first, s.stats.find? pairToken = some token →
    (token.reserve first).extendedSymbol = input.extendedSymbol →
    0 < input.quantity.amount →
    input.quantity.amount ≤ 666 ∧ 0 ≤ (token.fee first).quantity.amount

/-- The event, if it is a swap from a deposit, credits no fee. -/
def FeeCovered (p : World × Event) : Prop :=
  match p.2.action with
  | .exchange _ pairToken extAssetIn _ => Covered p.1.state pairToken extAssetIn
  | .exchangeall user pairToken assetIn =>
      ∀ key balance, findDexacnt p.1.state user assetIn = some (key, balance) →
        Covered p.1.state pairToken balance
  | _ => True

/-- All actions but the removal of pools and the rewards paid from their fees. -/
def Action.Trading : Action → Prop
  | .rmpool _ _ => False
  | .clmpoolreward _ _ _ => False
  | _ => True

end Holdings

section Amounts

variable {s s' : State} {user : Name} {x : ExtendedSymbol}

theorem amountIn_of_symbol
    {a b : ExtendedAsset} (h : a.extendedSymbol = b.extendedSymbol) :
    amountIn x a = if b.extendedSymbol = x then a.quantity.amount.toInt else 0 := by
  rw [amountIn, h]

theorem amountIn_neg
    {a : ExtendedAsset} (h : AmountInRange a.neg.quantity.amount) :
    amountIn x a.neg = -amountIn x a := by
  have hneg : a.neg.quantity.amount.toInt = -a.quantity.amount.toInt :=
    toInt_neg_of_inRange (amountInRange_of_neg h)
  unfold amountIn
  rw [hneg, ExtendedAsset.neg_extendedSymbol]
  split_ifs
  · rfl
  · exact neg_zero.symm

theorem holdings_deposit
    {toAdd : ExtendedAsset} (ok : DepositsOk s.dexacnts)
    (h : addSignedExtBalance s user toAdd = .ok s') :
    holdings s' x = holdings s x + amountIn x toAdd := by
  unfold holdings amountIn
  rw [deposited_add (fun _ x' => x' = x) ok h, (addSignedExtBalance_keepsShares h).stats]
  omega

/-- A payment out of a deposit. -/
theorem holdings_debit
    {toAdd : ExtendedAsset} (ok : DepositsOk s.dexacnts)
    (h : addSignedExtBalance s user toAdd.neg = .ok s') :
    holdings s' x = holdings s x - amountIn x toAdd := by
  rw [holdings_deposit ok h, amountIn_neg (addSignedExtBalance_eq_ok h).1.1]
  exact (sub_eq_add_neg _ _).symm

theorem holdings_put_pool
    {code : SymbolCode} {token : CurrencyStats} (token' : CurrencyStats)
    (htoken : s.stats.find? code = some token) :
    holdings { s with stats := s.stats.put code token' } x =
      holdings s x - token.held x + token'.held x := by
  simp only [holdings, Table.sum_put, Table.weight_of_find? htoken]
  omega

theorem held_eq
    (token : CurrencyStats) (first : Bool) :
    token.held x = amountIn x (token.reserve first) + amountIn x (token.reserve !first) +
      amountIn x (token.fee first) + amountIn x (token.fee !first) := by
  cases first with
  | true => rfl
  | false =>
      simp only [CurrencyStats.held, CurrencyStats.reserve, CurrencyStats.fee, Bool.not_false,
        if_true, Bool.false_eq_true, if_false]
      omega

/-- What a trade with the LP adds to a pool. -/
theorem LiquidityUpdate.held
    {token token' : CurrencyStats} {n : ℤ} {pay : Bool → ExtendedAsset}
    (h : LiquidityUpdate token token' n pay) :
    token'.held x = token.held x + (amountIn x (pay true) + amountIn x (pay false)) := by
  have hreserve : ∀ b, amountIn x (token'.reserve b) =
      amountIn x (token.reserve b) + amountIn x (pay b) := by
    intro b
    rw [amountIn_of_symbol (h.reserveSymbol b), amountIn_of_symbol (h.symbol b), amountIn,
      h.reserve]
    split_ifs <;> omega
  rw [held_eq token' true, held_eq token true, hreserve, Bool.not_true, hreserve, h.fees, h.fees]
  omega

/-- What a swap credits to the fee next to its input. -/
def feeCredit [Doubles] (token : CurrencyStats) (first : Bool) (input : ExtendedAsset) : ℤ :=
  accruedWith (token.fee first).quantity.amount.toInt input.quantity.amount.toInt -
    (token.fee first).quantity.amount.toInt

theorem SwapUpdate.held [Doubles]
    {token token' : CurrencyStats} {first : Bool} {input net out : ExtendedAsset}
    (ok : PoolOk token) (h : SwapUpdate token token' first input net out) :
    token'.held x = token.held x + amountIn x net - amountIn x out +
      if input.extendedSymbol = x then feeCredit token first input else 0 := by
  have hin : amountIn x (token'.reserve first) =
      amountIn x (token.reserve first) + amountIn x net := by
    rw [amountIn_of_symbol (h.reserveSymbol first), amountIn_of_symbol h.netSymbol, amountIn,
      h.inReserve]
    split_ifs <;> omega
  have hout : amountIn x (token'.reserve !first) =
      amountIn x (token.reserve !first) - amountIn x out := by
    rw [amountIn_of_symbol (h.reserveSymbol _), amountIn_of_symbol h.outSymbol, amountIn,
      h.outReserve]
    split_ifs <;> omega
  have hfee : amountIn x (token'.fee first) = amountIn x (token.fee first) +
      if input.extendedSymbol = x then feeCredit token first input else 0 := by
    have hsym : (token'.fee first).extendedSymbol = (token.fee first).extendedSymbol := by
      rw [h.ok.feeSymbol, ok.feeSymbol, h.reserveSymbol]
    rw [amountIn_of_symbol hsym, amountIn, h.fee, feeCredit, ok.feeSymbol, h.inputSymbol]
    split_ifs <;> omega
  rw [held_eq token' first, held_eq token first, hin, hout, hfee, h.otherFee]
  omega

theorem half_fee_nonpos_iff {a : ℤ} : (a : ℚ) * swapFee / 2 ≤ 0 ↔ ¬ 0 < a := by
  have hcast : (a : ℚ) ≤ 0 ↔ a ≤ 0 := Int.cast_nonpos
  rw [not_lt, ← hcast]
  unfold swapFee
  constructor
  · intro h
    linarith
  · intro h
    linarith

/-- Half of the fee reaches a whole unit at 667. -/
theorem half_fee_lt_one_iff {a : ℤ} : (a : ℚ) * swapFee / 2 < 1 ↔ a ≤ 666 := by
  rw [← Int.lt_add_one_iff]
  unfold swapFee
  constructor
  · intro h
    by_contra hge
    have hge' : ((667 : ℤ) : ℚ) ≤ a := Int.cast_le.mpr (by omega)
    push_cast at hge'
    linarith
  · intro h
    have hle : (a : ℚ) ≤ ((666 : ℤ) : ℚ) := Int.cast_le.mpr (by omega)
    push_cast at hle
    linarith

/-- The fee credited by a swap is nothing iff it is cut off, or goes the other way. -/
theorem feeCredit_le_zero_iff
    {token : CurrencyStats} {first : Bool} {input : ExtendedAsset} :
    feeCredit token first input ≤ 0 ↔
      (0 < input.quantity.amount →
        input.quantity.amount ≤ 666 ∧ 0 ≤ (token.fee first).quantity.amount) := by
  have hfee : (0 : Int64).toInt = 0 := rfl
  have h666 : (666 : Int64).toInt = 666 := rfl
  rw [feeCredit, accruedWith_exact, sub_nonpos, trunc_add_le_iff, Int64.lt_iff_toInt_lt,
    Int64.le_iff_toInt_le, Int64.le_iff_toInt_le, hfee, h666, half_fee_nonpos_iff,
    half_fee_lt_one_iff]
  tauto

end Amounts

section Moves

variable {env : Env} {ctx : Ctx} {s s' : State} {user : Name} {x : ExtendedSymbol}

theorem holdings_of_same
    (hdexacnts : s'.dexacnts = s.dexacnts) (hstats : s'.stats = s.stats) :
    holdings s' x = holdings s x := by
  rw [holdings, holdings, hdexacnts, hstats]

/-- Buying or selling shares moves tokens between deposits and reserves. -/
theorem holdings_addSignedLiq
    {toAdd maxAsset1 maxAsset2 : Asset} (inv : LpLedger s)
    (h : addSignedLiq s user toAdd maxAsset1 maxAsset2 = .ok s') :
    holdings s' x = holdings s x := by
  obtain ⟨token, token', pay, s₁, s₂, s₃, htoken, hupdate, h1, h2, hcredit, rfl, -⟩ :=
    inv.addSignedLiq h
  have inv1 := inv.deposit h1
  have hpay1 : holdings s₁ x = holdings s x - amountIn x (pay true) :=
    holdings_debit inv.deposits h1
  have hpay2 : holdings s₂ x = holdings s₁ x - amountIn x (pay false) :=
    holdings_debit inv1.deposits h2
  have hsame : holdings s₃ x = holdings s₂ x :=
    holdings_of_same hcredit.dexacnts hcredit.stats
  have htoken₃ : s₃.stats.find? toAdd.symbol.code = some token := by
    rw [hcredit.stats, (addSignedExtBalance_keepsShares h2).stats,
      (addSignedExtBalance_keepsShares h1).stats]
    exact htoken
  have hheld : token'.held x = token.held x + (amountIn x (pay true) + amountIn x (pay false)) :=
    hupdate.held
  rw [holdings_put_pool token' htoken₃]
  omega

/-- A swap from a deposit adds what it credits to the fee. -/
theorem holdings_exchange [Doubles]
    {pairToken : SymbolCode} {extAssetIn : ExtendedAsset} {minExpected : Asset}
    (inv : LpLedger s)
    (h : exchange env ctx s user pairToken extAssetIn minExpected = .ok s') :
    ∃ token first, s.stats.find? pairToken = some token ∧
      extAssetIn.extendedSymbol = (token.reserve first).extendedSymbol ∧
      ∀ x, holdings s' x = holdings s x +
        if extAssetIn.extendedSymbol = x then feeCredit token first extAssetIn else 0 := by
  obtain ⟨net, out, s₁, s₂, -, -, hswap, hpay, hget⟩ := exchange_eq_ok h
  have inv1 := inv.swap hswap
  have inv2 := inv1.deposit hpay
  obtain ⟨token, token', first, htoken, hupdate, -, rfl⟩ := hswap.update inv.pools
  refine ⟨token, first, htoken, hupdate.inputSymbol, ?_⟩
  intro x
  rw [holdings_deposit inv2.deposits hget, holdings_debit inv1.deposits hpay,
    holdings_put_pool token' htoken, hupdate.held (inv.pools _ token htoken)]
  omega

/-- A swap for a nonnegative output has a positive input. -/
theorem SwapUpdate.input_pos [Doubles]
    {token token' : CurrencyStats} {first : Bool} {input net out : ExtendedAsset}
    (ok : PoolOk token) (h : SwapUpdate token token' first input net out)
    (hout : 0 ≤ out.quantity.amount.toInt) :
    0 < input.quantity.amount.toInt := by
  have hnet : 0 < net.quantity.amount.toInt := by
    have hproduct := h.product
    have hin := h.ok.reserve_pos first
    have hother := ok.reserve_pos !first
    by_contra hnot
    have hlt : net.quantity.amount.toInt < 0 := lt_of_le_of_ne (not_lt.mp hnot) h.net_ne
    have hleft := mul_pos (neg_pos.mpr hlt) hother
    have hright := mul_nonneg hout hin.le
    rw [neg_mul] at hproduct hleft
    rw [neg_mul] at hproduct
    omega
  by_contra hnot
  have hnonpos := netOf_nonpos (not_lt.mp hnot)
  rw [← h.net_eq] at hnonpos
  omega

/-- The net input and the credited fee stay within a positive input. -/
theorem SwapUpdate.net_add_feeCredit_le
    {token token' : CurrencyStats} {first : Bool} {input net out : ExtendedAsset}
    (h : SwapUpdate token token' first input net out)
    (hpos : 0 < input.quantity.amount.toInt) :
    net.quantity.amount.toInt + feeCredit token first input ≤ input.quantity.amount.toInt := by
  have hpos' : (0 : ℚ) < input.quantity.amount.toInt := by exact_mod_cast hpos
  have hnet : (net.quantity.amount.toInt : ℚ) ≤
      input.quantity.amount.toInt - input.quantity.amount.toInt * swapFee := by
    rw [h.net_eq, netOf_exact]
    refine trunc_le ?_
    unfold swapFee
    linarith
  have hcredit : (feeCredit token first input : ℚ) <
      input.quantity.amount.toInt * swapFee / 2 + 1 := by
    have hlt := trunc_lt_add_one (((token.fee first).quantity.amount.toInt : ℚ) +
      input.quantity.amount.toInt * swapFee / 2)
    rw [feeCredit, accruedWith_exact]
    push_cast
    linarith
  have hlt : ((net.quantity.amount.toInt + feeCredit token first input : ℤ) : ℚ) <
      ((input.quantity.amount.toInt + 1 : ℤ) : ℚ) := by
    push_cast
    unfold swapFee at hnet hcredit
    linarith
  exact Int.lt_add_one_iff.mp (Int.cast_lt.mp hlt)

/-- A memo exchange pays out what it takes from the pool, and takes in enough for the
pool and the fee. -/
theorem holdings_memoexchange
    {extAssetIn : ExtendedAsset} {pairToken : SymbolCode} {minExpected : Asset}
    {sent : List Inline} (inv : LpLedger s)
    (h : memoexchange env s user extAssetIn pairToken minExpected = .ok (s', sent)) :
    holdings s' x ≤ holdings s x + amountIn x extAssetIn - (sent.map (Inline.paidIn x)).sum := by
  obtain ⟨net, out, memo, hmin, hswap, rfl⟩ := memoexchange_eq_ok h
  obtain ⟨token, token', first, htoken, hupdate, hout, rfl⟩ := hswap.update inv.pools
  have ok := inv.pools _ token htoken
  have hout' : 0 ≤ out.quantity.amount.toInt := by
    have h1 := Int64.le_iff_toInt_le.mp hmin
    have h2 := Int64.le_iff_toInt_le.mp hout
    exact h1.trans h2
  have hle := hupdate.net_add_feeCredit_le (hupdate.input_pos ok hout')
  have hnet : amountIn x net =
      if extAssetIn.extendedSymbol = x then net.quantity.amount.toInt else 0 := by
    rw [amountIn, hupdate.netSymbol, hupdate.inputSymbol]
  have hpaid : (([Inline.transfer out.contract user out.quantity memo]).map
      (Inline.paidIn x)).sum = amountIn x out := by
    simp [Inline.paidIn]
  have hinput : amountIn x extAssetIn =
      if extAssetIn.extendedSymbol = x then extAssetIn.quantity.amount.toInt else 0 := rfl
  rw [holdings_put_pool token' htoken, hupdate.held ok, hpaid, hnet, hinput]
  split_ifs <;> omega

theorem holdings_payPoolFee
    (ok : DepositsOk s.dexacnts) (h : payPoolFee s user = .ok s') :
    holdings s' x ≤ holdings s x := by
  unfold payPoolFee at h
  split_ifs at h
  · have hdebit : holdings s' x = holdings s x - amountIn x createPoolFee :=
      holdings_debit ok h
    have hnonneg : 0 ≤ amountIn x createPoolFee := by
      unfold amountIn
      split_ifs
      · decide
      · exact le_refl _
    omega
  · obtain rfl := Except.ok.inj h
    exact le_refl _

theorem held_newPool
    (newSymbol : Symbol) (supply : Asset) (pool1 pool2 : ExtendedAsset) :
    (newPool user newSymbol supply pool1 pool2).held x =
      amountIn x pool1 + amountIn x pool2 := by
  have hzero : ∀ a : ExtendedAsset,
      amountIn x { a with quantity := { a.quantity with amount := 0 } } = 0 := by
    intro a
    unfold amountIn
    split_ifs <;> rfl
  simp only [CurrencyStats.held, newPool, hzero, add_zero]

/-- A new pool is made from deposits. -/
theorem holdings_inittoken
    {newSymbol : Symbol} {initialPool1 initialPool2 : ExtendedAsset} (inv : LpLedger s)
    (h : inittoken env ctx s user newSymbol initialPool1 initialPool2 = .ok s') :
    holdings s' x ≤ holdings s x := by
  obtain ⟨newToken, s₁, _, _, _, s₂, s₃, -, -, -, -, -, -, -, -, -, hfee, hfresh, hshares, h1,
    h2⟩ := inittoken_eq_ok h
  have hfee' : holdings s₁ x ≤ holdings s x := holdings_payPoolFee inv.deposits hfee
  have ok1 : DepositsOk s₁.dexacnts := inv.deposits.payPoolFee hfee
  obtain ⟨_, _, -, -, hstate⟩ := addBalance_eq_ok hshares
  have hdexacnts : s₂.dexacnts = s₁.dexacnts := by rw [hstate]
  have hstats : s₂.stats = s₁.stats.put newSymbol.code
      (newPool user newSymbol newToken initialPool1 initialPool2) := by rw [hstate]
  have ok2 := ok1.of_same hdexacnts
  have hnew : holdings s₂ x = holdings s₁ x +
      (amountIn x initialPool1 + amountIn x initialPool2) := by
    rw [holdings, hdexacnts, hstats, Table.sum_put, Table.weight_of_find?_none hfresh,
      held_newPool, holdings]
    omega
  rw [holdings_debit (ok2.add h1) h2, holdings_debit ok2 h1, hnew]
  omega

end Moves

section Steps

/-- The actions that can touch balances, deposits or pools. -/
def Action.OnExchange : Action → Prop
  | .transfer _ _ _ _ => True
  | .tokenOpen _ _ _ => True
  | .tokenClose _ _ => True
  | .openext _ _ => True
  | .closeext _ _ _ _ => True
  | .withdraw _ _ _ _ => True
  | .addliquidity _ _ _ _ => True
  | .rmliquidity _ _ _ _ => True
  | .exchange _ _ _ _ => True
  | .exchangeall _ _ _ => True
  | .inittoken _ _ _ _ => True
  | .rmpool _ _ => True
  | .clmpoolreward _ _ _ => True
  | .notify _ _ _ _ _ => True
  | _ => False

/-- In no token do the claims grow by more than the step takes in less what it pays. -/
def StepSolvent (env : Env) (p : World × Event) (v : World) : Prop :=
  ∀ x, holdings v.state x ≤ holdings p.1.state x + inflow env x p - outflow x p

variable {env : Env} {ctx : Ctx} {u v : World} {e : Event} {sent : List Inline}

theorem keepsDex_of_not_onExchange [Doubles]
    (hstep : Step env u e v) (hnot : ¬ e.action.OnExchange) : KeepsDex u.state v.state := by
  obtain ⟨ctx, a, sent⟩ := e
  cases exec_area hstep.2.1 with
  | stakes _ dex => exact dex
  | games _ dex => exact dex
  | dex move =>
      dsimp only at move hnot
      cases move <;> exact absurd trivial hnot
  | idle _ dex => exact dex

theorem flows_of_not_onExchange
    (hnot : ¬ e.action.OnExchange) :
    FeeCovered (u, e) ∧ ∀ x, inflow env x (u, e) = 0 ∧ outflow x (u, e) = 0 := by
  obtain ⟨ctx, a, sent⟩ := e
  cases a <;> first | exact ⟨trivial, fun x => ⟨rfl, rfl⟩⟩ | exact absurd trivial hnot

theorem stepSolvent_of_le
    (hin : ∀ x, inflow env x (u, e) = 0) (hout : ∀ x, outflow x (u, e) = 0)
    (h : ∀ x, holdings v.state x ≤ holdings u.state x) : StepSolvent env (u, e) v := by
  intro x
  rw [hin, hout, add_zero, sub_zero]
  exact h x

theorem covered_iff_feeCredit
    {s : State} {pairToken : SymbolCode} {input : ExtendedAsset} {token : CurrencyStats}
    {first : Bool} (ok : PoolOk token) (htoken : s.stats.find? pairToken = some token)
    (hsym : input.extendedSymbol = (token.reserve first).extendedSymbol) :
    Covered s pairToken input ↔ feeCredit token first input ≤ 0 := by
  rw [feeCredit_le_zero_iff]
  exact ok.forall_side_iff htoken hsym fun token first => 0 < input.quantity.amount →
    input.quantity.amount ≤ 666 ∧ 0 ≤ (token.fee first).quantity.amount

theorem exchange_solvent_iff
    {s s' : State} {user : Name} {pairToken : SymbolCode} {extAssetIn : ExtendedAsset}
    {minExpected : Asset} (inv : LpLedger s)
    (h : exchange env ctx s user pairToken extAssetIn minExpected = .ok s') :
    (∀ x, holdings s' x ≤ holdings s x) ↔ Covered s pairToken extAssetIn := by
  obtain ⟨token, first, htoken, hsym, hholdings⟩ := holdings_exchange inv h
  rw [covered_iff_feeCredit (inv.pools _ token htoken) htoken hsym]
  constructor
  · intro hle
    have hx := hle extAssetIn.extendedSymbol
    rw [hholdings, if_pos rfl] at hx
    omega
  · intro hcredit x
    rw [hholdings]
    split_ifs <;> omega

theorem exchangeall_solvent_iff
    {s s' : State} {user : Name} {pairToken : SymbolCode} {assetIn : ExtendedSymbol}
    (inv : LpLedger s) (h : exchangeall env ctx s user pairToken assetIn = .ok s') :
    (∀ x, holdings s' x ≤ holdings s x) ↔
      ∀ key balance, findDexacnt s user assetIn = some (key, balance) →
        Covered s pairToken balance := by
  obtain ⟨token, key, balance, -, hrow, hall⟩ := exchangeall_eq_ok h
  rw [exchange_solvent_iff inv hall]
  constructor
  · intro hcovered key' balance' hrow'
    obtain ⟨-, rfl⟩ := Prod.mk.inj (Option.some.inj (hrow.symm.trans hrow'))
    exact hcovered
  · intro hall
    exact hall key balance hrow

/-- `closeext` pays out the balance that it erases. -/
theorem closeext_stepSolvent
    {user dest : Name} {extSymbol : ExtendedSymbol} {memo : Text} (inv : LpLedger u.state)
    (h : closeext env ctx u.state user dest extSymbol memo = .ok (v.state, sent)) :
    StepSolvent env (u, ⟨ctx, .closeext user dest extSymbol memo, sent⟩) v := by
  obtain ⟨key, balance, -, hrow, hstate, hsent⟩ := closeext_eq_ok h
  obtain ⟨hfind, -, -⟩ := findDexacnt_eq_some hrow
  intro x
  have hin : inflow env x (u, ⟨ctx, .closeext user dest extSymbol memo, sent⟩) = 0 := rfl
  have hout : outflow x (u, ⟨ctx, .closeext user dest extSymbol memo, sent⟩) =
      amountIn x balance := by
    have hnonneg := (inv.deposits.holdable key balance hfind).nonneg
    simp only [outflow, hsent]
    split_ifs with hpos
    · simp [Inline.paidIn]
    · have hzero : balance.quantity.amount.toInt = 0 := by
        have hle := Int64.lt_iff_toInt_lt.not.mp hpos
        rw [Int64.toInt_zero] at hle
        omega
      simp [amountIn, hzero]
  have hdexacnts : v.state.dexacnts = u.state.dexacnts.erase key := by rw [hstate]
  have hstats : v.state.stats = u.state.stats := by rw [hstate]
  rw [hin, hout, holdings, holdings, hdexacnts, hstats, deposited_erase _ hfind, amountIn]
  dsimp only
  omega

/-- `withdraw` pays out what it takes off the deposit. -/
theorem withdraw_stepSolvent
    {user dest : Name} {toWithdraw : ExtendedAsset} {memo : Text} (inv : LpLedger u.state)
    (h : withdraw env ctx u.state user dest toWithdraw memo = .ok (v.state, sent)) :
    StepSolvent env (u, ⟨ctx, .withdraw user dest toWithdraw memo, sent⟩) v := by
  obtain ⟨-, -, hadd, rfl⟩ := withdraw_eq_ok h
  intro x
  have hin : inflow env x (u, ⟨ctx, .withdraw user dest toWithdraw memo,
      [.transfer toWithdraw.contract dest toWithdraw.quantity memo]⟩) = 0 := rfl
  have hout : outflow x (u, ⟨ctx, .withdraw user dest toWithdraw memo,
      [.transfer toWithdraw.contract dest toWithdraw.quantity memo]⟩) =
        amountIn x toWithdraw := by
    simp [outflow, Inline.paidIn]
  rw [hin, hout, holdings_debit inv.deposits hadd]
  dsimp only
  omega

variable {firstReceiver source dest : Name} {quantity : Asset} {memo : Text}

theorem notify_stepSolvent
    (inv : LpLedger u.state)
    (h : transferEvent env ctx u.state firstReceiver source dest quantity memo =
      .ok (v.state, sent)) :
    StepSolvent env (u, ⟨ctx, .notify firstReceiver source dest quantity memo, sent⟩) v := by
  have hflows : ∀ x, inflow env x
      (u, ⟨ctx, .notify firstReceiver source dest quantity memo, sent⟩) =
        (if dest = env.self ∧ source ≠ env.self ∧ DexMemo memo then
          amountIn x ⟨quantity, firstReceiver⟩ else 0) ∧
      outflow x (u, ⟨ctx, .notify firstReceiver source dest quantity memo, sent⟩) =
        if DexMemo memo then (sent.map (Inline.paidIn x)).sum else 0 := fun _ => ⟨rfl, rfl⟩
  have hother : ∀ operation : String, Operation memo operation →
      operation.toList ≠ "deposit".toList → operation.toList ≠ "exchange".toList →
      ¬ DexMemo memo := by
    rintro operation hop h1 h2 (hdex | ⟨hdex, -⟩)
    · exact h1 (hop.unique hdex)
    · exact h2 (hop.unique hdex)
  intro x
  rw [(hflows x).1, (hflows x).2]
  rcases transferEvent_eq_ok h with ⟨hsame, rfl, hnot⟩ | ⟨hin, hcase⟩
  · have hidle : ¬ (dest = env.self ∧ source ≠ env.self ∧ DexMemo memo) := by
      rintro ⟨hdest, hsource, hdex⟩
      exact hnot ⟨⟨hdest, hsource⟩, Or.inr (Or.inr hdex)⟩
    rw [if_neg hidle, hsame]
    simp
  · rcases hcase with ⟨_, _, hop, -, hok⟩ | ⟨_, _, hop, -, -, hok⟩ | ⟨hop, rfl, hok⟩ |
      ⟨_, _, hop, hlen, hok⟩
    · have hnot : ¬ DexMemo memo := hother _ hop (by decide) (by decide)
      obtain ⟨⟨-, -, hstats, hdexacnts⟩, -⟩ := stake_keeps hok
      rw [if_neg fun hdex => hnot hdex.2.2, if_neg hnot, holdings_of_same hdexacnts hstats]
      simp
    · have hnot : ¬ DexMemo memo := hother _ hop (by decide) (by decide)
      obtain ⟨_, _, _, -, -, -, -, -, -, hstate⟩ := bet_eq_ok hok
      have hdexacnts : v.state.dexacnts = u.state.dexacnts := by rw [hstate]
      have hstats : v.state.stats = u.state.stats := by rw [hstate]
      rw [if_neg fun hdex => hnot hdex.2.2, if_neg hnot, holdings_of_same hdexacnts hstats]
      simp
    · rw [if_pos ⟨hin.1, hin.2, Or.inl hop⟩, holdings_deposit inv.deposits hok]
      simp
    · have hdex : DexMemo memo := Or.inr ⟨hop, hlen⟩
      rw [if_pos ⟨hin.1, hin.2, hdex⟩, if_pos hdex]
      exact holdings_memoexchange inv hok

/-- A step of trading keeps the claims covered iff it credits no fee from a deposit. -/
theorem stepSolvent_iff_feeCovered
    (inv : LpLedger u.state) (hstep : Step env u e v) (htrading : e.action.Trading) :
    StepSolvent env (u, e) v ↔ FeeCovered (u, e) := by
  by_cases hon : e.action.OnExchange
  · obtain ⟨-, hexec, -⟩ := hstep
    obtain ⟨ctx, a, sent⟩ := e
    dsimp only at *
    cases a with
    | transfer source dest quantity memo =>
        obtain ⟨hok, rfl⟩ := silent_eq_ok_iff.mp hexec
        obtain ⟨_, s₁, -, -, -, -, -, hsub, hadd⟩ := transfer_eq_ok hok
        obtain ⟨_, _, -, -, hstate⟩ := addBalance_eq_ok hadd
        obtain ⟨_, _, _, _, -, -, -, -, -, -, hstate₁⟩ := subBalance_eq_ok hsub
        refine iff_of_true (stepSolvent_of_le (fun _ => rfl) (fun _ => rfl) ?_) trivial
        intro x
        refine (holdings_of_same ?_ ?_).le
        · rw [hstate, hstate₁]
        · rw [hstate, hstate₁]
    | tokenOpen owner symbol ramPayer =>
        obtain ⟨hok, rfl⟩ := silent_eq_ok_iff.mp hexec
        refine iff_of_true (stepSolvent_of_le (fun _ => rfl) (fun _ => rfl) ?_) trivial
        intro x
        rcases tokenOpen_eq_ok hok with hstate | ⟨-, hstate⟩
        · rw [hstate]
        · exact (holdings_of_same (congrArg State.dexacnts hstate)
            (congrArg State.stats hstate)).le
    | tokenClose owner symbol =>
        obtain ⟨hok, rfl⟩ := silent_eq_ok_iff.mp hexec
        obtain ⟨_, -, -, -, hstate⟩ := tokenClose_eq_ok hok
        refine iff_of_true (stepSolvent_of_le (fun _ => rfl) (fun _ => rfl) ?_) trivial
        intro x
        exact (holdings_of_same (congrArg State.dexacnts hstate)
          (congrArg State.stats hstate)).le
    | openext user extSymbol =>
        obtain ⟨hok, rfl⟩ := silent_eq_ok_iff.mp hexec
        refine iff_of_true (stepSolvent_of_le (fun _ => rfl) (fun _ => rfl) ?_) trivial
        intro x
        rcases openext_eq_ok hok with hstate | ⟨id, -, hfresh, hstate⟩
        · rw [hstate]
        · rw [holdings, holdings, hstate, deposited, Table.sum_put,
            Table.weight_of_find?_none hfresh, deposited]
          simp
    | closeext user dest extSymbol memo =>
        exact iff_of_true (closeext_stepSolvent inv hexec) trivial
    | withdraw user dest toWithdraw memo =>
        exact iff_of_true (withdraw_stepSolvent inv hexec) trivial
    | addliquidity user toBuy maxAsset1 maxAsset2 =>
        obtain ⟨hok, rfl⟩ := silent_eq_ok_iff.mp hexec
        refine iff_of_true (stepSolvent_of_le (fun _ => rfl) (fun _ => rfl) ?_) trivial
        intro x
        exact (holdings_addSignedLiq inv (addliquidity_eq_ok hok).2.2).le
    | rmliquidity user toSell minAsset1 minAsset2 =>
        obtain ⟨hok, rfl⟩ := silent_eq_ok_iff.mp hexec
        refine iff_of_true (stepSolvent_of_le (fun _ => rfl) (fun _ => rfl) ?_) trivial
        intro x
        exact (holdings_addSignedLiq inv (rmliquidity_eq_ok hok).2.2).le
    | exchange user pairToken extAssetIn minExpected =>
        obtain ⟨hok, rfl⟩ := silent_eq_ok_iff.mp hexec
        have hiff := exchange_solvent_iff inv hok
        simpa [StepSolvent, inflow, outflow, FeeCovered] using hiff
    | exchangeall user pairToken assetIn =>
        obtain ⟨hok, rfl⟩ := silent_eq_ok_iff.mp hexec
        have hiff := exchangeall_solvent_iff inv hok
        simpa [StepSolvent, inflow, outflow, FeeCovered] using hiff
    | inittoken user newSymbol initialPool1 initialPool2 =>
        obtain ⟨hok, rfl⟩ := silent_eq_ok_iff.mp hexec
        refine iff_of_true (stepSolvent_of_le (fun _ => rfl) (fun _ => rfl) ?_) trivial
        intro x
        exact holdings_inittoken inv hok
    | notify firstReceiver source dest quantity memo =>
        exact iff_of_true (notify_stepSolvent inv hexec) trivial
    | rmpool => exact htrading.elim
    | clmpoolreward => exact htrading.elim
    | _ => exact hon.elim
  · have hflows : FeeCovered (u, e) ∧
        ∀ x, inflow env x (u, e) = 0 ∧ outflow x (u, e) = 0 := flows_of_not_onExchange hon
    obtain ⟨-, -, hstats, hdexacnts⟩ := keepsDex_of_not_onExchange hstep hon
    refine iff_of_true ?_ hflows.1
    refine stepSolvent_of_le (fun x => (hflows.2 x).1) (fun x => (hflows.2 x).2) ?_
    intro x
    exact (holdings_of_same hdexacnts hstats).le

end Steps

section Runs

variable {env : Env} {w w' : World} {h : History}

theorem holdings_empty (x : ExtendedSymbol) : holdings State.empty x = 0 := rfl

/-- In a run of trading, all steps keep the claims covered iff none credits a fee from a
deposit; then the claims are covered at the end. -/
theorem dex_solvent_iff_feeCovered
    (hw : w.Genesis) (run : Run (Step env) w h w') (htrading : ∀ p ∈ h, p.2.action.Trading) :
    ((∀ p ∈ h, ∀ v, Step env p.1 p.2 v → StepSolvent env p v) ↔ ∀ p ∈ h, FeeCovered p) ∧
    ((∀ p ∈ h, FeeCovered p) → ∀ x, holdings w'.state x ≤
      (h.map (inflow env x)).sum - (h.map (outflow x)).sum) := by
  have hinv : ∀ s e t, (s, e).2.action.Trading ∧ FeeCovered (s, e) → LpLedger s.state →
      Step env s e t → LpLedger t.state := fun _ _ _ _ inv hstep => inv.exec hstep.2.1
  constructor
  · have hcut : ∀ p ∈ h, LpLedger p.1.state ∧ ∃ v, Step env p.1 p.2 v := by
      rintro ⟨u, e⟩ hp
      obtain ⟨pre, _, v, -, hpre, hstep, -⟩ := run.exists_of_mem hp
      exact ⟨lpLedger_of_reaches ⟨w, pre, hw, hpre⟩, v, hstep⟩
    constructor
    · intro hsolvent p hp
      obtain ⟨inv, v, hstep⟩ := hcut p hp
      exact (stepSolvent_iff_feeCovered inv hstep (htrading p hp)).mp (hsolvent p hp v hstep)
    · intro hcovered p hp v hstep
      obtain ⟨inv, -⟩ := hcut p hp
      exact (stepSolvent_iff_feeCovered inv hstep (htrading p hp)).mpr (hcovered p hp)
  · intro hcovered x
    have hle := run.balance_le (fun p => p.2.action.Trading ∧ FeeCovered p)
      (fun w => LpLedger w.state) (fun w => holdings w.state x)
      (fun p => inflow env x p - outflow x p) hinv ?_
      (fun p hp => ⟨htrading p hp, hcovered p hp⟩) (by rw [hw]; exact LpLedger.empty)
    · have hsplit : ∀ l : History, (l.map fun p => inflow env x p - outflow x p).sum =
          (l.map (inflow env x)).sum - (l.map (outflow x)).sum := by
        intro l
        induction l with
        | nil => rfl
        | cons p l ih =>
            simp only [List.map_cons, List.sum_cons, ih]
            omega
      rw [hw, holdings_empty, zero_add, hsplit] at hle
      exact hle
    · intro s e t hC inv hstep
      have hstep' := (stepSolvent_iff_feeCovered inv hstep hC.1).mpr hC.2 x
      dsimp only at *
      omega

/-- A swap of 600 units from a deposit credits no fee. -/
theorem dex_solvent_iff_feeCovered_sample :
    ∃ h w, Run (Step sampleEnv) sampleWorld h w ∧
      (w.state.stats.find? (sampleSymbol "AB").code).map
        (fun token => token.pool1.quantity.amount) = some 1000598 ∧
      ∀ x, holdings w.state x ≤
        (h.map (inflow sampleEnv x)).sum - (h.map (outflow x)).sum := by
  let inputs : List (Ctx × Action) := samplePool ++
    [(sampleCtx 2000 "alice", .exchange (nameLiteral "alice") (sampleSymbol "AB").code
      (sampleA 600) (sampleB 1).quantity)]
  obtain ⟨h, w, hplay, hobs⟩ := exists_of_play
    (show (play (stepWith sampleEnv) sampleWorld inputs).map (fun r =>
        ((r.2.state.stats.find? (sampleSymbol "AB").code).map
            fun token => token.pool1.quantity.amount,
          r.1.all fun p =>
            (p.1.state.stats.find? (sampleSymbol "AB").code).all fun token =>
              decide (0 ≤ token.fee1.quantity.amount ∧ 0 ≤ token.fee2.quantity.amount))) =
      some (some 1000598, true) by decide +kernel)
  obtain ⟨hpool, hfees⟩ := Prod.mk.inj hobs
  have hrun := run_of_play (step_of_stepWith sampleEnv) _ hplay
  have hinput : ∀ p ∈ h, p.2.action.Trading ∧ FeeCovered p := by
    rintro ⟨u, ctx, a, sent⟩ hp
    have hmem := input_mem_of_play hplay hp
    simp only [inputs, samplePool, samplePayment, List.cons_append, List.nil_append,
      List.mem_cons, Prod.mk.injEq, List.not_mem_nil, or_false] at hmem
    rcases hmem with ⟨-, rfl⟩ | ⟨-, rfl⟩ | ⟨-, rfl⟩ | ⟨-, rfl⟩ | ⟨-, rfl⟩
    · exact ⟨trivial, trivial⟩
    · exact ⟨trivial, trivial⟩
    · exact ⟨trivial, trivial⟩
    · exact ⟨trivial, trivial⟩
    · refine ⟨trivial, ?_⟩
      intro token first htoken hsym hpos
      have hall := List.all_eq_true.mp hfees _ hp
      rw [htoken] at hall
      have hnonneg := of_decide_eq_true hall
      refine ⟨by decide, ?_⟩
      cases first with
      | true => exact hnonneg.1
      | false => exact hnonneg.2
  refine ⟨h, w, hrun, hpool, ?_⟩
  exact (dex_solvent_iff_feeCovered sampleWorld_genesis hrun fun p hp => (hinput p hp).1).2
    fun p hp => (hinput p hp).2

/-- The actions of depositors, liquidity providers and traders. -/
def Action.OfTraders : Action → Prop
  | .openext _ _ => True
  | .closeext _ _ _ _ => True
  | .withdraw _ _ _ _ => True
  | .inittoken _ _ _ _ => True
  | .addliquidity _ _ _ _ => True
  | .rmliquidity _ _ _ _ => True
  | .exchange _ _ _ _ => True
  | .exchangeall _ _ _ => True
  | .notify _ _ _ _ memo => DexMemo memo
  | _ => False

/-- A swap of 10000 units from a deposit makes the exchange owe 15 units that nobody
has paid in. -/
theorem dex_not_solvent_by_credited_fee :
    ¬ ∀ (env : Env) (w w' : World) (h : History), w.Genesis → Run (Step env) w h w' →
      env.isDexOpen = true → (∀ p ∈ h, p.2.action.OfTraders) →
      ∀ x, holdings w'.state x ≤ (h.map (inflow env x)).sum - (h.map (outflow x)).sum := by
  intro hall
  let inputs : List (Ctx × Action) := samplePool ++
    [(sampleCtx 2000 "alice", .exchange (nameLiteral "alice") (sampleSymbol "AB").code
      (sampleA 10000) (sampleB 1).quantity)]
  obtain ⟨h, w, hplay, hobs⟩ := exists_of_play
    (show (play (stepWith sampleEnv) sampleWorld inputs).map (fun r =>
        (holdings r.2.state (sampleA 0).extendedSymbol,
          (r.1.map (inflow sampleEnv (sampleA 0).extendedSymbol)).sum,
          (r.1.map (outflow (sampleA 0).extendedSymbol)).sum)) =
      some (2000015, 2000000, 0) by decide +kernel)
  simp only [Prod.mk.injEq] at hobs
  obtain ⟨hholdings, hin, hout⟩ := hobs
  have hrun := run_of_play (step_of_stepWith sampleEnv) _ hplay
  have hactions : ∀ p ∈ h, p.2.action.OfTraders := by
    rintro ⟨u, ctx, a, sent⟩ hp
    have hmem := input_mem_of_play hplay hp
    simp only [inputs, samplePool, samplePayment, List.cons_append, List.nil_append,
      List.mem_cons, Prod.mk.injEq, List.not_mem_nil, or_false] at hmem
    rcases hmem with ⟨-, rfl⟩ | ⟨-, rfl⟩ | ⟨-, rfl⟩ | ⟨-, rfl⟩ | ⟨-, rfl⟩
    · exact Or.inl (by decide +kernel)
    · exact Or.inl (by decide +kernel)
    · exact Or.inl (by decide +kernel)
    · trivial
    · trivial
  have hle := hall sampleEnv sampleWorld w h sampleWorld_genesis hrun rfl hactions
    (sampleA 0).extendedSymbol
  omega

end Runs

end Lemonade
