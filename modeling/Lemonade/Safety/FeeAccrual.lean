import Lemonade.Safety.Solvency
import Mathlib.Tactic

/-!
# Accrued fees

A swap adds half of its fee to what its pool has accrued.  The fee has the sign of the
input: an exchange with a negative input, which buys an exact amount of the token that it
names, takes the fee back out of the pool.  Accrued fees stay nonnegative and never fall, except
for rewards, as long as what is taken back is cut off to nothing or lost in the rounding of the
accrued fee (`FeeUnrefunded`).
-/

namespace Lemonade

open Kernel

section Accruals

/-- Fee that a pool has accrued next to a reserve, zero if there is no pool. -/
def accrued (s : State) (code : SymbolCode) (first : Bool) : ℤ :=
  s.stats.weight (fun _ token => (token.fee first).quantity.amount.toInt) code

/-- All accrued fees have a property. -/
def FeesAll (P : ℤ → Prop) (s : State) : Prop :=
  ∀ code token, s.stats.find? code = some token →
    ∀ first, P (token.fee first).quantity.amount.toInt

/-- No pool has accrued a negative fee. -/
def FeesNonneg (s : State) : Prop := FeesAll (fun fee => 0 ≤ fee) s

/-- Accrued fees are doubles. -/
def FeesStored [Doubles] (s : State) : Prop := FeesAll (fun fee => rnd fee = fee) s

/-- No pool has accrued less than before; a new pool starts at zero. -/
def FeesKept (s s' : State) : Prop :=
  ∀ code token', s'.stats.find? code = some token' →
    ∀ first, accrued s code first ≤ (token'.fee first).quantity.amount.toInt

/-- The accrued fees are as before; a new pool has none. -/
def FeesSame (s s' : State) : Prop :=
  ∀ code token', s'.stats.find? code = some token' →
    ∀ first, (token'.fee first).quantity.amount.toInt = accrued s code first

/-- A fee that has been accrued takes no notice of an input. -/
def Absorbs [Doubles] (fee amount : ℤ) : Prop := rnd (fee + rnd (feeOf amount / 2)) = fee

/-- A swap of `input` in a pool takes no fee back: the input is not negative, or it is small
and the pool has not accrued a fee, or too small for the fee that the pool has accrued. -/
def Unrefunded [Doubles] (s : State) (pairToken : SymbolCode) (input : ExtendedAsset) : Prop :=
  ∀ token first, s.stats.find? pairToken = some token →
    (token.reserve first).extendedSymbol = input.extendedSymbol →
    input.quantity.amount < 0 →
    (-666 ≤ input.quantity.amount ∧ (token.fee first).quantity.amount ≤ 0) ∨
      Absorbs (token.fee first).quantity.amount.toInt input.quantity.amount.toInt

/-- The event, if it is an exchange, takes no fee back. -/
def FeeUnrefunded [Doubles] (p : World × Event) : Prop :=
  match p.2.action with
  | .exchange _ pairToken extAssetIn _ => Unrefunded p.1.state pairToken extAssetIn
  | _ => True

/-- The action that swaps an amount of either sign. -/
def Action.IsExchange : Action → Prop
  | .exchange _ _ _ _ => True
  | _ => False

/-- The action that pays rewards and resets the fees of a pool. -/
def Action.ResetsFees : Action → Prop
  | .clmpoolreward _ _ _ => True
  | _ => False

variable {s s' : State} {code : SymbolCode} {token token' : CurrencyStats} {P : ℤ → Prop}

theorem accrued_of_find?
    (h : s.stats.find? code = some token) (first : Bool) :
    accrued s code first = (token.fee first).quantity.amount.toInt :=
  Table.weight_of_find? h

theorem FeesAll.accrued (h : FeesAll P s) (hzero : P 0) (code : SymbolCode) (first : Bool) :
    P (accrued s code first) := by
  cases hrow : s.stats.find? code with
  | none =>
      rw [Lemonade.accrued, Table.weight_of_find?_none hrow]
      exact hzero
  | some token =>
      rw [accrued_of_find? hrow]
      exact h code token hrow first

theorem FeesAll.empty : FeesAll P State.empty := by
  intro _ _ hrow
  cases hrow

theorem FeesAll.of_put
    (h : FeesAll P s) (hstats : s'.stats = s.stats.put code token')
    (hfees : ∀ first, P (token'.fee first).quantity.amount.toInt) : FeesAll P s' := by
  intro c row hrow
  rw [hstats, Table.find?_put] at hrow
  split_ifs at hrow
  · obtain rfl := Option.some.inj hrow
    exact hfees
  · exact h c row hrow

theorem FeesNonneg.of_kept (h : FeesNonneg s) (hkept : FeesKept s s') : FeesNonneg s' := by
  intro code token' htoken' first
  exact (h.accrued (le_refl 0) code first).trans (hkept code token' htoken' first)

theorem FeesSame.feesKept (h : FeesSame s s') : FeesKept s s' :=
  fun code token' htoken' first => (h code token' htoken' first).ge

theorem FeesSame.feesAll (h : FeesSame s s') (hzero : P 0) (hfees : FeesAll P s) :
    FeesAll P s' := by
  intro code token' htoken' first
  rw [h code token' htoken' first]
  exact hfees.accrued hzero code first

theorem FeesSame.of_stats (h : s'.stats = s.stats) : FeesSame s s' := by
  intro code token' htoken' first
  rw [h] at htoken'
  exact (accrued_of_find? htoken' first).symm

theorem FeesSame.of_erase (h : s'.stats = s.stats.erase code) : FeesSame s s' := by
  intro c token' htoken' first
  rw [h, Table.find?_erase] at htoken'
  split_ifs at htoken'
  exact (accrued_of_find? htoken' first).symm

theorem FeesSame.of_put
    (h : s'.stats = s.stats.put code token')
    (hfees : ∀ first, (token'.fee first).quantity.amount.toInt = accrued s code first) :
    FeesSame s s' := by
  intro c row hrow first
  rw [h, Table.find?_put] at hrow
  split_ifs at hrow with hc
  · obtain rfl := Option.some.inj hrow
    rw [← hc]
    exact hfees first
  · exact (accrued_of_find? hrow first).symm

/-- The row of one pool is written. -/
theorem feesKept_put_iff
    (h : s'.stats = s.stats.put code token') :
    FeesKept s s' ↔
      ∀ first, accrued s code first ≤ (token'.fee first).quantity.amount.toInt := by
  constructor
  · intro hkept
    refine hkept code token' ?_
    rw [h, Table.find?_put_self]
  · intro hfees c row hrow first
    rw [h, Table.find?_put] at hrow
    split_ifs at hrow with hc
    · obtain rfl := Option.some.inj hrow
      rw [← hc]
      exact hfees first
    · exact (accrued_of_find? hrow first).le

end Accruals

section Swaps

variable [Doubles]
variable {s s' : State} {pairToken : SymbolCode} {token token' : CurrencyStats} {first : Bool}
variable {input net out : ExtendedAsset}

/-- Half of the fee reaches a whole unit at 667, also in doubles. -/
theorem half_feeOf_lt_one_iff {a : ℤ} (h : 0 ≤ a) :
    rnd (feeOf a / 2) < 1 ↔ a ≤ 666 := by
  have hnonneg : 0 ≤ rnd (a : ℚ) := Doubles.rnd_nonneg (by exact_mod_cast h)
  have hrate := rnd_swapFee_mem.1
  have hproduct : 0 ≤ rnd (a : ℚ) * rnd swapFee := mul_nonneg hnonneg (by linarith)
  constructor
  · -- from 667 on half of the fee is at least 1.0005 but for the errors
    intro hlt
    by_contra hge
    have ha : ((667 : ℤ) : ℚ) ≤ rnd a := by
      rw [← Doubles.rnd_intCast (n := 667) (by norm_num)]
      exact Doubles.rnd_mono (Int.cast_le.mpr (by omega))
    push_cast at ha
    have hlow : 3 / 1000 * (1 - 1 / 2 ^ 53) ≤ rnd swapFee := Doubles.mul_le_rnd (by norm_num)
    have hmul : 667 * rnd swapFee ≤ rnd (a : ℚ) * rnd swapFee :=
      mul_le_mul_of_nonneg_right ha (by linarith)
    have hround : rnd (a : ℚ) * rnd swapFee * (1 - 1 / 2 ^ 53) ≤ feeOf a :=
      Doubles.mul_le_rnd hproduct
    have hone : 1 ≤ rnd (feeOf a / 2) := Doubles.le_rnd isDouble_one (by linarith)
    linarith
  · -- up to 666 it is at most 0.999 but for the errors
    intro hle
    have ha : rnd (a : ℚ) ≤ ((666 : ℤ) : ℚ) := by
      rw [← Doubles.rnd_intCast (n := 666) (by norm_num)]
      exact Doubles.rnd_mono (Int.cast_le.mpr hle)
    push_cast at ha
    have hhigh : rnd swapFee ≤ 3 / 1000 * (1 + 1 / 2 ^ 53) :=
      Doubles.rnd_le_mul (by norm_num [swapFee])
    have hmul : rnd (a : ℚ) * rnd swapFee ≤ 666 * rnd swapFee :=
      mul_le_mul_of_nonneg_right ha (by linarith)
    have hround : feeOf a ≤ rnd (a : ℚ) * rnd swapFee * (1 + 1 / 2 ^ 53) :=
      Doubles.rnd_le_mul hproduct
    have hdouble : IsDouble (1023 / 1024) := ⟨1023, -10, by norm_num, by norm_num⟩
    have hcut : rnd (feeOf a / 2) ≤ 1023 / 1024 := Doubles.rnd_le hdouble (by linarith)
    linarith

/-- An accrued fee does not fall with a negative input iff half of the fee is cut off or
absorbed. -/
theorem le_accruedWith_iff
    {fee a : ℤ} (hstored : rnd fee = fee) (hnonneg : 0 ≤ fee) :
    fee ≤ accruedWith fee a ↔ (a < 0 → (-666 ≤ a ∧ fee ≤ 0) ∨ Absorbs fee a) := by
  unfold accruedWith Absorbs
  rw [hstored]
  rcases le_or_gt 0 a with ha | ha
  · have hhalf : 0 ≤ rnd (feeOf a / 2) :=
      Doubles.rnd_nonneg (div_nonneg (feeOf_nonneg ha) (by norm_num))
    have hle := trunc_mono (Doubles.rnd_mono (le_add_of_nonneg_right (a := (fee : ℚ)) hhalf))
    rw [hstored, trunc_intCast] at hle
    exact iff_of_true hle fun h => absurd ha (not_le.mpr h)
  · have hhalf : rnd (feeOf a / 2) ≤ 0 := by
      have hfee := feeOf_nonpos ha.le
      exact Doubles.rnd_nonpos (by linarith)
    have hle := Doubles.rnd_mono (add_le_of_nonpos_right (a := (fee : ℚ)) hhalf)
    rw [hstored] at hle
    have hcut : -1 < rnd (feeOf a / 2) ↔ -666 ≤ a := by
      have hmirror := half_feeOf_lt_one_iff (a := -a) (by omega)
      rw [feeOf_neg, neg_div, Doubles.rnd_neg, neg_lt] at hmirror
      rw [hmirror]
      omega
    constructor
    · intro hkept _
      rcases hnonneg.lt_or_eq with hpos | hzero
      · -- a positive fee is kept only by a sum that rounds to it
        right
        have hsum : 0 ≤ rnd ((fee : ℚ) + rnd (feeOf a / 2)) := by
          by_contra hneg
          have htrunc := trunc_nonpos (not_le.mp hneg).le
          omega
        exact hle.antisymm ((Int.cast_le.mpr hkept).trans (trunc_le hsum))
      · left
        rw [← hzero, Int.cast_zero, zero_add, Doubles.rnd_rnd] at hkept
        refine ⟨hcut.mp ?_, hzero.ge⟩
        by_contra hlow
        have htrunc := trunc_mono (show rnd (feeOf a / 2) ≤ ((-1 : ℤ) : ℚ) by
          push_cast
          exact not_lt.mp hlow)
        rw [trunc_intCast] at htrunc
        omega
    · intro h
      rcases h ha with ⟨hsmall, hfee⟩ | habsorbs
      · obtain rfl : fee = 0 := le_antisymm hfee hnonneg
        rw [Int.cast_zero, zero_add, Doubles.rnd_rnd, trunc_of_nonpos hhalf, ← Int.sub_one_lt_iff,
          Int.lt_ceil]
        push_cast
        linarith [hcut.mpr hsmall]
      · rw [habsorbs, trunc_intCast]

theorem unrefunded_iff_feeCredit
    (ok : PoolOk token) (hstored : FeesStored s) (hnonneg : FeesNonneg s)
    (htoken : s.stats.find? pairToken = some token)
    (hsym : input.extendedSymbol = (token.reserve first).extendedSymbol) :
    Unrefunded s pairToken input ↔ 0 ≤ feeCredit token first input := by
  have hzero : (0 : Int64).toInt = 0 := rfl
  have hsmall : (-666 : Int64).toInt = -666 := rfl
  have hcredit := le_accruedWith_iff (a := input.quantity.amount.toInt)
    (hstored pairToken token htoken first) (hnonneg pairToken token htoken first)
  rw [feeCredit, sub_nonneg, hcredit, ← hzero, ← hsmall, ← Int64.lt_iff_toInt_lt,
    ← Int64.le_iff_toInt_le, ← Int64.le_iff_toInt_le]
  exact ok.forall_side_iff htoken hsym fun token first => input.quantity.amount < 0 →
    (-666 ≤ input.quantity.amount ∧ (token.fee first).quantity.amount ≤ 0) ∨
      Absorbs (token.fee first).quantity.amount.toInt input.quantity.amount.toInt

/-- The fees after a swap, on both sides of the pool. -/
theorem SwapUpdate.feesKept_iff
    (h : SwapUpdate token token' first input net out)
    (htoken : s.stats.find? pairToken = some token)
    (hstats : s'.stats = s.stats.put pairToken token') :
    FeesKept s s' ↔ 0 ≤ feeCredit token first input := by
  have hfee : (token'.fee first).quantity.amount.toInt =
      accrued s pairToken first + feeCredit token first input := by
    rw [h.fee, accrued_of_find? htoken, feeCredit]
    omega
  have hother : (token'.fee !first).quantity.amount.toInt = accrued s pairToken !first := by
    rw [h.otherFee, accrued_of_find? htoken]
  rw [feesKept_put_iff hstats]
  constructor
  · intro hkept
    have hle := hkept first
    omega
  · intro hcredit side
    by_cases hside : side = first
    · rw [hside, hfee]
      omega
    · rw [Bool.eq_not_of_ne hside]
      exact hother.ge

/-- A pool has swapped `input`. -/
def FeeSwap (s s' : State) (pairToken : SymbolCode) (input : ExtendedAsset) : Prop :=
  ∃ token token' first net out, s.stats.find? pairToken = some token ∧
    SwapUpdate token token' first input net out ∧ s'.stats = s.stats.put pairToken token'

theorem FeeSwap.feesAll
    {P : ℤ → Prop} (h : FeeSwap s s' pairToken input) (hfees : FeesAll P s)
    (haccrue : ∀ fee amount, P fee → P (accruedWith fee amount)) : FeesAll P s' := by
  obtain ⟨token, token', first, net, out, htoken, hupdate, hstats⟩ := h
  refine hfees.of_put hstats ?_
  intro side
  by_cases hside : side = first
  · rw [hside, hupdate.fee]
    exact haccrue _ _ (hfees pairToken token htoken first)
  · rw [Bool.eq_not_of_ne hside, hupdate.otherFee]
    exact hfees pairToken token htoken _

theorem FeeSwap.feesKept_iff
    (h : FeeSwap s s' pairToken input) (inv : LpLedger s) (hstored : FeesStored s)
    (hnonneg : FeesNonneg s) : FeesKept s s' ↔ Unrefunded s pairToken input := by
  obtain ⟨token, token', first, net, out, htoken, hupdate, hstats⟩ := h
  rw [hupdate.feesKept_iff htoken hstats, unrefunded_iff_feeCredit (inv.pools _ token htoken)
    hstored hnonneg htoken hupdate.inputSymbol]

theorem unrefunded_of_nonneg
    (h : 0 ≤ input.quantity.amount.toInt) : Unrefunded s pairToken input := by
  intro _ _ _ _ hneg
  exact absurd hneg (Int64.not_lt.mpr (Int64.le_iff_toInt_le.mpr h))

end Swaps

section Steps

variable {env : Env} {ctx : Ctx} {s s' : State} {user : Name} {u v : World} {e : Event}

/-- What an action does to the accrued fees. -/
inductive FeeStep [Doubles] (s s' : State) : Action → Prop
  | same {a : Action} (h : FeesSame s s') (ha : ¬ a.IsExchange) : FeeStep s s' a
  | exchange {user : Name} {pairToken : SymbolCode} {input : ExtendedAsset} {minExpected : Asset}
      (h : FeeSwap s s' pairToken input) :
      FeeStep s s' (.exchange user pairToken input minExpected)
  | swap {a : Action} {pairToken : SymbolCode} {input : ExtendedAsset}
      (h : FeeSwap s s' pairToken input) (hinput : 0 ≤ input.quantity.amount.toInt)
      (ha : ¬ a.IsExchange) : FeeStep s s' a
  | reset {a : Action} {code : SymbolCode} {token' : CurrencyStats} (ha : a.ResetsFees)
      (h : s'.stats = s.stats.put code token')
      (hfees : ∀ first, (token'.fee first).quantity.amount.toInt = 0) : FeeStep s s' a

theorem FeesSame.of_liquidity
    {toAdd maxAsset1 maxAsset2 : Asset} (inv : LpLedger s)
    (h : addSignedLiq s user toAdd maxAsset1 maxAsset2 = .ok s') : FeesSame s s' := by
  obtain ⟨token, token', _, s₁, s₂, s₃, htoken, hupdate, h1, h2, hcredit, hstate,
    -⟩ := inv.addSignedLiq h
  have hstats : s₃.stats = s.stats := by
    rw [hcredit.stats, (addSignedExtBalance_keepsShares h2).stats,
      (addSignedExtBalance_keepsShares h1).stats]
  have hput : s'.stats = s.stats.put toAdd.symbol.code token' := by rw [hstate, hstats]
  refine .of_put hput ?_
  intro first
  rw [accrued_of_find? htoken, hupdate.fees]

/-- A pool starts without fees. -/
theorem FeesSame.of_inittoken
    {newSymbol : Symbol} {initialPool1 initialPool2 : ExtendedAsset}
    (h : inittoken env ctx s user newSymbol initialPool1 initialPool2 = .ok s') :
    FeesSame s s' := by
  obtain ⟨newToken, s₁, _, _, _, s₂, s₃, -, -, -, -, -, -, -, -, -, hfee, hfresh, hshares, h1,
    h2⟩ := inittoken_eq_ok h
  have hpaid : s₁.stats = s.stats := (payPoolFee_keepsShares hfee).stats
  obtain ⟨_, _, -, -, hstate⟩ := addBalance_eq_ok hshares
  have hstats : s'.stats = s.stats.put newSymbol.code
      (newPool user newSymbol newToken initialPool1 initialPool2) := by
    rw [(addSignedExtBalance_keepsShares h2).stats, (addSignedExtBalance_keepsShares h1).stats,
      hstate, ← hpaid]
  rw [hpaid] at hfresh
  refine .of_put hstats ?_
  intro first
  rw [accrued, Table.weight_of_find?_none hfresh]
  cases first with
  | true => rfl
  | false => rfl

theorem feeSwap_of_exchange [Doubles]
    {pairToken : SymbolCode} {extAssetIn : ExtendedAsset} {minExpected : Asset}
    (inv : LpLedger s)
    (h : exchange env ctx s user pairToken extAssetIn minExpected = .ok s') :
    FeeSwap s s' pairToken extAssetIn := by
  obtain ⟨_, _, _, _, -, -, hswap, hpay, hget⟩ := exchange_eq_ok h
  obtain ⟨token, token', first, htoken, hupdate, -, rfl⟩ := hswap.update inv.pools
  exact ⟨token, token', first, _, _, htoken, hupdate,
    (addSignedExtBalance_keepsShares hget).stats.trans (addSignedExtBalance_keepsShares hpay).stats⟩

/-- A memo exchange asks for a nonnegative output, so its input is positive. -/
theorem feeSwap_of_memoexchange [Doubles]
    {extAssetIn : ExtendedAsset} {pairToken : SymbolCode} {minExpected : Asset}
    {sent : List Inline} (inv : LpLedger s)
    (h : memoexchange env s user extAssetIn pairToken minExpected = .ok (s', sent)) :
    FeeSwap s s' pairToken extAssetIn ∧ 0 ≤ extAssetIn.quantity.amount.toInt := by
  obtain ⟨net, out, memo, hmin, hswap, rfl⟩ := memoexchange_eq_ok h
  obtain ⟨token, token', first, htoken, hupdate, hout, rfl⟩ := hswap.update inv.pools
  have hout' : 0 ≤ out.quantity.amount.toInt := by
    have h1 := Int64.le_iff_toInt_le.mp hmin
    have h2 := Int64.le_iff_toInt_le.mp hout
    exact h1.trans h2
  have hpos := hupdate.input_pos (inv.pools _ token htoken) hout'
  exact ⟨⟨token, token', first, net, out, htoken, hupdate, rfl⟩, hpos.le⟩

theorem feeStep_of_dexMove [Doubles]
    {a : Action} {sent : List Inline} (inv : LpLedger s)
    (h : DexMove env ctx s a s' sent) : FeeStep s s' a := by
  cases h with
  | transfer h =>
      obtain ⟨_, _, -, -, -, -, -, hsub, hadd⟩ := transfer_eq_ok h
      obtain ⟨_, _, -, -, hstate⟩ := addBalance_eq_ok hadd
      obtain ⟨_, _, _, _, -, -, -, -, -, -, hstate₁⟩ := subBalance_eq_ok hsub
      refine .same (.of_stats ?_) id
      rw [hstate, hstate₁]
  | tokenOpen h =>
      refine .same ?_ id
      rcases tokenOpen_eq_ok h with hstate | ⟨-, hstate⟩
      · exact .of_stats (by rw [hstate])
      · exact .of_stats (by rw [hstate])
  | tokenClose h =>
      obtain ⟨_, -, -, -, hstate⟩ := tokenClose_eq_ok h
      exact .same (.of_stats (by rw [hstate])) id
  | openext h =>
      refine .same ?_ id
      rcases openext_eq_ok h with hstate | ⟨_, -, -, hstate⟩
      · exact .of_stats (by rw [hstate])
      · exact .of_stats (by rw [hstate])
  | closeext h =>
      obtain ⟨_, _, -, -, hstate, -⟩ := closeext_eq_ok h
      exact .same (.of_stats (by rw [hstate])) id
  | withdraw h =>
      obtain ⟨-, -, hadd, -⟩ := withdraw_eq_ok h
      exact .same (.of_stats (addSignedExtBalance_keepsShares hadd).stats) id
  | addliquidity h => exact .same (.of_liquidity inv (addliquidity_eq_ok h).2.2) id
  | rmliquidity h => exact .same (.of_liquidity inv (rmliquidity_eq_ok h).2.2) id
  | exchange h => exact .exchange (feeSwap_of_exchange inv h)
  | exchangeall h =>
      -- what is swapped is a deposit, which is never negative
      obtain ⟨_, key, balance, -, hrow, hall⟩ := exchangeall_eq_ok h
      have hhold := inv.deposits.holdable key balance (findDexacnt_eq_some hrow).1
      exact .swap (feeSwap_of_exchange inv hall) hhold.nonneg id
  | inittoken h => exact .same (.of_inittoken h) id
  | rmpool h =>
      obtain ⟨_, _, _, _, _, -, -, -, hstate⟩ := rmpool_eq_ok h
      exact .same (.of_erase (by rw [hstate])) id
  | clmpoolreward h =>
      obtain ⟨_, code, token, fee1, fee2, _, -, -, -, -, ⟨hzero1, hzero2⟩, rfl⟩ :=
        clmpoolreward_eq_ok h
      refine .reset trivial rfl ?_
      intro first
      cases first with
      | true => exact congrArg Int64.toInt hzero1
      | false => exact congrArg Int64.toInt hzero2
  | deposit _ _ h => exact .same (.of_stats (addSignedExtBalance_keepsShares h).stats) id
  | memoexchange _ _ _ h =>
      obtain ⟨hswap, hinput⟩ := feeSwap_of_memoexchange inv h
      exact .swap hswap hinput id

theorem feeStep_of_step [Doubles]
    (inv : LpLedger u.state) (hstep : Step env u e v) : FeeStep u.state v.state e.action := by
  obtain ⟨-, hexec, -⟩ := hstep
  obtain ⟨ctx, a, sent⟩ := e
  cases exec_area hexec with
  | stakes move dex =>
      refine .same (.of_stats dex.2.2.1) ?_
      dsimp only at move
      cases move <;> exact id
  | games move dex =>
      refine .same (.of_stats dex.2.2.1) ?_
      dsimp only at move
      cases move <;> exact id
  | dex move => exact feeStep_of_dexMove inv move
  | idle _ dex admin =>
      refine .same (.of_stats dex.2.2.1) ?_
      dsimp only at admin
      generalize v.state = t at admin
      cases admin <;> exact id

/-- A property of zero that accruing keeps is one of all accrued fees. -/
theorem FeeStep.feesAll [Doubles]
    {P : ℤ → Prop} {a : Action} (h : FeeStep s s' a) (hfees : FeesAll P s) (hzero : P 0)
    (haccrue : ∀ fee amount, P fee → P (accruedWith fee amount)) : FeesAll P s' := by
  cases h with
  | same h _ => exact h.feesAll hzero hfees
  | exchange h => exact h.feesAll hfees haccrue
  | swap h _ _ => exact h.feesAll hfees haccrue
  | reset _ h hreset =>
      refine hfees.of_put h ?_
      intro first
      rw [hreset]
      exact hzero

theorem feeUnrefunded_of_not_isExchange [Doubles]
    (h : ¬ e.action.IsExchange) : FeeUnrefunded (u, e) := by
  obtain ⟨ctx, a, sent⟩ := e
  cases a <;> first | trivial | exact absurd trivial h

/-- Apart from the rewards, a step keeps the accrued fees iff it takes none back. -/
theorem step_feesKept_iff [Doubles]
    (inv : LpLedger u.state) (hstored : FeesStored u.state) (hnonneg : FeesNonneg u.state)
    (hstep : Step env u e v) (hreset : ¬ e.action.ResetsFees) :
    FeesKept u.state v.state ↔ FeeUnrefunded (u, e) := by
  have hmove := feeStep_of_step inv hstep
  obtain ⟨ctx, a, sent⟩ := e
  cases hmove with
  | same h ha => exact iff_of_true h.feesKept (feeUnrefunded_of_not_isExchange ha)
  | exchange h => exact h.feesKept_iff inv hstored hnonneg
  | swap h hinput ha =>
      refine iff_of_true ?_ (feeUnrefunded_of_not_isExchange ha)
      exact (h.feesKept_iff inv hstored hnonneg).mpr (unrefunded_of_nonneg hinput)
  | reset ha _ _ => exact absurd ha hreset

theorem FeesNonneg.step [Doubles]
    (hnonneg : FeesNonneg u.state) (inv : LpLedger u.state) (hstored : FeesStored u.state)
    (hstep : Step env u e v) (hunrefunded : FeeUnrefunded (u, e)) : FeesNonneg v.state := by
  by_cases hreset : e.action.ResetsFees
  · have hmove := feeStep_of_step inv hstep
    obtain ⟨ctx, a, sent⟩ := e
    cases hmove with
    | same h _ => exact h.feesAll (le_refl 0) hnonneg
    | exchange _ => exact hreset.elim
    | swap h hinput _ =>
        exact hnonneg.of_kept ((h.feesKept_iff inv hstored hnonneg).mpr
          (unrefunded_of_nonneg hinput))
    | reset _ h hfees => exact hnonneg.of_put h fun first => (hfees first).ge
  · exact hnonneg.of_kept ((step_feesKept_iff inv hstored hnonneg hstep hreset).mpr hunrefunded)

/-- A fee is rounded before it is stored. -/
theorem FeesStored.step [Doubles]
    (hstored : FeesStored u.state) (inv : LpLedger u.state) (hstep : Step env u e v) :
    FeesStored v.state := by
  refine (feeStep_of_step inv hstep).feesAll hstored ?_ ?_
  · exact_mod_cast Doubles.rnd_zero
  · intro fee amount _
    exact Doubles.rnd_trunc _

end Steps

section Runs

variable {env : Env} {w w' : World} {h : History} {u v : World} {e : Event}

theorem feesStored_of_run [Doubles]
    (hw : w.Genesis) (run : Run (Step env) w h w') : FeesStored w'.state := by
  have hboth : LpLedger w'.state ∧ FeesStored w'.state := by
    refine run.invariant (fun w => LpLedger w.state ∧ FeesStored w.state) ?_ ?_
    · rintro u e v ⟨inv, hstored⟩ hstep
      exact ⟨inv.exec hstep.2.1, hstored.step inv hstep⟩
    · rw [hw]
      exact ⟨LpLedger.empty, FeesAll.empty⟩
  exact hboth.2

theorem feesNonneg_of_run [Doubles]
    (hw : w.Genesis) (run : Run (Step env) w h w') (hunrefunded : ∀ p ∈ h, FeeUnrefunded p) :
    FeesNonneg w'.state := by
  have hall : LpLedger w'.state ∧ FeesStored w'.state ∧ FeesNonneg w'.state := by
    refine run.invariant_of_forall FeeUnrefunded
      (fun w => LpLedger w.state ∧ FeesStored w.state ∧ FeesNonneg w.state) ?_ hunrefunded ?_
    · rintro u e v hC ⟨inv, hstored, hnonneg⟩ hstep
      exact ⟨inv.exec hstep.2.1, hstored.step inv hstep, hnonneg.step inv hstored hstep hC⟩
    · rw [hw]
      exact ⟨LpLedger.empty, FeesAll.empty, FeesAll.empty⟩
  exact hall.2.2

/-- In a run, accrued fees stay nonnegative and only rewards lower them iff no exchange
takes a fee back. -/
theorem fees_accrue_iff_unrefunded [Doubles]
    (hw : w.Genesis) (run : Run (Step env) w h w') :
    (FeesNonneg w'.state ∧ ∀ p ∈ h, FeesNonneg p.1.state ∧
      (¬ p.2.action.ResetsFees → ∀ v, Step env p.1 p.2 v → FeesKept p.1.state v.state)) ↔
    ∀ p ∈ h, FeeUnrefunded p := by
  constructor
  · rintro ⟨-, hall⟩ ⟨u, e⟩ hp
    obtain ⟨pre, _, v, -, hpre, hstep, -⟩ := run.exists_of_mem hp
    have inv : LpLedger u.state := lpLedger_of_reaches ⟨w, pre, hw, hpre⟩
    have hstored := feesStored_of_run hw hpre
    by_cases hreset : e.action.ResetsFees
    · obtain ⟨ctx, a, sent⟩ := e
      cases a with
      | clmpoolreward => trivial
      | _ => exact hreset.elim
    · exact (step_feesKept_iff inv hstored (hall _ hp).1 hstep hreset).mp
        ((hall _ hp).2 hreset v hstep)
  · intro hunrefunded
    refine ⟨feesNonneg_of_run hw run hunrefunded, ?_⟩
    rintro ⟨u, e⟩ hp
    obtain ⟨pre, post, _, hsplit, hpre, -, -⟩ := run.exists_of_mem hp
    have inv : LpLedger u.state := lpLedger_of_reaches ⟨w, pre, hw, hpre⟩
    have hnonneg : FeesNonneg u.state := by
      refine feesNonneg_of_run hw hpre ?_
      intro q hq
      refine hunrefunded q ?_
      rw [hsplit]
      exact List.mem_append_left _ hq
    refine ⟨hnonneg, ?_⟩
    intro hreset v hstep
    exact (step_feesKept_iff inv (feesStored_of_run hw hpre) hnonneg hstep hreset).mpr
      (hunrefunded _ hp)

open Binary64

/-- A sale of 10000 units and a purchase of 600 units of the other token. -/
theorem fees_accrue_iff_unrefunded_sample :
    ∃ h w, Run (Step sampleEnv) sampleWorld h w ∧
      (accrued w.state (sampleSymbol "AB").code true = 15 ∧
        accrued w.state (sampleSymbol "AB").code false = 0) ∧ FeesNonneg w.state := by
  let inputs : List (Ctx × Action) := samplePool ++
    [(sampleCtx 2000 "alice", .exchange (nameLiteral "alice") (sampleSymbol "AB").code
      (sampleA 10000) (sampleB 1).quantity),
     (sampleCtx 2000 "alice", .exchange (nameLiteral "alice") (sampleSymbol "AB").code
      (sampleB (-600)) (sampleA (-1000)).quantity)]
  obtain ⟨h, w, hplay, hobs⟩ := exists_of_play
    (show (play (stepWith sampleEnv) sampleWorld inputs).map (fun r =>
        ((accrued r.2.state (sampleSymbol "AB").code true,
          accrued r.2.state (sampleSymbol "AB").code false),
          r.1.all fun p =>
            (p.1.state.stats.find? (sampleSymbol "AB").code).all fun token =>
              decide (token.fee2.quantity.amount ≤ 0 ∧
                token.pool1.extendedSymbol = (sampleA 0).extendedSymbol))) =
      some ((15, 0), true) by decide +kernel)
  obtain ⟨haccrued, hfees⟩ := Prod.mk.inj hobs
  have hrun := run_of_play (step_of_stepWith sampleEnv) _ hplay
  refine ⟨h, w, hrun, Prod.mk.inj haccrued, ?_⟩
  refine ((fees_accrue_iff_unrefunded sampleWorld_genesis hrun).mpr ?_).1
  rintro ⟨u, ctx, a, sent⟩ hp
  have hmem := input_mem_of_play hplay hp
  simp only [inputs, samplePool, samplePayment, List.cons_append, List.nil_append,
    List.mem_cons, Prod.mk.injEq, List.not_mem_nil, or_false] at hmem
  rcases hmem with ⟨-, rfl⟩ | ⟨-, rfl⟩ | ⟨-, rfl⟩ | ⟨-, rfl⟩ | ⟨-, rfl⟩ | ⟨-, rfl⟩
  · trivial
  · trivial
  · trivial
  · trivial
  · intro _ _ _ _ hneg
    exact absurd hneg (by decide)
  · intro token first htoken hsym _
    have hall := List.all_eq_true.mp hfees _ hp
    rw [htoken] at hall
    obtain ⟨hfee, hpool⟩ := of_decide_eq_true hall
    refine Or.inl ⟨by decide, ?_⟩
    cases first with
    | true => exact absurd (hpool.symm.trans hsym) (by decide)
    | false => exact hfee

/-- A purchase of 10000 units takes 15 units out of a pool that has accrued none. -/
theorem fees_lowered_by_negative_input :
    ¬ ∀ (env : Env) (w w' : World) (h : History), w.Genesis → Run (Step env) w h w' →
      env.isDexOpen = true → (∀ p ∈ h, ¬ p.2.action.ResetsFees) → FeesNonneg w'.state := by
  intro hall
  let inputs : List (Ctx × Action) := samplePool ++
    [(sampleCtx 2000 "alice", .exchange (nameLiteral "alice") (sampleSymbol "AB").code
      (sampleA (-10000)) (sampleB (-20000)).quantity)]
  obtain ⟨h, w, hplay, hobs⟩ := exists_of_play
    (show (play (stepWith sampleEnv) sampleWorld inputs).map (fun r =>
        accrued r.2.state (sampleSymbol "AB").code true) = some (-15) by decide +kernel)
  have hrun := run_of_play (step_of_stepWith sampleEnv) _ hplay
  have hactions : ∀ p ∈ h, ¬ p.2.action.ResetsFees := by
    rintro ⟨u, ctx, a, sent⟩ hp
    have hmem := input_mem_of_play hplay hp
    simp only [inputs, samplePool, samplePayment, List.cons_append, List.nil_append,
      List.mem_cons, Prod.mk.injEq, List.not_mem_nil, or_false] at hmem
    rcases hmem with ⟨-, rfl⟩ | ⟨-, rfl⟩ | ⟨-, rfl⟩ | ⟨-, rfl⟩ | ⟨-, rfl⟩
    · exact id
    · exact id
    · exact id
    · exact id
    · exact id
  have haccrued : accrued w.state (sampleSymbol "AB").code true = -15 := hobs
  have hnonneg := FeesAll.accrued (hall sampleEnv sampleWorld w h sampleWorld_genesis hrun rfl
    hactions) (le_refl 0) (sampleSymbol "AB").code true
  omega

end Runs

end Lemonade
