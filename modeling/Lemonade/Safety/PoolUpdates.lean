import Lemonade.Kernel.ConstantProduct
import Lemonade.Safety.Deposits
import Mathlib.Tactic

/-!
# Updates of a pool

A pool in order has a positive supply and positive reserves of two different tokens.
`LiquidityUpdate` and `SwapUpdate` say, over the integers, what the two ways of
trading with a pool do to it; both keep it in order.
-/

namespace Lemonade

open Kernel

section Pools

/-- The first or the second reserve of a pool. -/
def CurrencyStats.reserve (token : CurrencyStats) (first : Bool) : ExtendedAsset :=
  if first then token.pool1 else token.pool2

/-- The fee accrued next to a reserve. -/
def CurrencyStats.fee (token : CurrencyStats) (first : Bool) : ExtendedAsset :=
  if first then token.fee1 else token.fee2

/-- A pool in order. -/
structure PoolOk (token : CurrencyStats) : Prop where
  supply_pos : 0 < token.supply.amount.toInt
  supply_inRange : AmountInRange token.supply.amount
  reserve_pos : ∀ first, 0 < (token.reserve first).quantity.amount.toInt
  reserve_inRange : ∀ first, AmountInRange (token.reserve first).quantity.amount
  codes_ne : token.pool1.quantity.symbol.code ≠ token.pool2.quantity.symbol.code
  feeSymbol : ∀ first, (token.fee first).extendedSymbol = (token.reserve first).extendedSymbol

/-- A pool in order, as a pool of the abstract theory. -/
def PoolOk.pool {token : CurrencyStats} (ok : PoolOk token) : Pool ℤ where
  supply := token.supply.amount.toInt
  left := token.pool1.quantity.amount.toInt
  right := token.pool2.quantity.amount.toInt
  supply_pos := ok.supply_pos
  left_pos := ok.reserve_pos true
  right_pos := ok.reserve_pos false

theorem PoolOk.extendedSymbol_ne
    {token : CurrencyStats} (ok : PoolOk token) :
    token.pool1.extendedSymbol ≠ token.pool2.extendedSymbol := by
  intro h
  exact ok.codes_ne (congrArg (fun x => x.sym.code) h)

theorem PoolOk.side_unique
    {token : CurrencyStats} (ok : PoolOk token) {first first' : Bool}
    (h : (token.reserve first).extendedSymbol = (token.reserve first').extendedSymbol) :
    first = first' := by
  have hne := ok.extendedSymbol_ne
  cases first with
  | true =>
      cases first' with
      | true => rfl
      | false => exact absurd h hne
  | false =>
      cases first' with
      | true => exact absurd h.symm hne
      | false => rfl

/-- What is asked of the side that takes a token is asked of one side of one pool. -/
theorem PoolOk.forall_side_iff
    {s : State} {pairToken : SymbolCode} {token : CurrencyStats} {first : Bool}
    {sym : ExtendedSymbol} (ok : PoolOk token) (htoken : s.stats.find? pairToken = some token)
    (hsym : sym = (token.reserve first).extendedSymbol) (P : CurrencyStats → Bool → Prop) :
    (∀ token' first', s.stats.find? pairToken = some token' →
      (token'.reserve first').extendedSymbol = sym → P token' first') ↔ P token first := by
  constructor
  · intro h
    exact h token first htoken hsym.symm
  · intro h token' first' htoken' hsym'
    obtain rfl := Option.some.inj (htoken.symm.trans htoken')
    rw [ok.side_unique (hsym'.trans hsym)]
    exact h

theorem PoolOk.new
    {user : Name} {newSymbol : Symbol} {supply : Asset} {pool1 pool2 : ExtendedAsset}
    (hsupply : 1 ≤ supply.amount.toInt) (hrange : AmountInRange supply.amount)
    (hpos1 : 0 < pool1.quantity.amount) (hpos2 : 0 < pool2.quantity.amount)
    (hmax1 : pool1.quantity.amount < initMax) (hmax2 : pool2.quantity.amount < initMax)
    (hcodes : pool1.quantity.symbol.code ≠ pool2.quantity.symbol.code) :
    PoolOk (newPool user newSymbol supply pool1 pool2) := by
  have hmax : initMax.toInt = 1000000000000000 := by decide
  have hrange' : ∀ a : Int64, 0 < a → a < initMax → 0 < a.toInt ∧ AmountInRange a := by
    intro a hpos hlt
    have hpos' : 0 < a.toInt := Int64.lt_iff_toInt_lt.mp hpos
    rw [Int64.lt_iff_toInt_lt, hmax] at hlt
    unfold AmountInRange maxAmount
    omega
  refine ⟨by simp only [newPool]; omega, hrange, ?_, ?_, hcodes, ?_⟩
  · intro first
    cases first with
    | true => exact (hrange' _ hpos1 hmax1).1
    | false => exact (hrange' _ hpos2 hmax2).1
  · intro first
    cases first with
    | true => exact (hrange' _ hpos1 hmax1).2
    | false => exact (hrange' _ hpos2 hmax2).2
  · intro first
    cases first with
    | true => rfl
    | false => rfl

/-- Changing the accrued fees keeps a pool in order. -/
theorem PoolOk.of_fees
    {token : CurrencyStats} {fee1 fee2 : ExtendedAsset} (ok : PoolOk token)
    (h1 : fee1.extendedSymbol = token.pool1.extendedSymbol)
    (h2 : fee2.extendedSymbol = token.pool2.extendedSymbol) :
    PoolOk { token with fee1 := fee1, fee2 := fee2 } where
  supply_pos := ok.supply_pos
  supply_inRange := ok.supply_inRange
  reserve_pos := ok.reserve_pos
  reserve_inRange := ok.reserve_inRange
  codes_ne := ok.codes_ne
  feeSymbol := by
    intro first
    cases first with
    | true => exact h1
    | false => exact h2

/-- Changing the reserves and the fees but not their tokens keeps a pool in order. -/
theorem PoolOk.of_reserves
    {token token' : CurrencyStats} (ok : PoolOk token)
    (hsupply : 0 < token'.supply.amount.toInt) (hrange : AmountInRange token'.supply.amount)
    (hpos : ∀ first, 0 < (token'.reserve first).quantity.amount.toInt)
    (hinRange : ∀ first, AmountInRange (token'.reserve first).quantity.amount)
    (hsymbol : ∀ first,
      (token'.reserve first).extendedSymbol = (token.reserve first).extendedSymbol)
    (hfee : ∀ first, (token'.fee first).extendedSymbol = (token.fee first).extendedSymbol) :
    PoolOk token' where
  supply_pos := hsupply
  supply_inRange := hrange
  reserve_pos := hpos
  reserve_inRange := hinRange
  codes_ne := by
    have h1 : token'.pool1.quantity.symbol = token.pool1.quantity.symbol :=
      congrArg ExtendedSymbol.sym (hsymbol true)
    have h2 : token'.pool2.quantity.symbol = token.pool2.quantity.symbol :=
      congrArg ExtendedSymbol.sym (hsymbol false)
    rw [h1, h2]
    exact ok.codes_ne
  feeSymbol := by
    intro first
    rw [hfee, hsymbol]
    exact ok.feeSymbol first

end Pools

section Liquidity

/-- `n` shares are bought, or sold if `n` is negative, for `pay` of each reserve. -/
structure LiquidityUpdate (token token' : CurrencyStats) (n : ℤ) (pay : Bool → ExtendedAsset) :
    Prop where
  ok : PoolOk token'
  supply : token'.supply.amount.toInt = token.supply.amount.toInt + n
  symbol : ∀ first, (pay first).extendedSymbol = (token.reserve first).extendedSymbol
  reserve : ∀ first, (token'.reserve first).quantity.amount.toInt =
    (token.reserve first).quantity.amount.toInt + (pay first).quantity.amount.toInt
  reserveSymbol : ∀ first,
    (token'.reserve first).extendedSymbol = (token.reserve first).extendedSymbol
  fees : ∀ first, token'.fee first = token.fee first
  share : ∀ first, n * (token.reserve first).quantity.amount.toInt ≤
    (pay first).quantity.amount.toInt * token.supply.amount.toInt

theorem reserve_of_toPay
    {toAdd supply : Int64} {pool paying pool' : ExtendedAsset}
    (hpos : 0 < pool.quantity.amount.toInt) (hrange : AmountInRange pool.quantity.amount)
    (hsell : 0 < supply.toInt + toAdd.toInt)
    (hpay : toPay toAdd supply pool = .ok paying) (hadd : pool.add paying = .ok pool') :
    paying.extendedSymbol = pool.extendedSymbol ∧
      pool'.extendedSymbol = pool.extendedSymbol ∧
      pool'.quantity.amount.toInt =
        pool.quantity.amount.toInt + paying.quantity.amount.toInt ∧
      AmountInRange pool'.quantity.amount ∧ 0 < pool'.quantity.amount.toInt ∧
      toAdd.toInt * pool.quantity.amount.toInt ≤
        paying.quantity.amount.toInt * supply.toInt := by
  obtain ⟨hcompute, hsym⟩ := toPay_eq_ok hpay
  obtain ⟨-, -, hz, -, hceil⟩ := compute_eq_ok hcompute
  obtain ⟨-, hrange', rfl⟩ := ExtendedAsset.add_eq_ok_iff.mp hadd
  have hsum := toInt_add_of_inRange hrange hrange'
  have hz' : 0 < supply.toInt := Int64.lt_iff_toInt_lt.mp hz
  have hlow : -pool.quantity.amount.toInt < paying.quantity.amount.toInt := by
    refine hceil.lt_of_mul_lt hz' ?_
    have hmul := mul_pos hsell hpos
    rw [add_mul] at hmul
    rw [neg_mul, mul_comm pool.quantity.amount.toInt]
    omega
  refine ⟨hsym, rfl, hsum, hrange', ?_, hceil.1⟩
  simp only [hsum]
  omega

theorem PoolOk.liquidity
    {token : CurrencyStats} {toAdd supply : Asset} {toPay1 toPay2 pool1 pool2 : ExtendedAsset}
    (ok : PoolOk token)
    (hpay1 : toPay toAdd.amount token.supply.amount token.pool1 = .ok toPay1)
    (hpay2 : toPay toAdd.amount token.supply.amount token.pool2 = .ok toPay2)
    (hsupply : token.supply.add toAdd = .ok supply)
    (hpool1 : token.pool1.add toPay1 = .ok pool1)
    (hpool2 : token.pool2.add toPay2 = .ok pool2)
    (hne : supply.amount ≠ 0) (hnonneg : 0 ≤ token.supply.amount.toInt + toAdd.amount.toInt) :
    LiquidityUpdate token { token with supply := supply, pool1 := pool1, pool2 := pool2 }
      toAdd.amount.toInt fun first => if first then toPay1 else toPay2 := by
  obtain ⟨-, hrange, rfl⟩ := Asset.add_eq_ok_iff.mp hsupply
  have hsum := toInt_add_of_inRange ok.supply_inRange hrange
  have hpos : 0 < token.supply.amount.toInt + toAdd.amount.toInt := by
    rcases hnonneg.lt_or_eq with hlt | heq
    · exact hlt
    · refine absurd ?_ hne
      rw [← Int64.toInt_inj, hsum, ← heq, Int64.toInt_zero]
  obtain ⟨hs1, hp1, hr1, hin1, hpos1, hshare1⟩ :=
    reserve_of_toPay (ok.reserve_pos true) (ok.reserve_inRange true) hpos hpay1 hpool1
  obtain ⟨hs2, hp2, hr2, hin2, hpos2, hshare2⟩ :=
    reserve_of_toPay (ok.reserve_pos false) (ok.reserve_inRange false) hpos hpay2 hpool2
  refine ⟨ok.of_reserves ?_ hrange ?_ ?_ ?_ fun _ => rfl, hsum, ?_, ?_, ?_, fun _ => rfl, ?_⟩
  · simp only [hsum]
    exact hpos
  · rintro (_ | _)
    · exact hpos2
    · exact hpos1
  · rintro (_ | _)
    · exact hin2
    · exact hin1
  · rintro (_ | _)
    · exact hp2
    · exact hp1
  · rintro (_ | _)
    · exact hs2
    · exact hs1
  · rintro (_ | _)
    · exact hr2
    · exact hr1
  · rintro (_ | _)
    · exact hp2
    · exact hp1
  · rintro (_ | _)
    · exact hshare2
    · exact hshare1

end Liquidity

section Swaps

/-- What is left of an input after the fee. -/
def netOf [Doubles] (amount : ℤ) : ℤ := trunc (rnd (rnd amount - feeOf amount))

/-- An accrued fee after half of the fee on an input. -/
def accruedWith [Doubles] (accrued amount : ℤ) : ℤ :=
  trunc (rnd (rnd accrued + rnd (feeOf amount / 2)))

section Fees

variable [Doubles] {amount : ℤ}

theorem feeOf_neg (amount : ℤ) : feeOf (-amount) = -feeOf amount := by
  simp only [feeOf, Int.cast_neg, Doubles.rnd_neg, neg_mul]

theorem netOf_neg (amount : ℤ) : netOf (-amount) = -netOf amount := by
  rw [netOf, feeOf_neg, Int.cast_neg, Doubles.rnd_neg, neg_sub_neg, ← neg_sub, Doubles.rnd_neg,
    trunc_neg, netOf]

/-- The rate of the fee, as a double. -/
theorem rnd_swapFee_mem : 1 / 512 ≤ rnd swapFee ∧ rnd swapFee ≤ 1 / 256 := by
  have hlow : IsDouble (1 / 512) := ⟨1, -9, by norm_num, by norm_num⟩
  have hhigh : IsDouble (1 / 256) := ⟨1, -8, by norm_num, by norm_num⟩
  unfold swapFee
  exact ⟨Doubles.le_rnd hlow (by norm_num), Doubles.rnd_le hhigh (by norm_num)⟩

theorem feeOf_nonneg (h : 0 ≤ amount) : 0 ≤ feeOf amount :=
  Doubles.rnd_nonneg (mul_nonneg (Doubles.rnd_nonneg (by exact_mod_cast h))
    (by linarith [rnd_swapFee_mem.1]))

theorem feeOf_nonpos (h : amount ≤ 0) : feeOf amount ≤ 0 := by
  have hneg := feeOf_nonneg (neg_nonneg.mpr h)
  rwa [feeOf_neg, neg_nonneg] at hneg

/-- The fee is less than the input. -/
theorem feeOf_le_rnd (h : 0 ≤ amount) : feeOf amount ≤ rnd amount := by
  have hnonneg : 0 ≤ rnd (amount : ℚ) := Doubles.rnd_nonneg (by exact_mod_cast h)
  have hle : rnd (amount : ℚ) * rnd swapFee ≤ rnd amount :=
    mul_le_of_le_one_right hnonneg (by linarith [rnd_swapFee_mem.2])
  exact (Doubles.rnd_mono hle).trans_eq (Doubles.rnd_rnd _)

theorem netOf_nonneg (h : 0 ≤ amount) : 0 ≤ netOf amount :=
  trunc_nonneg (Doubles.rnd_nonneg (sub_nonneg.mpr (feeOf_le_rnd h)))

theorem netOf_nonpos (h : amount ≤ 0) : netOf amount ≤ 0 := by
  have hneg := netOf_nonneg (neg_nonneg.mpr h)
  rwa [netOf_neg, neg_nonneg] at hneg

/-- The fee is far above the errors of the doubles. -/
theorem netOf_lt (h : 0 < amount) : netOf amount < amount := by
  have hq : (0 : ℚ) < amount := by exact_mod_cast h
  have hnonneg : 0 ≤ rnd (amount : ℚ) := Doubles.rnd_nonneg hq.le
  have hinput := Doubles.rnd_le_mul hq.le
  have hrate : rnd (amount : ℚ) * (1 / 512) ≤ rnd amount * rnd swapFee :=
    mul_le_mul_of_nonneg_left rnd_swapFee_mem.1 hnonneg
  have hfee : rnd (amount : ℚ) * rnd swapFee * (1 - 1 / 2 ^ 53) ≤ feeOf amount :=
    Doubles.mul_le_rnd (mul_nonneg hnonneg (by linarith [rnd_swapFee_mem.1]))
  have hsub := sub_nonneg.mpr (feeOf_le_rnd h.le)
  have hnet : (netOf amount : ℚ) < amount := by
    calc (netOf amount : ℚ) ≤ rnd (rnd amount - feeOf amount) :=
          trunc_le (Doubles.rnd_nonneg hsub)
      _ ≤ (rnd amount - feeOf amount) * (1 + 1 / 2 ^ 53) := Doubles.rnd_le_mul hsub
      _ < amount := by linarith
  exact_mod_cast hnet

end Fees

section ExactFees

open Idealised

theorem netOf_exact (amount : ℤ) : netOf amount = trunc ((amount : ℚ) - amount * swapFee) := rfl

theorem accruedWith_exact (accrued amount : ℤ) :
    accruedWith accrued amount = trunc ((accrued : ℚ) + amount * swapFee / 2) := rfl

end ExactFees

/-- `input` goes into one reserve, less the fee, and `out` is taken from the other;
negative amounts go the other way. -/
structure SwapUpdate [Doubles] (token token' : CurrencyStats) (first : Bool)
    (input net out : ExtendedAsset) : Prop where
  ok : PoolOk token'
  supply : token'.supply = token.supply
  inputSymbol : input.extendedSymbol = (token.reserve first).extendedSymbol
  netSymbol : net.extendedSymbol = (token.reserve first).extendedSymbol
  outSymbol : out.extendedSymbol = (token.reserve !first).extendedSymbol
  reserveSymbol : ∀ first,
    (token'.reserve first).extendedSymbol = (token.reserve first).extendedSymbol
  net_eq : net.quantity.amount.toInt = netOf input.quantity.amount.toInt
  net_ne : net.quantity.amount.toInt ≠ 0
  inReserve : (token'.reserve first).quantity.amount.toInt =
    (token.reserve first).quantity.amount.toInt + net.quantity.amount.toInt
  outReserve : (token'.reserve !first).quantity.amount.toInt =
    (token.reserve !first).quantity.amount.toInt - out.quantity.amount.toInt
  product : -net.quantity.amount.toInt * (token.reserve !first).quantity.amount.toInt ≤
    -out.quantity.amount.toInt * (token'.reserve first).quantity.amount.toInt
  fee : (token'.fee first).quantity.amount.toInt =
    accruedWith (token.fee first).quantity.amount.toInt input.quantity.amount.toInt
  otherFee : token'.fee (!first) = token.fee !first

theorem inFirst_eq_some
    {token : CurrencyStats} {sym : ExtendedSymbol} {expected : Symbol} {first : Bool}
    (h : inFirst token sym expected = some first) : (token.reserve first).extendedSymbol = sym := by
  unfold inFirst at h
  split_ifs at h with h1 h2
  · obtain rfl := Option.some.inj h
    exact h1.1
  · obtain rfl := Option.some.inj h
    exact h2.2

/-- The accrued fee that a swap changes is the one next to its input. -/
theorem takeFee_first [Doubles]
    {token token' : CurrencyStats} {input : ExtendedAsset} {first : Bool} (ok : PoolOk token)
    (hsym : input.extendedSymbol = (token.reserve first).extendedSymbol)
    (h : takeFee token input.quantity = .ok token') :
    ∃ fee1 fee2, token' = { token with fee1 := fee1, fee2 := fee2 } ∧
      accrue (token.fee first) input.quantity.amount = .ok (token'.fee first) ∧
      token'.fee (!first) = token.fee (!first) := by
  obtain ⟨fee1, fee2, rfl, hcase⟩ := takeFee_eq_ok h
  refine ⟨fee1, fee2, rfl, ?_⟩
  have hinput : input.quantity.symbol = (token.reserve first).quantity.symbol :=
    congrArg ExtendedSymbol.sym hsym
  have hfee : ∀ b, (token.fee b).quantity.symbol = (token.reserve b).quantity.symbol :=
    fun b => congrArg ExtendedSymbol.sym (ok.feeSymbol b)
  cases first with
  | true =>
      have h1 : input.quantity.symbol = token.fee1.quantity.symbol :=
        hinput.trans (hfee true).symm
      rw [if_pos h1] at hcase
      exact hcase
  | false =>
      have h1 : input.quantity.symbol ≠ token.fee1.quantity.symbol := by
        intro h1
        refine ok.codes_ne (congrArg Symbol.code ?_)
        exact (hfee true).symm.trans (h1.symm.trans hinput)
      have h2 : input.quantity.symbol = token.fee2.quantity.symbol :=
        hinput.trans (hfee false).symm
      rw [if_neg h1, if_pos h2] at hcase
      exact hcase

/-- One reserve after a swap. -/
structure ReserveUpdate (pool pool' : ExtendedAsset) (n : ℤ) : Prop where
  symbol : pool'.extendedSymbol = pool.extendedSymbol
  amount : pool'.quantity.amount.toInt = pool.quantity.amount.toInt + n
  pos : 0 < pool'.quantity.amount.toInt
  inRange : AmountInRange pool'.quantity.amount

/-- The input of a swap that `compute` accepts, and the exact change of the other reserve. -/
theorem input_of_compute
    {poolIn poolIn' net : ExtendedAsset} {poolOut amountOut : Int64}
    (hinRange : AmountInRange poolIn.quantity.amount)
    (hcompute : compute (-net.quantity.amount) poolOut
      (poolIn.quantity.amount + net.quantity.amount) = .ok amountOut)
    (haddIn : poolIn.add net = .ok poolIn') :
    ReserveUpdate poolIn poolIn' net.quantity.amount.toInt ∧
      net.quantity.amount.toInt ≠ 0 ∧
      AmountInRange amountOut ∧
      IsCeilDiv amountOut.toInt (-net.quantity.amount.toInt * poolOut.toInt)
        poolIn'.quantity.amount.toInt := by
  obtain ⟨hx, -, hz, hrange, hceil⟩ := compute_eq_ok hcompute
  obtain ⟨-, hinRange', rfl⟩ := ExtendedAsset.add_eq_ok_iff.mp haddIn
  have hinSum := toInt_add_of_inRange hinRange hinRange'
  have hz' : 0 < (poolIn.quantity.amount + net.quantity.amount).toInt :=
    Int64.lt_iff_toInt_lt.mp hz
  have hnet : -2 * maxAmount ≤ net.quantity.amount.toInt := by
    unfold AmountInRange at hinRange hinRange'
    rw [hinSum] at hinRange'
    omega
  have hneg : (-net.quantity.amount).toInt = -net.quantity.amount.toInt := by
    have hlt := net.quantity.amount.toInt_lt
    unfold maxAmount at hnet
    rw [Int64.toInt_neg, Int.bmod_def]
    split_ifs <;> omega
  rw [hneg] at hceil
  have hne : net.quantity.amount.toInt ≠ 0 := by
    intro hzero
    refine hx ?_
    rw [← Int64.toInt_inj, hneg, hzero]
    rfl
  exact ⟨⟨rfl, hinSum, hz', hinRange'⟩, hne, hrange, hceil⟩

theorem reserves_of_compute
    {poolIn poolOut poolIn' poolOut' net extAsset : ExtendedAsset}
    (hin : 0 < poolIn.quantity.amount.toInt) (hinRange : AmountInRange poolIn.quantity.amount)
    (hout : 0 < poolOut.quantity.amount.toInt) (houtRange : AmountInRange poolOut.quantity.amount)
    (hcompute : compute (-net.quantity.amount) poolOut.quantity.amount
      (poolIn.quantity.amount + net.quantity.amount) = .ok extAsset.quantity.amount)
    (haddIn : poolIn.add net = .ok poolIn') (haddOut : poolOut.add extAsset = .ok poolOut') :
    ReserveUpdate poolIn poolIn' net.quantity.amount.toInt ∧
      ReserveUpdate poolOut poolOut' extAsset.quantity.amount.toInt ∧
      net.quantity.amount.toInt ≠ 0 ∧
      AmountInRange extAsset.quantity.amount ∧
      -net.quantity.amount.toInt * poolOut.quantity.amount.toInt ≤
        extAsset.quantity.amount.toInt * poolIn'.quantity.amount.toInt := by
  obtain ⟨hinUpdate, hne, hext, hceil⟩ := input_of_compute hinRange hcompute haddIn
  obtain ⟨-, houtRange', rfl⟩ := ExtendedAsset.add_eq_ok_iff.mp haddOut
  have houtSum := toInt_add_of_inRange houtRange houtRange'
  have hpos : 0 < (poolOut.quantity.amount + extAsset.quantity.amount).toInt := by
    rw [houtSum]
    have hlt : -poolOut.quantity.amount.toInt < extAsset.quantity.amount.toInt := by
      refine hceil.lt_of_mul_lt hinUpdate.pos ?_
      have hmul := mul_pos hin hout
      rw [hinUpdate.amount]
      nlinarith
    omega
  exact ⟨hinUpdate, ⟨rfl, houtSum, hpos, houtRange'⟩, hne, hext, hceil.1⟩

theorem Swapped.update [Doubles]
    {s s' : State} {pairToken : SymbolCode} {input net out : ExtendedAsset} {minExpected : Asset}
    (ok : ∀ code token, s.stats.find? code = some token → PoolOk token)
    (h : Swapped s pairToken input minExpected net out s') :
    ∃ token token' first,
      s.stats.find? pairToken = some token ∧
      SwapUpdate token token' first input net out ∧
      minExpected.amount ≤ out.quantity.amount ∧
      s' = { s with stats := s.stats.put pairToken token' } := by
  obtain ⟨token, tokenFee, htoken, hfee, hnet, hswap⟩ := h
  obtain ⟨hnetAmount, hnetSymbol⟩ := netInput_eq_ok hnet
  obtain ⟨token₁, first, extAsset, pool1, pool2, htoken₁, hfirst, hcompute, hextSymbol, hmin,
    hadd1, hadd2, rfl, rfl⟩ := processExch_eq_ok hswap
  simp only [Table.find?_put_self, Option.some.injEq] at htoken₁
  subst htoken₁
  have hok := ok _ token htoken
  have hsame : ∀ b, tokenFee.reserve b = token.reserve b := by
    obtain ⟨_, _, rfl, -⟩ := takeFee_eq_ok hfee
    exact fun b => rfl
  have hinput : input.extendedSymbol = (token.reserve first).extendedSymbol := by
    rw [← hnetSymbol, ← hsame, inFirst_eq_some hfirst]
  obtain ⟨fee1, fee2, rfl, haccrue, hother⟩ := takeFee_first hok hinput hfee
  obtain ⟨hfeeAmount, hfeeSymbol⟩ := accrue_eq_ok haccrue
  let token' : CurrencyStats :=
    { token with fee1 := fee1, fee2 := fee2, pool1 := pool1, pool2 := pool2 }
  have hreserves :
      ReserveUpdate (token.reserve first) (token'.reserve first) net.quantity.amount.toInt ∧
        ReserveUpdate (token.reserve !first) (token'.reserve !first)
          extAsset.quantity.amount.toInt ∧
        net.quantity.amount.toInt ≠ 0 ∧
        AmountInRange extAsset.quantity.amount ∧
        -net.quantity.amount.toInt * (token.reserve !first).quantity.amount.toInt ≤
          extAsset.quantity.amount.toInt * (token'.reserve first).quantity.amount.toInt := by
    cases first with
    | true =>
        exact reserves_of_compute (hok.reserve_pos true) (hok.reserve_inRange true)
          (hok.reserve_pos false) (hok.reserve_inRange false) hcompute hadd1 hadd2
    | false =>
        exact reserves_of_compute (hok.reserve_pos false) (hok.reserve_inRange false)
          (hok.reserve_pos true) (hok.reserve_inRange true) hcompute hadd2 hadd1
  obtain ⟨hin, hout, hne, hext, hproduct⟩ := hreserves
  have hcases : ∀ b, b = first ∨ b = !first := by
    intro b
    cases b <;> cases first <;> simp
  have hsymbol : ∀ b, (token'.reserve b).extendedSymbol = (token.reserve b).extendedSymbol := by
    intro b
    rcases hcases b with rfl | rfl
    · exact hin.symbol
    · exact hout.symbol
  have hok' : PoolOk token' := by
    refine hok.of_reserves hok.supply_pos hok.supply_inRange ?_ ?_ hsymbol ?_
    · intro b
      rcases hcases b with rfl | rfl
      · exact hin.pos
      · exact hout.pos
    · intro b
      rcases hcases b with rfl | rfl
      · exact hin.inRange
      · exact hout.inRange
    · intro b
      rcases hcases b with rfl | rfl
      · exact hfeeSymbol
      · exact congrArg ExtendedAsset.extendedSymbol hother
  have hneg : extAsset.neg.quantity.amount.toInt = -extAsset.quantity.amount.toInt :=
    toInt_neg_of_inRange hext
  refine ⟨token, token', first, htoken, ?_, hmin, by rw [Table.put_put]⟩
  refine ⟨hok', rfl, hinput, hnetSymbol.trans hinput, ?_, hsymbol, hnetAmount, hne,
    hin.amount, ?_, ?_, hfeeAmount, hother⟩
  · cases first with
    | true => exact hextSymbol
    | false => exact hextSymbol
  · rw [hneg, sub_neg_eq_add]
    exact hout.amount
  · rw [hneg, neg_neg]
    exact hproduct

end Swaps

end Lemonade
