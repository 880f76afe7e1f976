import Lemonade.Kernel.Checked
import Lemonade.Safety.LpLedger
import Mathlib.Tactic

/-!
# The price of a trade is an exact ceiling

`compute` rounds `x * y / z` up, by one formula for either sign.  Both are the
ceiling over the rationals, the amounts on the way fit into 128 bits, and the
call fails just when an argument is out of order or the ceiling is no amount.
A swap gives the negated ceiling of a negated product: the largest amount that
does not lower the product of the reserves.
-/

namespace Lemonade

open Kernel

section Ceiling

variable {x y z : Int64}

/-- The integers that an asset can hold. -/
def FitsAmount (n : ℤ) : Prop := -maxAmount ≤ n ∧ n ≤ maxAmount

/-- The integers of `int128_t`. -/
def FitsInt128 (n : ℤ) : Prop := -2 ^ 127 ≤ n ∧ n < 2 ^ 127

/-- The exact value of `x * y / z` rounded up. -/
def exactCeiling (x y z : Int64) : ℤ := ⌈((x.toInt * y.toInt : ℤ) : ℚ) / z.toInt⌉

/-- What `compute` evaluates in 128 bits, in the branch that evaluates it. -/
structure ComputeFits (x y z : Int64) : Prop where
  product : FitsInt128 (x.toInt * y.toInt)
  divisor : z.toInt ≠ 0
  predecessor : 0 < x → FitsInt128 (x.toInt * y.toInt - 1)
  quotient : 0 < x → FitsInt128 ((x.toInt * y.toInt - 1).tdiv z.toInt)
  successor : 0 < x → FitsInt128 (1 + (x.toInt * y.toInt - 1).tdiv z.toInt)
  truncated : ¬ 0 < x → FitsInt128 ((x.toInt * y.toInt).tdiv z.toInt)

theorem toInt_ofInt_of_fitsAmount {n : ℤ} (h : FitsAmount n) : (Int64.ofInt n).toInt = n := by
  unfold FitsAmount maxAmount at h
  exact Int64.toInt_ofInt_of_le (by omega) (by omega)

theorem exactCeiling_eq {q : ℤ} (hz : 0 < z) (h : IsCeilDiv q (x.toInt * y.toInt) z.toInt) :
    exactCeiling x y z = q :=
  h.eq_ceil (Int64.lt_iff_toInt_lt.mp hz)

theorem not_succeeds_compute (h : x = 0 ∨ y ≤ 0 ∨ z ≤ 0) : ¬ Succeeds (compute x y z) := by
  rintro ⟨r, hr⟩
  obtain ⟨hx, hy, hz, -, -⟩ := compute_eq_ok hr
  rcases h with h | h | h
  · exact hx h
  · exact Int64.not_le.mpr hy h
  · exact Int64.not_le.mpr hz h

/-- Within the parameters, `compute` returns the ceiling or fails because it is no amount. -/
theorem checked_compute
    (hx : x ≠ 0) (hy : 0 < y) (hz : 0 < z) :
    Checked Int64.toInt FitsAmount (compute x y z) (exactCeiling x y z) := by
  have hparams : check (x ≠ 0 ∧ 0 < y ∧ 0 < z) "invalid parameters" = .ok ⟨⟩ :=
    if_pos ⟨hx, hy, hz⟩
  have hy' : 0 < y.toInt := Int64.lt_iff_toInt_lt.mp hy
  have hz' : 0 < z.toInt := Int64.lt_iff_toInt_lt.mp hz
  unfold compute
  rw [hparams]
  by_cases hpos : 0 < x
  · have hprod : 0 < x.toInt * y.toInt := mul_pos (Int64.lt_iff_toInt_lt.mp hpos) hy'
    have hceil := isCeilDiv_of_pos hprod hz'
    have hq := hceil.pos hz' hprod
    rw [exactCeiling_eq hz hceil, if_pos hpos]
    refine checked_of_demand ?_ toInt_ofInt_of_fitsAmount
    unfold FitsAmount maxAmount
    omega
  · have hprod : x.toInt * y.toInt ≤ 0 :=
      mul_nonpos_of_nonpos_of_nonneg (not_lt.mp fun h => hpos (Int64.lt_iff_toInt_lt.mpr h)) hy'.le
    have hceil := isCeilDiv_of_nonpos hprod hz'
    have hq := hceil.nonpos hz' hprod
    rw [exactCeiling_eq hz hceil, if_neg hpos]
    refine checked_of_demand ?_ toInt_ofInt_of_fitsAmount
    unfold FitsAmount maxAmount
    omega

theorem natAbs_toInt_le (a : Int64) : a.toInt.natAbs ≤ 2 ^ 63 := by
  have hle := a.le_toInt
  have hlt := a.toInt_lt
  omega

theorem natAbs_mul_toInt_le (x y : Int64) : (x.toInt * y.toInt).natAbs ≤ 2 ^ 126 := by
  rw [Int.natAbs_mul]
  calc x.toInt.natAbs * y.toInt.natAbs
      ≤ 2 ^ 63 * 2 ^ 63 := Nat.mul_le_mul (natAbs_toInt_le x) (natAbs_toInt_le y)
    _ = 2 ^ 126 := by norm_num

theorem fitsInt128_of_natAbs {n : ℤ} (h : n.natAbs < 2 ^ 127) : FitsInt128 n := by
  unfold FitsInt128
  omega

/-- A product of two 64-bit numbers leaves room for the other steps. -/
theorem computeFits (hz : 0 < z) : ComputeFits x y z := by
  have hprod := natAbs_mul_toInt_le x y
  have hz' : 0 < z.toInt := Int64.lt_iff_toInt_lt.mp hz
  have hquot := Int.natAbs_tdiv_le_natAbs (x.toInt * y.toInt - 1) z.toInt
  have htrunc := Int.natAbs_tdiv_le_natAbs (x.toInt * y.toInt) z.toInt
  constructor
  · exact fitsInt128_of_natAbs (by omega)
  · exact hz'.ne'
  · exact fun _ => fitsInt128_of_natAbs (by omega)
  · exact fun _ => fitsInt128_of_natAbs (by omega)
  · exact fun _ => fitsInt128_of_natAbs (by omega)
  · exact fun _ => fitsInt128_of_natAbs (by omega)

end Ceiling

section Output

variable {env : Env} {w : World} {s s' : State} {token : CurrencyStats} {first : Bool}
variable {pairToken : SymbolCode} {input net out extAsset : ExtendedAsset} {minExpected : Asset}

/-- `out` is what a swap of `net` takes from the other reserve, and no larger amount would
keep the product of the reserves. -/
structure LargestOutput (token : CurrencyStats) (first : Bool) (net out : ℤ) : Prop where
  nonempty : 0 < (token.reserve first).quantity.amount.toInt + net
  eq_floor : out = net * (token.reserve !first).quantity.amount.toInt /
    ((token.reserve first).quantity.amount.toInt + net)
  largest : ∀ o : ℤ,
    (token.reserve first).quantity.amount.toInt * (token.reserve !first).quantity.amount.toInt ≤
        ((token.reserve first).quantity.amount.toInt + net) *
          ((token.reserve !first).quantity.amount.toInt - o) ↔
      o ≤ out

theorem largestOutput_of_compute
    {reserve' : ExtendedAsset}
    (hinRange : AmountInRange (token.reserve first).quantity.amount)
    (hcompute : compute (-net.quantity.amount) (token.reserve !first).quantity.amount
      ((token.reserve first).quantity.amount + net.quantity.amount) = .ok extAsset.quantity.amount)
    (hadd : (token.reserve first).add net = .ok reserve') :
    LargestOutput token first net.quantity.amount.toInt extAsset.neg.quantity.amount.toInt := by
  obtain ⟨hin, -, hrange, hceil⟩ := input_of_compute hinRange hcompute hadd
  have hsum := hin.amount
  have hpos := hin.pos
  rw [hsum] at hpos hceil
  have hout : extAsset.neg.quantity.amount.toInt =
      swapOut (token.reserve first).quantity.amount.toInt
        (token.reserve !first).quantity.amount.toInt net.quantity.amount.toInt := by
    rw [ExtendedAsset.neg_quantity, Asset.neg_amount, toInt_neg_of_inRange hrange]
    refine (IsCeilDiv.neg_iff hpos).mp ?_
    rwa [neg_neg, ← neg_mul]
  refine ⟨hpos, hout, ?_⟩
  intro o
  rw [hout]
  exact product_le_iff_le_swapOut hpos

/-- A swap with a pool in order, whichever action asks for it and in either direction. -/
theorem Swapped.largestOutput [Doubles]
    (ok : ∀ code token, s.stats.find? code = some token → PoolOk token)
    (h : Swapped s pairToken input minExpected net out s') :
    ∃ token first,
      s.stats.find? pairToken = some token ∧
      net.extendedSymbol = (token.reserve first).extendedSymbol ∧
      out.extendedSymbol = (token.reserve !first).extendedSymbol ∧
      LargestOutput token first net.quantity.amount.toInt out.quantity.amount.toInt := by
  obtain ⟨token, tokenFee, htoken, hfee, hnet, hswap⟩ := h
  obtain ⟨_, first, extAsset, pool1, pool2, htoken', hfirst, hcompute, hextSymbol, -,
    hadd1, hadd2, -, rfl⟩ := processExch_eq_ok hswap
  simp only [Table.find?_put_self, Option.some.injEq] at htoken'
  subst htoken'
  obtain ⟨_, _, rfl, -⟩ := takeFee_eq_ok hfee
  have hok := ok _ token htoken
  refine ⟨token, first, htoken, (inFirst_eq_some hfirst).symm, ?_⟩
  cases first with
  | true =>
      exact ⟨hextSymbol, largestOutput_of_compute (hok.reserve_inRange true) hcompute hadd1⟩
  | false =>
      exact ⟨hextSymbol, largestOutput_of_compute (hok.reserve_inRange false) hcompute hadd2⟩

end Output

section Main

/-- `compute` is the exact ceiling or fails, nothing overflows on the way, and what a swap
in a reachable state gives is the largest amount that keeps the product of the reserves. -/
theorem compute_is_exact_ceiling [Doubles] (x y z : Int64) :
    (x = 0 ∨ y ≤ 0 ∨ z ≤ 0 → ¬ Succeeds (compute x y z)) ∧
      (¬ (x = 0 ∨ y ≤ 0 ∨ z ≤ 0) →
        Checked Int64.toInt FitsAmount (compute x y z) (exactCeiling x y z) ∧
          ComputeFits x y z) ∧
      ∀ (env : Env) (w : World) (pairToken : SymbolCode) (input net out : ExtendedAsset)
          (minExpected : Asset) (s' : State),
        Reaches env w →
        Swapped w.state pairToken input minExpected net out s' →
        ∃ token first,
          w.state.stats.find? pairToken = some token ∧
          net.extendedSymbol = (token.reserve first).extendedSymbol ∧
          out.extendedSymbol = (token.reserve !first).extendedSymbol ∧
          LargestOutput token first net.quantity.amount.toInt out.quantity.amount.toInt := by
  refine ⟨not_succeeds_compute, ?_, ?_⟩
  · intro h
    obtain ⟨hx, h⟩ := not_or.mp h
    obtain ⟨hy, hz⟩ := not_or.mp h
    rw [Int64.not_le] at hy hz
    exact ⟨checked_compute hx hy hz, computeFits hz⟩
  · intro env w pairToken input net out minExpected s' hw h
    exact h.largestOutput (lpLedger_of_reaches hw).pools

open Binary64

/-- Seven times three halves is rounded up to eleven, minus seven times three halves to
minus ten, and a pool of the two tokens gives the largest output. -/
theorem compute_is_exact_ceiling_sample :
    exactCeiling 7 3 2 = 11 ∧ exactCeiling (-7) 3 2 = -10 ∧
      ∃ w token first net out, Reaches sampleEnv w ∧
        w.state.stats.find? (sampleSymbol "AB").code = some token ∧
        LargestOutput token first net out := by
  have hup : compute 7 3 2 = .ok 11 := by decide +kernel
  have hdown : compute (-7) 3 2 = .ok (-10) := by decide +kernel
  have hceilUp := ((compute_is_exact_ceiling 7 3 2).2.1 (by decide)).1.exact 11 hup
  have hceilDown := ((compute_is_exact_ceiling (-7) 3 2).2.1 (by decide)).1.exact (-10) hdown
  refine ⟨hceilUp.symm, hceilDown.symm, ?_⟩
  obtain ⟨h, w, hplay, hobs⟩ := exists_of_play
    (show (play (stepWith sampleEnv) sampleWorld samplePool).map
        (fun r => (memoexchange sampleEnv r.2.state (nameLiteral "alice") (sampleA 10000)
          (sampleSymbol "AB").code (sampleB 1).quantity).isOk) = some true by decide +kernel)
  have hw := reaches_of_play sampleWorld_genesis hplay
  obtain ⟨⟨s', sent⟩, hrun⟩ := succeeds_iff_isOk.mpr hobs
  obtain ⟨net, out, _, -, hswap, -⟩ := memoexchange_eq_ok hrun
  obtain ⟨token, first, htoken, -, -, houtput⟩ :=
    (compute_is_exact_ceiling 7 3 2).2.2 _ _ _ _ _ _ _ _ hw hswap
  exact ⟨w, token, first, _, _, hw, htoken, houtput⟩

end Main

end Lemonade