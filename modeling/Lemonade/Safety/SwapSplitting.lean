import Lemonade.Safety.SwapPaths
import Mathlib.Tactic

/-!
# Swaps in parts

Whoever swaps in parts gets at most what the pool gives for the sum of the net inputs, since
each output is rounded against the trader.  The fee is rounded against the trader as well as
long as its doubles are accurate: up to `2 ^ 43` units the net input is 997 / 1000 of the
input, rounded down, and parts gain nothing over the whole.  Above that, two net inputs can
exceed the net input of the sum.
-/

namespace Lemonade

open Kernel

section Amounts

theorem netOf_zero [Doubles] : netOf 0 = 0 := by
  have hle : netOf 0 ≤ 0 := netOf_nonpos le_rfl
  have hge : 0 ≤ netOf 0 := netOf_nonneg le_rfl
  omega

theorem netOf_sum_nonneg [Doubles]
    {parts : List ℤ} (h : ∀ x ∈ parts, 0 ≤ x) : 0 ≤ (parts.map netOf).sum := by
  refine List.sum_nonneg ?_
  intro x hx
  obtain ⟨y, hy, rfl⟩ := List.mem_map.mp hx
  exact netOf_nonneg (h y hy)

variable {token token' : CurrencyStats} {first : Bool} {input net out : ExtendedAsset}

/-- What is given for an input, and for a second net input after it, is not more than what is
given for both at once. -/
theorem SwapUpdate.output_add_le [Doubles]
    (ok : PoolOk token) (update : SwapUpdate token token' first input net out)
    (hout : out.quantity.amount.toInt = token.output first input.quantity.amount.toInt)
    (hx : 0 ≤ input.quantity.amount.toInt) {m : ℤ} (hm : 0 ≤ m) :
    out.quantity.amount.toInt + token'.outputOfNet first m ≤
      token.outputOfNet first (netOf input.quantity.amount.toInt + m) := by
  have hnet : net.quantity.amount.toInt = netOf input.quantity.amount.toInt := update.net_eq
  unfold CurrencyStats.output at hout
  unfold CurrencyStats.outputOfNet at hout ⊢
  rw [update.inReserve, update.outReserve, hnet, hout]
  exact swapOut_add_le (ok.reserve_pos first) (netOf_nonneg hx) hm

section Fees

open Binary64

theorem rnd_swapFee : rnd swapFee = 3458764513820541 / 2 ^ 60 := by decide +kernel

/-- The fee of a multiple of 1000 units is exact. -/
theorem feeOf_thousand {m : ℤ} (hm : 0 < m) (hlimit : m < 2 ^ 43) : feeOf (1000 * m) ≤ 3 * m := by
  have hpos : (0 : ℚ) < m := by exact_mod_cast hm
  have hsmall : (m : ℚ) < 2 ^ 43 := by exact_mod_cast hlimit
  have hinput : rnd ((1000 * m : ℤ) : ℚ) = 1000 * m := by
    rw [Doubles.rnd_intCast (abs_le.mpr ⟨by omega, by omega⟩)]
    push_cast
    rfl
  rw [feeOf, hinput, rnd_swapFee]
  generalize hx : (1000 * m : ℚ) * (3458764513820541 / 2 ^ 60) = x
  have hxpos : 0 < x := by
    rw [← hx]
    positivity
  have hxhigh : x < 2 ^ (((53 : ℕ) : ℤ) + 0) := by
    rw [← hx]
    norm_num at hsmall ⊢
    linarith
  obtain ⟨k, hk⟩ := exists_mul_quantum hxpos hxhigh (3 * m)
  have hmultiple : (3 * m : ℚ) = k * quantum 53 x := by
    rw [← hk, zpow_zero, mul_one]
    push_cast
    rfl
  -- half of the last place is more than the error of the rate
  have hplace := abs_lt_two_pow_mul_quantum 53 x
  rw [abs_of_pos hxpos] at hplace
  rw [hmultiple]
  refine nearest_le ?_
  rw [← hmultiple]
  norm_num at hplace hx
  linarith

/-- Up to `2 ^ 43` units the net input is exact. -/
theorem netOf_eq_ediv {a : ℤ} (ha : 0 ≤ a) (hlimit : a ≤ 2 ^ 43) : netOf a = 997 * a / 1000 := by
  have ha' : (0 : ℚ) ≤ a := by exact_mod_cast ha
  have hlimit' : (a : ℚ) ≤ 2 ^ 43 := by exact_mod_cast hlimit
  have hinput : rnd (a : ℚ) = a := Doubles.rnd_intCast (abs_le.mpr ⟨by omega, by omega⟩)
  have hle := feeOf_le_rnd ha
  have hproduct : (0 : ℚ) ≤ a * (3458764513820541 / 2 ^ 60) := by positivity
  have hfee : feeOf a = rnd (a * (3458764513820541 / 2 ^ 60)) := by
    rw [feeOf, hinput, rnd_swapFee]
  have hfeelow := Doubles.mul_le_rnd hproduct
  have hfeehigh := Doubles.rnd_le_mul hproduct
  rw [← hfee] at hfeelow hfeehigh
  rw [hinput] at hle
  have hlow := Doubles.mul_le_rnd (sub_nonneg.mpr hle)
  have hhigh := Doubles.rnd_le_mul (sub_nonneg.mpr hle)
  obtain ⟨k, j, hj, hjlt, hkj⟩ : ∃ k j : ℤ, 0 ≤ j ∧ j < 1000 ∧ 997 * a = 1000 * k + j :=
    ⟨997 * a / 1000, 997 * a % 1000, by omega, by omega, by omega⟩
  have hk : 997 * a / 1000 = k := by omega
  have hkj' : (997 * a : ℚ) = 1000 * k + j := by exact_mod_cast hkj
  have hjlt' : (j : ℚ) ≤ 999 := by exact_mod_cast (by omega : j ≤ 999)
  have hbelow : (k : ℚ) ≤ rnd (a - feeOf a) := by
    rcases hj.eq_or_lt with rfl | hjpos
    · -- a multiple of 1000 units
      obtain ⟨m, rfl⟩ : ∃ m, a = 1000 * m := ⟨a / 1000, by omega⟩
      rcases ha.eq_or_lt with hzero | hpos
      · obtain rfl : m = 0 := by omega
        obtain rfl : k = 0 := by omega
        rw [Int.cast_zero]
        exact Doubles.rnd_nonneg (sub_nonneg.mpr hle)
      · have hexact := feeOf_thousand (m := m) (by omega) (by omega)
        refine Doubles.le_rnd (isDouble_intCast (abs_le.mpr ⟨by omega, by omega⟩)) ?_
        push_cast at hkj' hexact ⊢
        linarith
    · have hj' : (1 : ℚ) ≤ j := by exact_mod_cast hjpos
      norm_num at hlow hfeehigh hlimit'
      linarith
  have habove : rnd (a - feeOf a) < k + 1 := by
    norm_num at hhigh hfeelow hlimit'
    linarith
  rw [netOf, hinput, hk, trunc_of_nonneg (Doubles.rnd_nonneg (sub_nonneg.mpr hle)),
    Int.floor_eq_iff]
  exact ⟨hbelow, habove⟩

/-- Up to `2 ^ 43` units nothing is gained by charging the fee in parts. -/
theorem netOf_sum_le {parts : List ℤ} (hparts : ∀ x ∈ parts, 0 ≤ x)
    (hlimit : parts.sum ≤ 2 ^ 43) : (parts.map netOf).sum ≤ netOf parts.sum := by
  induction parts with
  | nil => exact netOf_nonneg le_rfl
  | cons x rest ih =>
      obtain ⟨hx, hrest⟩ := List.forall_mem_cons.mp hparts
      have hsum : 0 ≤ rest.sum := List.sum_nonneg hrest
      rw [List.sum_cons] at hlimit
      have htail := ih hrest (by omega)
      rw [List.map_cons, List.sum_cons, List.sum_cons, netOf_eq_ediv hx (by omega)]
      rw [netOf_eq_ediv hsum (by omega)] at htail
      rw [netOf_eq_ediv (by omega) hlimit]
      omega

end Fees

end Amounts

section Parts

variable {env : Env} {s s' : State} {user : Name} {pairToken : SymbolCode} {sym : ExtendedSymbol}
  {token : CurrencyStats} {first : Bool} {parts : List ℤ} {total : ℤ}

/-- Incoming transfers of the amounts `parts` are swapped one after the other, and `total` is
sent for them. -/
inductive SwappedInParts [Doubles] (env : Env) (user : Name) (pairToken : SymbolCode)
    (sym : ExtendedSymbol) : State → List ℤ → ℤ → State → Prop
  | nil {s : State} : SwappedInParts env user pairToken sym s [] 0 s
  | cons {s s₁ s' : State} {input out : ExtendedAsset} {minExpected : Asset} {parts : List ℤ}
      {total : ℤ} (symbol : input.extendedSymbol = sym) (pos : 0 < input.quantity.amount.toInt)
      (swap : MemoSwap env s user input pairToken minExpected out s₁)
      (rest : SwappedInParts env user pairToken sym s₁ parts total s') :
      SwappedInParts env user pairToken sym s (input.quantity.amount.toInt :: parts)
        (out.quantity.amount.toInt + total) s'

theorem MemoSwap.swapped [Doubles]
    {input out : ExtendedAsset} {minExpected : Asset}
    (h : MemoSwap env s user input pairToken minExpected out s') :
    ∃ net, Swapped s pairToken input minExpected net out s' := by
  obtain ⟨text, hmemo⟩ := h
  obtain ⟨net, out', _, -, hswap, hsent⟩ := memoexchange_eq_ok hmemo
  obtain ⟨hcontract, -, hquantity, -⟩ := Inline.transfer.inj (List.cons.inj hsent).1
  have hsame : out = out' := by
    cases out
    cases out'
    rw [ExtendedAsset.mk.injEq]
    exact ⟨hquantity, hcontract⟩
  exact ⟨net, hsame ▸ hswap⟩

theorem memoSwap_of_eq_ok [Doubles]
    {input : ExtendedAsset} {minExpected : Asset} {sent : List Inline}
    (h : memoexchange env s user input pairToken minExpected = .ok (s', sent)) :
    ∃ out, MemoSwap env s user input pairToken minExpected out s' := by
  obtain ⟨_, out, text, -, -, rfl⟩ := memoexchange_eq_ok h
  exact ⟨out, text, h⟩

theorem SwappedInParts.nonneg [Doubles]
    (h : SwappedInParts env user pairToken sym s parts total s') : ∀ x ∈ parts, 0 ≤ x := by
  induction h with
  | nil => exact List.forall_mem_nil _
  | cons _ pos _ _ ih => exact List.forall_mem_cons.mpr ⟨pos.le, ih⟩

/-- The parts are given at most what the pool gives for the sum of their net inputs. -/
theorem SwappedInParts.total_le [Doubles]
    (h : SwappedInParts env user pairToken sym s parts total s') (inv : LpLedger s)
    (htoken : s.stats.find? pairToken = some token)
    (hsym : sym = (token.reserve first).extendedSymbol) :
    total ≤ token.outputOfNet first (parts.map netOf).sum := by
  induction h generalizing token with
  | nil => simp [CurrencyStats.outputOfNet, swapOut]
  | @cons s s₁ s' input out minExpected parts total symbol pos swap rest ih =>
      obtain ⟨net, hswap⟩ := swap.swapped
      have ok := inv.pools _ token htoken
      have hinput := symbol.trans hsym
      obtain ⟨-, -, hout, -, -⟩ := hswap.fits inv.pools htoken hinput pos
      obtain ⟨_, token', first', htoken', update, -, rfl⟩ := hswap.update inv.pools
      obtain rfl := Option.some.inj (htoken.symm.trans htoken')
      obtain rfl := ok.side_unique (hinput.symm.trans update.inputSymbol)
      have hrest := ih (inv.swap hswap) (Table.find?_put_self _ _ _)
        (hsym.trans (update.reserveSymbol first).symm)
      have hboth := update.output_add_le ok hout pos.le (netOf_sum_nonneg rest.nonneg)
      rw [List.map_cons, List.sum_cons]
      omega

variable {w : World} {input : ExtendedAsset} {minExpected : Asset} {out : ExtendedAsset}

open Binary64

/-- However a trader splits an amount into transfers that are swapped in a row, he is given at
most what the pool gives for the sum of the net inputs.  Up to `2 ^ 43` units, the transfer of
the whole amount is given at least as much. -/
theorem swaps_in_parts_never_gain
    (hw : Reaches env w)
    (hparts : SwappedInParts env user pairToken input.extendedSymbol w.state parts total s')
    (hsum : parts.sum = input.quantity.amount.toInt)
    (hwhole : MemoSwap env w.state user input pairToken minExpected out s) :
    (∃ token first, w.state.stats.find? pairToken = some token ∧
      input.extendedSymbol = (token.reserve first).extendedSymbol ∧
      total ≤ token.outputOfNet first (parts.map netOf).sum) ∧
    (input.quantity.amount.toInt ≤ 2 ^ 43 → total ≤ out.quantity.amount.toInt) := by
  have inv := lpLedger_of_reaches hw
  obtain ⟨net, hswap⟩ := hwhole.swapped
  obtain ⟨token, _, first, htoken, update, -, -⟩ := hswap.update inv.pools
  have htotal := hparts.total_le inv htoken update.inputSymbol
  refine ⟨⟨token, first, htoken, update.inputSymbol, htotal⟩, ?_⟩
  intro hlimit
  have hnonneg : 0 ≤ parts.sum := List.sum_nonneg hparts.nonneg
  have hpos : 0 < input.quantity.amount.toInt := by
    refine lt_of_le_of_ne (hsum ▸ hnonneg) ?_
    intro hzero
    refine update.net_ne ?_
    rw [update.net_eq, ← hzero]
    exact netOf_zero
  obtain ⟨-, -, hout, -, -⟩ := hswap.fits inv.pools htoken update.inputSymbol hpos
  have ok := inv.pools _ token htoken
  have hnets := netOf_sum_nonneg hparts.nonneg
  rw [hout, ← hsum]
  refine htotal.trans (swapOut_mono (ok.reserve_pos first) (ok.reserve_pos !first) hnets ?_)
  exact netOf_sum_le hparts.nonneg (hsum ▸ hlimit)

/-- Alice swaps ten thousand units of AAA in two parts, and would have got no less at once. -/
theorem swaps_in_parts_never_gain_sample :
    ∃ w s s' out total, Reaches sampleEnv w ∧
      SwappedInParts sampleEnv (nameLiteral "alice") (sampleSymbol "AB").code
        (sampleA 10000).extendedSymbol w.state [4000, 6000] total s' ∧
      MemoSwap sampleEnv w.state (nameLiteral "alice") (sampleA 10000) (sampleSymbol "AB").code
        (sampleB 0).quantity out s ∧
      total ≤ out.quantity.amount.toInt := by
  let swap (s : State) (amount : Int64) := memoexchange sampleEnv s (nameLiteral "alice")
    (sampleA amount) (sampleSymbol "AB").code (sampleB 0).quantity
  obtain ⟨h, w, hplay, hobs⟩ := exists_of_play
    (show (play (stepWith sampleEnv) sampleWorld samplePool).map (fun r =>
        ((do
          let half ← swap r.2.state 4000
          swap half.1 6000).isOk, (swap r.2.state 10000).isOk)) = some (true, true) by
      decide +kernel)
  obtain ⟨hparts, hwhole⟩ := Prod.mk.inj hobs
  obtain ⟨⟨s', _⟩, hparts⟩ := succeeds_iff_isOk.mpr hparts
  obtain ⟨⟨s₁, _⟩, hfirst, hsecond⟩ := bind_eq_ok_iff.mp hparts
  obtain ⟨⟨s, _⟩, hwhole⟩ := succeeds_iff_isOk.mpr hwhole
  obtain ⟨out₁, hfirst⟩ := memoSwap_of_eq_ok hfirst
  obtain ⟨out₂, hsecond⟩ := memoSwap_of_eq_ok hsecond
  obtain ⟨out, hwhole⟩ := memoSwap_of_eq_ok hwhole
  have hw := reaches_of_play sampleWorld_genesis hplay
  have hswapped : SwappedInParts sampleEnv (nameLiteral "alice") (sampleSymbol "AB").code
      (sampleA 10000).extendedSymbol w.state [4000, 6000] _ s' :=
    .cons rfl (by decide) hfirst (.cons rfl (by decide) hsecond .nil)
  exact ⟨w, s, s', out, _, hw, hswapped, hwhole,
    (swaps_in_parts_never_gain hw hswapped (by decide) hwhole).2 (by decide)⟩

end Parts

end Lemonade
