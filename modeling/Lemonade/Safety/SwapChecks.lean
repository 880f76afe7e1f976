import Lemonade.Safety.LpLedger
import Lemonade.Safety.PoolRegistry
import Mathlib.Tactic

/-!
# When a swap goes through

A swap of a positive amount goes through exactly if it fits the pool (`SwapFits`), whichever
action asks for it: the accrued fee and the reserve have room for it, and it yields what is
expected.  A deposit can be credited exactly if it has room too (`CreditFits`).
-/

namespace Lemonade

open Kernel

/-- What a pool gives for a net input into one of its reserves. -/
def CurrencyStats.outputOfNet (token : CurrencyStats) (first : Bool) (net : ℤ) : ℤ :=
  swapOut (token.reserve first).quantity.amount.toInt
    (token.reserve !first).quantity.amount.toInt net

section Amounts

variable [Doubles]

/-- What a pool gives for an input into one of its reserves. -/
def CurrencyStats.output (token : CurrencyStats) (first : Bool) (amount : ℤ) : ℤ :=
  token.outputOfNet first (netOf amount)

/-- The input `amount` into one reserve passes the checks of a swap that expects `minimum`. -/
structure SwapFits (token : CurrencyStats) (first : Bool) (amount minimum : ℤ) : Prop where
  fee : accruedWith (token.fee first).quantity.amount.toInt amount < 2 ^ 63
  net : 0 < netOf amount
  room : (token.reserve first).quantity.amount.toInt + netOf amount ≤ maxAmount
  enough : minimum ≤ token.output first amount

theorem PoolOk.output_nonneg
    {token : CurrencyStats} (ok : PoolOk token) (first : Bool) {amount : ℤ} (h : 0 ≤ amount) :
    0 ≤ token.output first amount :=
  swapOut_nonneg (ok.reserve_pos first) (ok.reserve_pos !first) (netOf_nonneg h)

theorem PoolOk.output_lt
    {token : CurrencyStats} (ok : PoolOk token) (first : Bool) {amount : ℤ} (h : 0 ≤ amount) :
    token.output first amount < (token.reserve !first).quantity.amount.toInt :=
  swapOut_lt (ok.reserve_pos first) (ok.reserve_pos !first) (netOf_nonneg h)

end Amounts

section Success

variable {s s' : State} {token : CurrencyStats} {first : Bool}
variable {input net out : ExtendedAsset} {minExpected : Asset} {pairToken : SymbolCode}

theorem succeeds_netInput [Doubles] (hpos : 0 < input.quantity.amount.toInt) :
    Succeeds (netInput input) := by
  have hnonneg := netOf_nonneg hpos.le
  have hlt := netOf_lt hpos
  have hmax := input.quantity.amount.toInt_lt
  unfold netOf at hnonneg hlt
  obtain ⟨amount, hamount⟩ := succeeds_toInt64 (by omega) (hlt.trans hmax)
  simp only [netInput, succeeds_bind_iff]
  exact ⟨amount, hamount, succeeds_pure _⟩

theorem succeeds_accrue [Doubles]
    {accrued : ExtendedAsset} {amountIn : Int64} (hpos : 0 < amountIn.toInt)
    (h : accruedWith accrued.quantity.amount.toInt amountIn.toInt < 2 ^ 63) :
    Succeeds (accrue accrued amountIn) := by
  -- the least 64-bit number is a double
  have hmin : IsDouble ((-2 ^ 63 : ℤ) : ℚ) := ⟨-1, 63, by norm_num, by norm_num⟩
  have hhalf : 0 ≤ rnd (feeOf amountIn.toInt / 2) :=
    Doubles.rnd_nonneg (div_nonneg (feeOf_nonneg hpos.le) (by norm_num))
  have hold : ((-2 ^ 63 : ℤ) : ℚ) ≤ rnd accrued.quantity.amount.toInt :=
    Doubles.le_rnd hmin (by exact_mod_cast accrued.quantity.amount.le_toInt)
  have hnew := trunc_mono (Doubles.le_rnd hmin (hold.trans (le_add_of_nonneg_right hhalf)))
  rw [trunc_intCast] at hnew
  obtain ⟨amount, hamount⟩ := succeeds_toInt64 hnew h
  simp only [accrue, succeeds_bind_iff]
  exact ⟨amount, hamount, succeeds_pure _⟩

/-- The fee of a swap can be taken iff the accrued fee next to its input has room for it. -/
theorem succeeds_takeFee [Doubles]
    (ok : PoolOk token) (hsym : input.extendedSymbol = (token.reserve first).extendedSymbol)
    (hpos : 0 < input.quantity.amount.toInt)
    (h : accruedWith (token.fee first).quantity.amount.toInt input.quantity.amount.toInt <
      2 ^ 63) :
    Succeeds (takeFee token input.quantity) := by
  obtain ⟨fee, hfee⟩ := succeeds_accrue hpos h
  have hfeeSymbol : ∀ b, (token.fee b).quantity.symbol = (token.reserve b).quantity.symbol :=
    fun b => congrArg ExtendedSymbol.sym (ok.feeSymbol b)
  have hinput : input.quantity.symbol = (token.fee first).quantity.symbol :=
    (congrArg ExtendedSymbol.sym hsym).trans (hfeeSymbol first).symm
  unfold takeFee
  cases first with
  | true =>
      have h1 : input.quantity.symbol = token.fee1.quantity.symbol := hinput
      rw [if_pos h1]
      exact succeeds_bind_iff.mpr ⟨fee, hfee, succeeds_pure _⟩
  | false =>
      have h1 : input.quantity.symbol ≠ token.fee1.quantity.symbol := by
        intro h1
        refine ok.codes_ne (congrArg Symbol.code ?_)
        exact (hfeeSymbol true).symm.trans (h1.symm.trans (hinput.trans (hfeeSymbol false)))
      have h2 : input.quantity.symbol = token.fee2.quantity.symbol := hinput
      rw [if_neg h1, if_pos h2]
      exact succeeds_bind_iff.mpr ⟨fee, hfee, succeeds_pure _⟩

theorem succeeds_compute_of_neg
    {x y z : Int64} (hx : x.toInt < 0) (hy : 0 < y.toInt) (hz : 0 < z.toInt)
    (hle : -maxAmount ≤ (x.toInt * y.toInt).tdiv z.toInt) : Succeeds (compute x y z) := by
  have hneg : ¬ 0 < x := fun hpos => absurd (Int64.lt_iff_toInt_lt.mp hpos) (by simpa using hx.le)
  have hne : x ≠ 0 := by
    rintro rfl
    simp at hx
  have hparams : x ≠ 0 ∧ 0 < y ∧ 0 < z :=
    ⟨hne, Int64.lt_iff_toInt_lt.mpr hy, Int64.lt_iff_toInt_lt.mpr hz⟩
  simp only [compute, if_neg hneg, succeeds_bind_iff, check_eq_ok_iff, succeeds_pure, and_true]
  exact ⟨⟨⟩, hparams, ⟨⟩, hle⟩

/-- The amounts of a swap of `amount` between two reserves. -/
theorem compute_of_room
    {poolIn poolOut amount : Int64} (hin : 0 < poolIn.toInt) (hinRange : AmountInRange poolIn)
    (hout : 0 < poolOut.toInt) (houtRange : AmountInRange poolOut) (hpos : 0 < amount.toInt)
    (hroom : poolIn.toInt + amount.toInt ≤ maxAmount) :
    ∃ amountOut, compute (-amount) poolOut (poolIn + amount) = .ok amountOut ∧
      amountOut.toInt = -swapOut poolIn.toInt poolOut.toInt amount.toInt ∧
      AmountInRange amountOut ∧ AmountInRange (poolIn + amount) ∧
      AmountInRange (poolOut + amountOut) := by
  have hrange : AmountInRange amount := by
    unfold AmountInRange maxAmount at *
    omega
  have hneg := toInt_neg_of_inRange hrange
  have hsum := toInt_add_of_inRange_both hinRange hrange
  have hz : 0 < (poolIn + amount).toInt := by omega
  have hnonneg := swapOut_nonneg hin hout hpos.le
  have hlt := swapOut_lt hin hout hpos.le
  have htdiv : ((-amount).toInt * poolOut.toInt).tdiv (poolIn + amount).toInt =
      -swapOut poolIn.toInt poolOut.toInt amount.toInt := by
    rw [hneg, hsum, neg_mul, Int.neg_tdiv,
      Int.tdiv_eq_ediv_of_nonneg (mul_nonneg hpos.le hout.le)]
    rfl
  have hx : (-amount).toInt < 0 := by omega
  have hle : -maxAmount ≤ ((-amount).toInt * poolOut.toInt).tdiv (poolIn + amount).toInt := by
    have hmax := houtRange.2
    rw [htdiv]
    omega
  obtain ⟨amountOut, hcompute⟩ := succeeds_compute_of_neg hx hout hz hle
  obtain ⟨-, -, -, hext, hceil⟩ := compute_eq_ok hcompute
  have hvalue : amountOut.toInt = -swapOut poolIn.toInt poolOut.toInt amount.toInt := by
    have hceil' : IsCeilDiv (- -amountOut.toInt) (-(amount.toInt * poolOut.toInt))
        (poolIn + amount).toInt := by
      rw [neg_neg, ← neg_mul, ← hneg]
      exact hceil
    have hquot := (IsCeilDiv.neg_iff hz).mp hceil'
    rw [hsum] at hquot
    unfold swapOut
    omega
  have hsumOut := toInt_add_of_inRange_both houtRange hext
  refine ⟨amountOut, hcompute, hvalue, hext, ?_, ?_⟩
  · unfold AmountInRange maxAmount at *
    omega
  · unfold AmountInRange maxAmount at *
    omega

theorem inFirst_of_sides
    (ok : PoolOk token) {sym : ExtendedSymbol} {expected : Symbol}
    (hsym : sym = (token.reserve first).extendedSymbol)
    (hexpected : expected = (token.reserve !first).quantity.symbol) :
    inFirst token sym expected = some first := by
  unfold inFirst
  cases first with
  | true => exact if_pos ⟨hsym.symm, hexpected.symm⟩
  | false =>
      have h1 : ¬ (token.pool1.extendedSymbol = sym ∧ token.pool2.quantity.symbol = expected) :=
        fun h => ok.extendedSymbol_ne (h.1.trans hsym)
      rw [if_neg h1]
      exact if_pos ⟨hexpected.symm, hsym.symm⟩

theorem inFirst_expected
    {sym : ExtendedSymbol} {expected : Symbol} (h : inFirst token sym expected = some first) :
    expected = (token.reserve !first).quantity.symbol := by
  unfold inFirst at h
  split_ifs at h with h1 h2
  · obtain rfl := Option.some.inj h
    exact h1.2.symm
  · obtain rfl := Option.some.inj h
    exact h2.1.symm

theorem succeeds_processExch
    (htoken : s.stats.find? pairToken = some token) (ok : PoolOk token)
    (hvalid : (token.reserve !first).quantity.symbol.isValid = true)
    (hsym : net.extendedSymbol = (token.reserve first).extendedSymbol)
    (hexpected : minExpected.symbol = (token.reserve !first).quantity.symbol)
    (hpos : 0 < net.quantity.amount.toInt)
    (hroom : (token.reserve first).quantity.amount.toInt + net.quantity.amount.toInt ≤ maxAmount)
    (henough : minExpected.amount.toInt ≤ swapOut (token.reserve first).quantity.amount.toInt
      (token.reserve !first).quantity.amount.toInt net.quantity.amount.toInt) :
    Succeeds (processExch s pairToken net minExpected) := by
  obtain ⟨amountOut, hcompute, hvalue, hext, hinRange, houtRange⟩ :=
    compute_of_room (ok.reserve_pos first) (ok.reserve_inRange first) (ok.reserve_pos !first)
      (ok.reserve_inRange !first) hpos hroom
  have hmin : minExpected.amount ≤ -amountOut := by
    rw [Int64.le_iff_toInt_le, toInt_neg_of_inRange hext, hvalue, neg_neg]
    exact henough
  have hfirst := inFirst_of_sides ok hsym hexpected
  have haddIn : ∃ r, (token.reserve first).add net = .ok r :=
    ⟨_, ExtendedAsset.add_eq_ok_iff.mpr ⟨hsym, hinRange, rfl⟩⟩
  have haddOut : ∃ r, (token.reserve !first).add
      ⟨⟨amountOut, (token.reserve !first).quantity.symbol⟩, (token.reserve !first).contract⟩ =
        .ok r :=
    ⟨_, ExtendedAsset.add_eq_ok_iff.mpr ⟨rfl, houtRange, rfl⟩⟩
  obtain ⟨poolIn, haddIn⟩ := haddIn
  obtain ⟨poolOut, haddOut⟩ := haddOut
  simp only [processExch, succeeds_bind_iff, require_eq_ok_iff, check_eq_ok_iff,
    ExtendedAsset.make_eq_ok_iff, succeeds_pure, and_true]
  cases first with
  | true =>
      exact ⟨token, htoken, true, hfirst, amountOut, hcompute, ⟨⟩, hmin, _,
        ⟨hext, hvalid, rfl⟩, poolIn, haddIn, poolOut, haddOut⟩
  | false =>
      exact ⟨token, htoken, false, hfirst, amountOut, hcompute, ⟨⟩, hmin, _,
        ⟨hext, hvalid, rfl⟩, poolOut, haddOut, poolIn, haddIn⟩

/-- The expected amount of a swap is one of the other reserve. -/
theorem Swapped.expectedSymbol [Doubles]
    (ok : PoolOk token) (htoken : s.stats.find? pairToken = some token)
    (hsym : input.extendedSymbol = (token.reserve first).extendedSymbol)
    (h : Swapped s pairToken input minExpected net out s') :
    minExpected.symbol = (token.reserve !first).quantity.symbol := by
  obtain ⟨token₀, tokenFee, htoken₀, hfee, hnet, hswap⟩ := h
  obtain rfl := Option.some.inj (htoken.symm.trans htoken₀)
  obtain ⟨_, first', _, _, _, htoken₁, hfirst, -⟩ := processExch_eq_ok hswap
  obtain rfl := Option.some.inj ((Table.find?_put_self _ _ _).symm.trans htoken₁)
  obtain ⟨_, _, rfl, -⟩ := takeFee_eq_ok hfee
  have hside := (inFirst_eq_some hfirst).trans ((netInput_eq_ok hnet).2.trans hsym)
  obtain rfl := ok.side_unique hside
  exact inFirst_expected hfirst

/-- What a swap pays for its net input. -/
theorem Swapped.output_eq [Doubles]
    (ok : PoolOk token) (htoken : s.stats.find? pairToken = some token)
    (hnetSym : net.extendedSymbol = (token.reserve first).extendedSymbol)
    (hnet : net.quantity.amount.toInt = netOf input.quantity.amount.toInt)
    (hpos : 0 < netOf input.quantity.amount.toInt)
    (hroom : (token.reserve first).quantity.amount.toInt + net.quantity.amount.toInt ≤ maxAmount)
    (h : Swapped s pairToken input minExpected net out s') :
    out.quantity.amount.toInt = token.output first input.quantity.amount.toInt := by
  obtain ⟨token₀, tokenFee, htoken₀, hfee, -, hswap⟩ := h
  obtain rfl := Option.some.inj (htoken.symm.trans htoken₀)
  obtain ⟨_, first', extAsset, _, _, htoken₁, hfirst, hcompute, -, -, -, -, -, rfl⟩ :=
    processExch_eq_ok hswap
  obtain rfl := Option.some.inj ((Table.find?_put_self _ _ _).symm.trans htoken₁)
  have hsame : ∀ b, tokenFee.reserve b = token.reserve b := by
    obtain ⟨_, _, rfl, -⟩ := takeFee_eq_ok hfee
    exact fun b => rfl
  have hside := (inFirst_eq_some hfirst).trans hnetSym
  rw [hsame] at hside
  obtain rfl := ok.side_unique hside
  obtain ⟨amountOut, hcompute', hvalue, hrange, -⟩ :=
    compute_of_room (ok.reserve_pos first') (ok.reserve_inRange first')
      (ok.reserve_pos !first') (ok.reserve_inRange !first') (hnet ▸ hpos) hroom
  have hamount : extAsset.quantity.amount = amountOut := by
    refine Except.ok.inj (hcompute.symm.trans ?_)
    rw [← hcompute', ← hsame, ← hsame]
    cases first' with
    | true => rfl
    | false => rfl
  rw [ExtendedAsset.neg_quantity, Asset.neg_amount, hamount, toInt_neg_of_inRange hrange,
    hvalue, neg_neg, hnet]
  rfl

/-- A swap that has gone through fits the pool, and its amounts are those of the pool. -/
theorem Swapped.fits [Doubles]
    (pools : ∀ code token, s.stats.find? code = some token → PoolOk token)
    (htoken : s.stats.find? pairToken = some token)
    (hsym : input.extendedSymbol = (token.reserve first).extendedSymbol)
    (hpos : 0 < input.quantity.amount.toInt)
    (h : Swapped s pairToken input minExpected net out s') :
    SwapFits token first input.quantity.amount.toInt minExpected.amount.toInt ∧
      net.quantity.amount.toInt = netOf input.quantity.amount.toInt ∧
      out.quantity.amount.toInt = token.output first input.quantity.amount.toInt ∧
      out.extendedSymbol = (token.reserve !first).extendedSymbol ∧
      minExpected.symbol = (token.reserve !first).quantity.symbol := by
  obtain ⟨_, token', first', htoken', update, hmin, -⟩ := h.update pools
  obtain rfl := Option.some.inj (htoken.symm.trans htoken')
  have ok := pools _ token htoken
  obtain rfl := ok.side_unique (hsym.symm.trans update.inputSymbol)
  have hnet : net.quantity.amount.toInt = netOf input.quantity.amount.toInt := update.net_eq
  have hnetPos : 0 < netOf input.quantity.amount.toInt := by
    have hnonneg := netOf_nonneg hpos.le
    have hne := update.net_ne
    omega
  have hroom : (token.reserve first).quantity.amount.toInt + net.quantity.amount.toInt ≤
      maxAmount := by
    rw [← update.inReserve]
    exact (update.ok.reserve_inRange first).2
  have hout := h.output_eq ok htoken update.netSymbol hnet hnetPos hroom
  have hexpected := h.expectedSymbol ok htoken hsym
  refine ⟨⟨?_, hnetPos, by rwa [← hnet], ?_⟩, hnet, hout, update.outSymbol, hexpected⟩
  · rw [← update.fee]
    exact (token'.fee first).quantity.amount.toInt_lt
  · rw [← hout]
    exact Int64.le_iff_toInt_le.mp hmin

/-- A swap that fits the pool goes through. -/
theorem exists_swapped [Doubles]
    (ok : PoolOk token) (hvalid : (token.reserve !first).quantity.symbol.isValid = true)
    (htoken : s.stats.find? pairToken = some token)
    (hsym : input.extendedSymbol = (token.reserve first).extendedSymbol)
    (hexpected : minExpected.symbol = (token.reserve !first).quantity.symbol)
    (hpos : 0 < input.quantity.amount.toInt)
    (fits : SwapFits token first input.quantity.amount.toInt minExpected.amount.toInt) :
    ∃ net out s', Swapped s pairToken input minExpected net out s' := by
  obtain ⟨net, hnet⟩ := succeeds_netInput hpos
  obtain ⟨tokenFee, hfee⟩ := succeeds_takeFee ok hsym hpos fits.fee
  obtain ⟨hnetAmount, hnetSymbol⟩ := netInput_eq_ok hnet
  have hnetOf : net.quantity.amount.toInt = netOf input.quantity.amount.toInt := hnetAmount
  have okFee : PoolOk tokenFee ∧ ∀ b, tokenFee.reserve b = token.reserve b := by
    obtain ⟨fee1, fee2, rfl, hcase⟩ := takeFee_eq_ok hfee
    refine ⟨?_, fun b => rfl⟩
    split_ifs at hcase
    · exact ok.of_fees ((accrue_eq_ok hcase.1).2.trans (ok.feeSymbol true))
        (hcase.2 ▸ ok.feeSymbol false)
    · exact ok.of_fees (hcase.2 ▸ ok.feeSymbol true)
        ((accrue_eq_ok hcase.1).2.trans (ok.feeSymbol false))
    · exact ok.of_fees (hcase.1 ▸ ok.feeSymbol true) (hcase.2 ▸ ok.feeSymbol false)
  obtain ⟨okFee, hsame⟩ := okFee
  let s₁ : State := { s with stats := s.stats.put pairToken tokenFee }
  have htoken₁ : s₁.stats.find? pairToken = some tokenFee := Table.find?_put_self _ _ _
  have hswap : Succeeds (processExch s₁ pairToken net minExpected) := by
    refine succeeds_processExch htoken₁ okFee
      (?_ : (tokenFee.reserve !first).quantity.symbol.isValid = true) ?_ ?_ ?_ ?_ ?_
    · rw [hsame]
      exact hvalid
    · rw [hsame]
      exact hnetSymbol.trans hsym
    · rw [hsame]
      exact hexpected
    · rw [hnetOf]
      exact fits.net
    · rw [hsame, hnetOf]
      exact fits.room
    · rw [hsame, hsame, hnetOf]
      exact fits.enough
  obtain ⟨⟨s', out⟩, hswap⟩ := hswap
  exact ⟨net, out, s', token, tokenFee, htoken, hfee, hnet, hswap⟩

end Success

section Ledger

variable {s s' : State} {user : Name} {sym : ExtendedSymbol} {toAdd : ExtendedAsset}

/-- The deposit of a user can take `amount` more of a token. -/
def CreditFits (s : State) (user : Name) (sym : ExtendedSymbol) (amount : ℤ) : Prop :=
  match findDexacnt s user sym with
  | none => Succeeds (availablePrimaryKey (dexacntIds s user))
  | some (_, balance) => balance.quantity.amount.toInt + amount ≤ maxAmount

theorem dexacntIds_put
    {key : Name × Nat} {balance balance' : ExtendedAsset}
    (h : s.dexacnts.find? key = some balance) :
    dexacntIds { s with dexacnts := s.dexacnts.put key balance' } user = dexacntIds s user := by
  have hkeys := Table.map_fst_put h balance'
  have hids : ∀ rows : List ((Name × Nat) × ExtendedAsset),
      (rows.filter fun e => e.1.1 = user).map (fun e => e.1.2) =
        ((rows.map Prod.fst).filter fun k => k.1 = user).map Prod.snd := by
    intro rows
    rw [List.filter_map, List.map_map]
    rfl
  unfold dexacntIds
  rw [hids, hids, hkeys]

theorem findDexacnt_put
    {key : Name × Nat} {balance balance' : ExtendedAsset}
    (h : s.dexacnts.find? key = some balance) (hbalance : balance.extendedSymbol ≠ sym)
    (hbalance' : balance'.extendedSymbol ≠ sym) :
    findDexacnt { s with dexacnts := s.dexacnts.put key balance' } user sym =
      findDexacnt s user sym := by
  have hkey : ∀ b : ExtendedAsset, b.extendedSymbol ≠ sym →
      decide (key.1 = user ∧ b.extendedSymbol.key = sym.key) = false := by
    intro b hb
    rw [decide_eq_false_iff_not, ExtendedSymbol.key_inj]
    exact fun hboth => hb hboth.2
  exact Table.findBy_put_of_false h (hkey _ hbalance) (hkey _ hbalance')

/-- The key of a new deposit is not taken. -/
theorem find?_availablePrimaryKey
    {id : Nat} (h : availablePrimaryKey (dexacntIds s user) = .ok id) :
    s.dexacnts.find? (user, id) = none := by
  cases hfind : s.dexacnts.find? (user, id) with
  | none => rfl
  | some balance =>
      have hmem : id ∈ dexacntIds s user := by
        unfold dexacntIds
        refine List.mem_map.mpr ⟨((user, id), balance), ?_, rfl⟩
        exact List.mem_filter.mpr ⟨Table.mem_rows_iff.mpr hfind, by simp⟩
      exact absurd (lt_of_availablePrimaryKey h hmem) (lt_irrefl id)

/-- A credit is possible iff the deposit has room for it. -/
theorem succeeds_credit_iff
    (ok : DepositsOk s.dexacnts) (hvalid : toAdd.quantity.IsValid)
    (hnonneg : 0 ≤ toAdd.quantity.amount.toInt) :
    Succeeds (addSignedExtBalance s user toAdd) ↔
      CreditFits s user toAdd.extendedSymbol toAdd.quantity.amount.toInt := by
  have hnonneg' : 0 ≤ toAdd.quantity.amount := by
    rw [Int64.le_iff_toInt_le, Int64.toInt_zero]
    exact hnonneg
  constructor
  · rintro ⟨s', h⟩
    unfold CreditFits
    cases hrow : findDexacnt s user toAdd.extendedSymbol with
    | none =>
        simp only [addSignedExtBalance, hrow, bind_eq_ok_iff] at h
        obtain ⟨_, -, _, -, id, hid, -⟩ := h
        exact ⟨id, hid⟩
    | some found =>
        obtain ⟨key, balance⟩ := found
        simp only [addSignedExtBalance, hrow, bind_eq_ok_iff, ExtendedAsset.add_eq_ok_iff] at h
        obtain ⟨_, -, _, ⟨-, hrange, -⟩, -⟩ := h
        obtain ⟨hfind, -, -⟩ := findDexacnt_eq_some hrow
        have hsum := toInt_add_of_inRange (ok.holdable _ _ hfind).inRange hrange
        have hmax := hrange.2
        omega
  · intro h
    unfold CreditFits at h
    cases hrow : findDexacnt s user toAdd.extendedSymbol with
    | none =>
        rw [hrow] at h
        obtain ⟨id, hid⟩ := h
        simp only [addSignedExtBalance, hrow, succeeds_bind_iff, check_eq_ok_iff,
          emplace_eq_ok_iff, succeeds_pure, and_true]
        exact ⟨⟨⟩, hvalid, ⟨⟩, hnonneg', id, hid, _, find?_availablePrimaryKey hid, rfl⟩
    | some found =>
        obtain ⟨key, balance⟩ := found
        rw [hrow] at h
        obtain ⟨hfind, -, hsym⟩ := findDexacnt_eq_some hrow
        have hold := ok.holdable _ _ hfind
        have hsum := toInt_add_of_inRange_both hold.inRange hvalid.1
        have hrange : AmountInRange (balance.quantity.amount + toAdd.quantity.amount) := by
          have hlow := hold.nonneg
          unfold AmountInRange maxAmount at *
          omega
        have hpos : 0 ≤ balance.quantity.amount + toAdd.quantity.amount := by
          rw [Int64.le_iff_toInt_le, Int64.toInt_zero, hsum]
          have hlow := hold.nonneg
          omega
        simp only [addSignedExtBalance, hrow, succeeds_bind_iff, check_eq_ok_iff,
          ExtendedAsset.add_eq_ok_iff, succeeds_pure, and_true]
        exact ⟨⟨⟩, hvalid, _, ⟨hsym.symm, hrange, rfl⟩, ⟨⟩, hpos⟩

/-- A debit that the deposit covers is possible, and rewrites the row of the deposit. -/
theorem addSignedExtBalance_of_debit
    {key : Name × Nat} {balance charge : ExtendedAsset}
    (ok : DepositsOk s.dexacnts)
    (hrow : findDexacnt s user charge.extendedSymbol = some (key, balance))
    (hvalid : charge.quantity.symbol.isValid = true) (hnonneg : 0 ≤ charge.quantity.amount.toInt)
    (hle : charge.quantity.amount.toInt ≤ balance.quantity.amount.toInt) :
    ∃ balance', balance'.extendedSymbol = charge.extendedSymbol ∧
      addSignedExtBalance s user charge.neg =
        .ok { s with dexacnts := s.dexacnts.put key balance' } := by
  obtain ⟨hfind, -, hsym⟩ := findDexacnt_eq_some hrow
  have hold := ok.holdable _ _ hfind
  have hrange : AmountInRange charge.quantity.amount := by
    have hmax := hold.inRange.2
    unfold AmountInRange maxAmount at *
    omega
  have hneg := toInt_neg_of_inRange hrange
  have hnegRange := amountInRange_neg hrange
  have hsum := toInt_add_of_inRange_both hold.inRange hnegRange
  have hsumRange : AmountInRange (balance.quantity.amount + -charge.quantity.amount) := by
    have hmax := hold.inRange.2
    unfold AmountInRange maxAmount at *
    omega
  have hpos : 0 ≤ balance.quantity.amount + -charge.quantity.amount := by
    rw [Int64.le_iff_toInt_le, Int64.toInt_zero, hsum]
    omega
  refine ⟨⟨⟨balance.quantity.amount + -charge.quantity.amount, balance.quantity.symbol⟩,
    balance.contract⟩, hsym, ?_⟩
  simp only [addSignedExtBalance, ExtendedAsset.neg_extendedSymbol, hrow, bind_eq_ok_iff,
    check_eq_ok_iff, ExtendedAsset.add_eq_ok_iff, pure_eq_ok_iff]
  exact ⟨⟨⟩, ⟨hnegRange, hvalid⟩, _, ⟨hsym.symm, hsumRange, rfl⟩, ⟨⟩, hpos, rfl⟩

end Ledger

end Lemonade
