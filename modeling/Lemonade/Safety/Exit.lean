import Lemonade.Safety.LpSymbols
import Lemonade.Safety.DexTrades
import Lemonade.Safety.SwapChecks
import Mathlib.Tactic

/-!
# Leaving a pool

A provider can always sell the shares it holds, short of emptying the pool: nobody else is
asked, and nothing but the room in its own deposits can be in the way.
-/

namespace Lemonade

open Kernel

section Amounts

variable {token : CurrencyStats} {n : Int64}

/-- What `n` shares are worth of a reserve, rounded down. -/
def CurrencyStats.redeemed (token : CurrencyStats) (n : ℤ) (first : Bool) : ℤ :=
  n * (token.reserve first).quantity.amount.toInt / token.supply.amount.toInt

theorem PoolOk.redeemed_nonneg
    (ok : PoolOk token) {n : ℤ} (hn : 0 ≤ n) (first : Bool) : 0 ≤ token.redeemed n first :=
  Int.ediv_nonneg (mul_nonneg hn (ok.reserve_pos first).le) ok.supply_pos.le

theorem PoolOk.redeemed_le
    (ok : PoolOk token) {n : ℤ} (hle : n ≤ token.supply.amount.toInt) (first : Bool) :
    token.redeemed n first ≤ (token.reserve first).quantity.amount.toInt := by
  have hpos := ok.supply_pos
  have hmul := mul_le_mul_of_nonneg_right hle (ok.reserve_pos first).le
  calc token.redeemed n first
      ≤ token.supply.amount.toInt * (token.reserve first).quantity.amount.toInt /
          token.supply.amount.toInt := Int.ediv_le_ediv hpos hmul
    _ = (token.reserve first).quantity.amount.toInt := Int.mul_ediv_cancel_left _ hpos.ne'

/-- A part of a reserve is computed without an overflow. -/
theorem compute_of_part
    {x y z : Int64} (hx : 0 < x.toInt) (hxRange : AmountInRange x) (hy : 0 < y.toInt)
    (hyRange : AmountInRange y) (hz : 0 < z.toInt) (hle : x.toInt ≤ z.toInt) :
    ∃ r, compute (-x) y z = .ok r ∧ r.toInt = -(x.toInt * y.toInt / z.toInt) ∧
      AmountInRange r := by
  have hneg := toInt_neg_of_inRange hxRange
  have hpart : x.toInt * y.toInt / z.toInt ≤ y.toInt := by
    calc x.toInt * y.toInt / z.toInt
        ≤ z.toInt * y.toInt / z.toInt :=
          Int.ediv_le_ediv hz (mul_le_mul_of_nonneg_right hle hy.le)
      _ = y.toInt := Int.mul_ediv_cancel_left _ hz.ne'
  have htdiv : ((-x).toInt * y.toInt).tdiv z.toInt = -(x.toInt * y.toInt / z.toInt) := by
    rw [hneg, neg_mul, Int.neg_tdiv, Int.tdiv_eq_ediv_of_nonneg (mul_nonneg hx.le hy.le)]
  have hbound : -maxAmount ≤ ((-x).toInt * y.toInt).tdiv z.toInt := by
    have hmax := hyRange.2
    rw [htdiv]
    omega
  obtain ⟨r, hr⟩ := succeeds_compute_of_neg (by omega) hy hz hbound
  obtain ⟨-, -, -, hrange, hceil⟩ := compute_eq_ok hr
  refine ⟨r, hr, ?_, hrange⟩
  have hceil' : IsCeilDiv (- -r.toInt) (-(x.toInt * y.toInt)) z.toInt := by
    rw [neg_neg, ← neg_mul, ← hneg]
    exact hceil
  rw [← (IsCeilDiv.neg_iff hz).mp hceil', neg_neg]

/-- What is paid for shares that are sold. -/
theorem toPay_of_sale
    (ok : PoolOk token) (first : Bool)
    (hvalid : (token.reserve first).quantity.symbol.isValid = true) (hn : 0 < n.toInt)
    (hrange : AmountInRange n) (hle : n.toInt ≤ token.supply.amount.toInt) :
    ∃ paying, toPay (-n) token.supply.amount (token.reserve first) = .ok paying ∧
      paying.extendedSymbol = (token.reserve first).extendedSymbol ∧
      paying.quantity.amount.toInt = -token.redeemed n.toInt first ∧
      AmountInRange paying.quantity.amount := by
  obtain ⟨r, hr, hvalue, hr'⟩ := compute_of_part hn hrange (ok.reserve_pos first)
    (ok.reserve_inRange first) ok.supply_pos hle
  refine ⟨⟨⟨r, (token.reserve first).quantity.symbol⟩, (token.reserve first).contract⟩, ?_, rfl,
    hvalue, hr'⟩
  simp only [toPay, bind_eq_ok_iff, Asset.make_eq_ok_iff, pure_eq_ok_iff]
  exact ⟨r, hr, _, ⟨hr', hvalid, rfl⟩, rfl⟩

end Amounts

section Deposits

variable {s s' : State} {user : Name} {sym : ExtendedSymbol} {toAdd : ExtendedAsset} {n : ℕ}

/-- There are keys for `n` more rows, and one on top, in the scope of the user. -/
def KeysLeft (s : State) (user : Name) (n : ℕ) : Prop :=
  ∀ id ∈ dexacntIds s user, id + n + 1 < 2 ^ 64 - 2

theorem KeysLeft.succeeds (h : KeysLeft s user n) :
    Succeeds (availablePrimaryKey (dexacntIds s user)) := by
  have key : ∀ (keys : List ℕ) (m : ℕ), m < 2 ^ 64 - 2 → (∀ id ∈ keys, id + n + 1 < 2 ^ 64 - 2) →
      keys.foldl (fun next pk => max next (pk + 1)) m < 2 ^ 64 - 2 := by
    intro keys
    induction keys with
    | nil =>
        intro m hm _
        exact hm
    | cons id keys ih =>
        intro m hm hkeys
        obtain ⟨hid, hkeys⟩ := List.forall_mem_cons.mp hkeys
        refine ih _ (max_lt hm ?_) hkeys
        omega
  simp only [availablePrimaryKey, succeeds_bind_iff, check_eq_ok_iff, succeeds_pure, and_true]
  exact ⟨⟨⟩, key _ 0 (by norm_num) h⟩

theorem mem_dexacntIds_iff {id : ℕ} :
    id ∈ dexacntIds s user ↔ ∃ balance, s.dexacnts.find? (user, id) = some balance := by
  unfold dexacntIds
  rw [List.mem_map]
  constructor
  · rintro ⟨⟨⟨u, i⟩, balance⟩, hmem, rfl⟩
    rw [List.mem_filter, decide_eq_true_eq] at hmem
    obtain ⟨hrow, rfl⟩ := hmem
    exact ⟨balance, Table.mem_rows_iff.mp hrow⟩
  · rintro ⟨balance, hrow⟩
    exact ⟨((user, id), balance),
      List.mem_filter.mpr ⟨Table.mem_rows_iff.mpr hrow, decide_eq_true rfl⟩, rfl⟩

/-- A new key is the first one, or next to a key in use. -/
theorem eq_of_availablePrimaryKey
    {keys : List ℕ} {id : ℕ} (h : availablePrimaryKey keys = .ok id) :
    id = 0 ∨ ∃ pk ∈ keys, id = pk + 1 := by
  have key : ∀ (l : List ℕ) (m : ℕ),
      l.foldl (fun next pk => max next (pk + 1)) m = m ∨
        ∃ pk ∈ l, l.foldl (fun next pk => max next (pk + 1)) m = pk + 1 := by
    intro l
    induction l with
    | nil =>
        intro m
        exact Or.inl rfl
    | cons a as ih =>
        intro m
        rcases ih (max m (a + 1)) with hmax | ⟨pk, hpk, heq⟩
        · rcases max_choice m (a + 1) with hm | ha
          · exact Or.inl (hmax.trans hm)
          · exact Or.inr ⟨a, List.mem_cons_self, hmax.trans ha⟩
        · exact Or.inr ⟨pk, List.mem_cons_of_mem a hpk, heq⟩
  simp only [availablePrimaryKey, bind_eq_ok_iff, check_eq_ok_iff, pure_eq_ok_iff] at h
  obtain ⟨_, -, rfl⟩ := h
  exact key keys 0

/-- A payment takes up one key at most. -/
theorem KeysLeft.add
    (h : KeysLeft s user (n + 1)) (hadd : addSignedExtBalance s user toAdd = .ok s')
    (hn : n + 1 < 2 ^ 64 - 2) : KeysLeft s' user n := by
  simp only [addSignedExtBalance, bind_eq_ok_iff, check_eq_ok_iff] at hadd
  obtain ⟨_, -, hadd⟩ := hadd
  cases hrow : findDexacnt s user toAdd.extendedSymbol with
  | none =>
      simp only [hrow, bind_eq_ok_iff, emplace_eq_ok_iff, pure_eq_ok_iff] at hadd
      obtain ⟨_, -, id, hid, _, ⟨-, rfl⟩, rfl⟩ := hadd
      intro i hi
      obtain ⟨balance, hi⟩ := mem_dexacntIds_iff.mp hi
      rw [Table.find?_put] at hi
      split_ifs at hi with hkey
      · obtain ⟨-, rfl⟩ := Prod.mk.inj hkey
        rcases eq_of_availablePrimaryKey hid with rfl | ⟨pk, hpk, rfl⟩
        · omega
        · have hleft := h pk hpk
          omega
      · have hleft := h i (mem_dexacntIds_iff.mpr ⟨balance, hi⟩)
        omega
  | some found =>
      obtain ⟨key, balance⟩ := found
      simp only [hrow, bind_eq_ok_iff, pure_eq_ok_iff] at hadd
      obtain ⟨balance', -, _, -, rfl⟩ := hadd
      obtain ⟨hfind, -, -⟩ := findDexacnt_eq_some hrow
      intro i hi
      rw [dexacntIds_put hfind] at hi
      have hleft := h i hi
      omega

theorem depositOf_of_none (hnone : findDexacnt s user sym = none) : depositOf s user sym = 0 := by
  rw [depositOf, deposited]
  refine Table.sum_eq_zero ?_
  rintro ⟨u, i⟩ balance hbalance
  rw [if_neg]
  rintro ⟨rfl, hsym⟩
  exact findDexacnt_eq_none hnone hbalance hsym

/-- As long as there are keys, a credit is possible iff the deposit stays in range. -/
theorem succeeds_credit_iff_room
    (ok : DepositsOk s.dexacnts) (hkeys : KeysLeft s user n) (hvalid : toAdd.quantity.IsValid)
    (hnonneg : 0 ≤ toAdd.quantity.amount.toInt) :
    Succeeds (addSignedExtBalance s user toAdd) ↔
      depositOf s user toAdd.extendedSymbol + toAdd.quantity.amount.toInt ≤ maxAmount := by
  rw [succeeds_credit_iff ok hvalid hnonneg, CreditFits]
  cases hrow : findDexacnt s user toAdd.extendedSymbol with
  | none =>
      rw [depositOf_of_none hrow, zero_add]
      exact iff_of_true hkeys.succeeds hvalid.1.2
  | some found =>
      rw [depositOf_of_row ok hrow]

end Deposits

section Shares

variable {s : State} {owner : Name} {value : Asset}

/-- An owner can be debited any shares that it holds. -/
theorem succeeds_subBalance
    (agree : SymbolsAgree s) (ok : SharesOk s)
    (hsymbol : lpSymbol s value.symbol.code = some value.symbol) (hpos : 0 < value.amount.toInt)
    (hrange : AmountInRange value.amount)
    (hle : value.amount.toInt ≤ lpBalance s value.symbol.code owner) :
    Succeeds (subBalance s owner value) := by
  have hinfoLe := hle
  rw [ok.agree] at hinfoLe
  unfold lpBalance Table.weight at hle
  unfold lpInfo Table.weight at hinfoLe
  cases hrow : s.accounts.find? (owner, value.symbol.code) with
  | none =>
      rw [hrow] at hle
      exact absurd hpos hle.not_gt
  | some balance =>
      cases hinfo : s.userinfo.find? (value.symbol.code, owner) with
      | none =>
          rw [hinfo] at hinfoLe
          exact absurd hpos hinfoLe.not_gt
      | some info =>
          rw [hrow] at hle
          rw [hinfo] at hinfoLe
          simp only at hle hinfoLe
          have hsym : info.symbol = value.symbol :=
            Option.some.inj ((agree.info _ _ _ hinfo).symm.trans hsymbol)
          have hsym' := (agree.account _ _ _ _ hinfo hrow).trans hsym
          have hsub : ∀ row : Asset, Holdable row.amount → value.amount.toInt ≤ row.amount.toInt →
              AmountInRange (row.amount - value.amount) := by
            intro row hrow hle
            have hdiff : (row.amount - value.amount).toInt =
                row.amount.toInt - value.amount.toInt := by
              have hneg := amountInRange_neg hrange
              rw [Int64.sub_eq_add_neg, toInt_add_of_inRange_both hrow.inRange hneg,
                toInt_neg_of_inRange hrange]
              ring
            have hmax := hrow.inRange
            unfold AmountInRange maxAmount at *
            omega
          simp only [subBalance, hrow, hinfo, succeeds_bind_iff, require_eq_ok_iff,
            check_eq_ok_iff, Asset.sub_eq_ok_iff, succeeds_pure, and_true, Option.some.injEq,
            exists_eq_left']
          exact ⟨⟨⟩, Int64.le_iff_toInt_le.mpr hle, ⟨⟩, Int64.le_iff_toInt_le.mpr hinfoLe, _,
            ⟨hsym'.symm, hsub _ (ok.account _ _ hrow) hle, rfl⟩, _,
            hsym.symm, hsub _ (ok.info _ _ hinfo) hinfoLe, rfl⟩

end Shares

section Sales

variable {s s' : State} {user : Name} {toSell minAsset1 minAsset2 : Asset} {token : CurrencyStats}

/-- A lower bound on a payment is met by `amount` of a reserve. -/
structure Meets (least : Asset) (pool : ExtendedAsset) (amount : ℤ) : Prop where
  symbol : least.symbol = pool.quantity.symbol
  nonneg : 0 ≤ least.amount.toInt
  le : least.amount.toInt ≤ amount

/-- The shares are held, are not all of the supply, and are worth the lower bounds, and the
deposits of the user have room for what they are worth. -/
structure Redeemable (s : State) (user : Name) (toSell minAsset1 minAsset2 : Asset)
    (token : CurrencyStats) : Prop where
  symbol : toSell.symbol = token.supply.symbol
  pos : 0 < toSell.amount.toInt
  held : toSell.amount.toInt ≤ lpBalance s toSell.symbol.code user
  part : toSell.amount.toInt < token.supply.amount.toInt
  meets : ∀ first, Meets (if first then minAsset1 else minAsset2) (token.reserve first)
    (token.redeemed toSell.amount.toInt first)
  room : ∀ first, depositOf s user (token.reserve first).extendedSymbol +
    token.redeemed toSell.amount.toInt first ≤ maxAmount

/-- The checks and payments of a sale or purchase, in their order. -/
theorem succeeds_addSignedLiq_iff
    {toAdd maxAsset1 maxAsset2 : Asset} {toPay1 toPay2 : ExtendedAsset}
    (htoken : s.stats.find? toAdd.symbol.code = some token)
    (hpay1 : toPay toAdd.amount token.supply.amount token.pool1 = .ok toPay1)
    (hpay2 : toPay toAdd.amount token.supply.amount token.pool2 = .ok toPay2) :
    Succeeds (addSignedLiq s user toAdd maxAsset1 maxAsset2) ↔
      toAdd.IsValid ∧
      (toPay1.quantity.symbol = maxAsset1.symbol ∧ toPay2.quantity.symbol = maxAsset2.symbol) ∧
      (toPay1.quantity.amount ≤ maxAsset1.amount ∧ toPay2.quantity.amount ≤ maxAsset2.amount) ∧
      ∃ s₁, addSignedExtBalance s user toPay1.neg = .ok s₁ ∧
        ∃ s₂, addSignedExtBalance s₁ user toPay2.neg = .ok s₂ ∧
          ∃ s₃, moveShares s₂ user toAdd = .ok s₃ ∧
            ∃ supply, token.supply.add toAdd = .ok supply ∧
              ∃ pool1, token.pool1.add toPay1 = .ok pool1 ∧
                ∃ pool2, token.pool2.add toPay2 = .ok pool2 ∧ supply.amount ≠ 0 := by
  simp only [addSignedLiq, succeeds_bind_iff, check_eq_ok_iff, require_eq_ok_iff, htoken,
    Option.some.injEq, exists_eq_left', hpay1, hpay2, Except.ok.injEq, succeeds_pure, and_true,
    exists_const]

/-- `pay` is what the sale changes the reserves by. -/
structure PaysOut (token : CurrencyStats) (toSell : Asset) (pay : Bool → ExtendedAsset) :
    Prop where
  toPay : ∀ first, toPay toSell.neg.amount token.supply.amount (token.reserve first) =
    .ok (pay first)
  symbol : ∀ first, (pay first).extendedSymbol = (token.reserve first).extendedSymbol
  amount : ∀ first,
    (pay first).quantity.amount.toInt = -token.redeemed toSell.amount.toInt first
  inRange : ∀ first, AmountInRange (pay first).quantity.amount

theorem exists_paysOut
    (ok : PoolOk token) (hvalid : ∀ first, (token.reserve first).quantity.symbol.isValid = true)
    (hn : 0 < toSell.amount.toInt) (hle : toSell.amount.toInt ≤ token.supply.amount.toInt) :
    ∃ pay, PaysOut token toSell pay := by
  have hrange : AmountInRange toSell.amount := by
    have hmax := ok.supply_inRange.2
    unfold AmountInRange maxAmount at *
    omega
  choose pay hpay hsym hamount hpayRange using fun first =>
    toPay_of_sale ok first (hvalid first) hn hrange hle
  exact ⟨pay, hpay, hsym, hamount, hpayRange⟩

variable {pay : Bool → ExtendedAsset}

theorem PaysOut.quantitySymbol (h : PaysOut token toSell pay) (first : Bool) :
    (pay first).quantity.symbol = (token.reserve first).quantity.symbol :=
  congrArg ExtendedSymbol.sym (h.symbol first)

/-- The user is credited what the shares are worth. -/
theorem PaysOut.credit (h : PaysOut token toSell pay) (first : Bool) :
    (pay first).neg.quantity.amount.toInt = token.redeemed toSell.amount.toInt first := by
  rw [ExtendedAsset.neg_quantity, Asset.neg_amount, toInt_neg_of_inRange (h.inRange first),
    h.amount, neg_neg]

theorem PaysOut.le_neg_iff
    (h : PaysOut token toSell pay) {least : Asset} (hleast : 0 ≤ least.amount) (first : Bool) :
    (pay first).quantity.amount ≤ least.neg.amount ↔
      least.amount.toInt ≤ token.redeemed toSell.amount.toInt first := by
  rw [Int64.le_iff_toInt_le, h.amount, Asset.neg_amount, toInt_neg_of_nonneg hleast,
    neg_le_neg_iff]

/-- There is room for both payments iff there is room for each of them. -/
theorem PaysOut.succeeds_iff
    (h : PaysOut token toSell pay) (pool : PoolOk token)
    (hvalid : ∀ first, (token.reserve first).quantity.symbol.isValid = true)
    (hn : 0 < toSell.amount.toInt) (ok : DepositsOk s.dexacnts) (hkeys : KeysLeft s user 1) :
    (∃ s₁, addSignedExtBalance s user (pay true).neg = .ok s₁ ∧
      Succeeds (addSignedExtBalance s₁ user (pay false).neg)) ↔
      ∀ first, depositOf s user (token.reserve first).extendedSymbol +
        token.redeemed toSell.amount.toInt first ≤ maxAmount := by
  have hpayValid : ∀ first, (pay first).neg.quantity.IsValid := by
    intro first
    refine ⟨amountInRange_neg (h.inRange first), ?_⟩
    rw [← hvalid first]
    exact congrArg Symbol.isValid (h.quantitySymbol first)
  have hnonneg : ∀ first, 0 ≤ (pay first).neg.quantity.amount.toInt := by
    intro first
    rw [h.credit]
    exact pool.redeemed_nonneg hn.le first
  have hcredit : ∀ first (s₁ : State) (n : ℕ), DepositsOk s₁.dexacnts → KeysLeft s₁ user n →
      (Succeeds (addSignedExtBalance s₁ user (pay first).neg) ↔
        depositOf s₁ user (token.reserve first).extendedSymbol +
          token.redeemed toSell.amount.toInt first ≤ maxAmount) := by
    intro first s₁ n ok hkeys
    rw [succeeds_credit_iff_room ok hkeys (hpayValid first) (hnonneg first),
      ExtendedAsset.neg_extendedSymbol, h.symbol, h.credit]
  have hsecond : ∀ s₁, addSignedExtBalance s user (pay true).neg = .ok s₁ →
      (Succeeds (addSignedExtBalance s₁ user (pay false).neg) ↔
        depositOf s user (token.reserve false).extendedSymbol +
          token.redeemed toSell.amount.toInt false ≤ maxAmount) := by
    intro s₁ h1
    have hkept := depositOf_credit (token.reserve false).extendedSymbol ok h1
    have hne : (token.reserve true).extendedSymbol ≠ (token.reserve false).extendedSymbol :=
      pool.reserve_ne true
    rw [ExtendedAsset.neg_extendedSymbol, h.symbol, if_neg hne, add_zero] at hkept
    rw [hcredit false s₁ 0 (ok.add h1) (hkeys.add h1 (by norm_num)), hkept]
  rw [Bool.forall_bool]
  constructor
  · rintro ⟨s₁, h1, h2⟩
    exact ⟨(hsecond s₁ h1).mp h2, (hcredit true s 1 ok hkeys).mp ⟨s₁, h1⟩⟩
  · rintro ⟨hroom2, hroom1⟩
    obtain ⟨s₁, h1⟩ := (hcredit true s 1 ok hkeys).mpr hroom1
    exact ⟨s₁, h1, (hsecond s₁ h1).mpr hroom2⟩

variable {env : Env} {ctx : Ctx}

theorem redeemable_of_rmliquidity
    (inv : LpLedger s) (hkeys : KeysLeft s user 1)
    (hvalid : ∀ first, (token.reserve first).quantity.symbol.isValid = true)
    (htoken : s.stats.find? toSell.symbol.code = some token)
    (h : rmliquidity env ctx s user toSell minAsset1 minAsset2 = .ok s') :
    Redeemable s user toSell minAsset1 minAsset2 token := by
  simp only [rmliquidity, bind_eq_ok_iff, check_eq_ok_iff] at h
  obtain ⟨_, -, _, -, _, hpos, _, ⟨hmin1, hmin2⟩, h⟩ := h
  have hok := inv.pools _ token htoken
  have hn : 0 < toSell.amount.toInt := Int64.lt_iff_toInt_lt.mp hpos
  have hneg := toInt_neg_of_nonneg (Int64.le_of_lt hpos)
  obtain ⟨_, token', trade, hbalance, -⟩ := liquidityTrade_of_addSignedLiq inv h
  obtain rfl := Option.some.inj (htoken.symm.trans trade.before)
  obtain ⟨-, -, -, -, -, -, -, -, -, -, -, -, inv', -, -⟩ := inv.addSignedLiq h
  rw [Asset.neg_symbol, Asset.neg_amount, hneg] at hbalance
  have hheld : toSell.amount.toInt ≤ lpBalance s toSell.symbol.code user := by
    have hleft := inv'.shares.lpBalance_nonneg toSell.symbol.code user
    omega
  have hpart : toSell.amount.toInt < token.supply.amount.toInt := by
    have hleft := (inv'.pools _ token' trade.after).supply_pos
    have hsupply := trade.supply
    rw [Asset.neg_symbol, hbalance] at hsupply
    omega
  obtain ⟨pay, paid⟩ := exists_paysOut hok hvalid hn hpart.le
  have htoken' : s.stats.find? toSell.neg.symbol.code = some token := htoken
  obtain ⟨-, ⟨hsym1, hsym2⟩, ⟨hle1, hle2⟩, s₁, h1, s₂, h2, _, -, _, hsupply, -⟩ :=
    (succeeds_addSignedLiq_iff htoken' (paid.toPay true) (paid.toPay false)).mp ⟨s', h⟩
  refine ⟨(Asset.add_eq_ok_iff.mp hsupply).1, hn, hheld, hpart, ?_,
    (paid.succeeds_iff hok hvalid hn inv.deposits hkeys).mp ⟨s₁, h1, s₂, h2⟩⟩
  rintro (_ | _)
  · exact ⟨hsym2.symm.trans (paid.quantitySymbol false), Int64.le_iff_toInt_le.mp hmin2,
      (paid.le_neg_iff hmin2 false).mp hle2⟩
  · exact ⟨hsym1.symm.trans (paid.quantitySymbol true), Int64.le_iff_toInt_le.mp hmin1,
      (paid.le_neg_iff hmin1 true).mp hle1⟩

theorem rmliquidity_of_redeemable
    (inv : LpLedger s) (agree : SymbolsAgree s) (hopen : env.isDexOpen = true)
    (hauth : user ∈ ctx.auths) (hkeys : KeysLeft s user 1)
    (hvalid : ∀ first, (token.reserve first).quantity.symbol.isValid = true)
    (htoken : s.stats.find? toSell.symbol.code = some token)
    (h : Redeemable s user toSell minAsset1 minAsset2 token) :
    Succeeds (rmliquidity env ctx s user toSell minAsset1 minAsset2) := by
  have hok := inv.pools _ token htoken
  have hn := h.pos
  have hsale := h.part
  have hrange : AmountInRange toSell.amount := by
    have hmax := hok.supply_inRange.2
    unfold AmountInRange maxAmount at *
    omega
  have hneg := toInt_neg_of_inRange hrange
  have hlp : lpSymbol s toSell.symbol.code = some toSell.symbol := by
    rw [lpSymbol, htoken, h.symbol]
    rfl
  obtain ⟨pay, paid⟩ := exists_paysOut hok hvalid hn hsale.le
  obtain ⟨s₁, h1, s₂, h2⟩ := (paid.succeeds_iff hok hvalid hn inv.deposits hkeys).mpr h.room
  have hkept : KeepsShares s s₂ := by
    have hkept1 := addSignedExtBalance_keepsShares h1
    have hkept2 := addSignedExtBalance_keepsShares h2
    exact ⟨hkept2.accounts.trans hkept1.accounts, hkept2.userinfo.trans hkept1.userinfo,
      hkept2.stats.trans hkept1.stats⟩
  have hmoved : Succeeds (moveShares s₂ user toSell.neg) := by
    have hnotPos : ¬ 0 < toSell.neg.amount := by
      rw [Int64.lt_iff_toInt_lt, Int64.toInt_zero, Asset.neg_amount, hneg]
      omega
    have hback : toSell.neg.neg = toSell :=
      congrArg (fun amount => (⟨amount, toSell.symbol⟩ : Asset)) Int64.neg_neg
    rw [moveShares, if_neg hnotPos, hback]
    refine succeeds_subBalance (agree.of_keepsShares hkept)
      (inv.shares.of_same hkept.accounts hkept.userinfo) ?_ hn hrange ?_
    · rw [lpSymbol_of_stats hkept.stats, hlp]
    · rw [lpBalance_of_keepsShares hkept]
      exact h.held
  obtain ⟨s₃, h3⟩ := hmoved
  have hsupply := toInt_add_of_inRange_both hok.supply_inRange (amountInRange_neg hrange)
  rw [hneg] at hsupply
  have hsupplyRange : AmountInRange (token.supply.amount + toSell.neg.amount) := by
    have hmax := hok.supply_inRange.2
    rw [Asset.neg_amount]
    unfold AmountInRange maxAmount at *
    omega
  have hreserveRange : ∀ first,
      AmountInRange ((token.reserve first).quantity.amount + (pay first).quantity.amount) := by
    intro first
    have hsum := toInt_add_of_inRange_both (hok.reserve_inRange first) (paid.inRange first)
    have hmax := (hok.reserve_inRange first).2
    have hnonneg := hok.redeemed_nonneg hn.le first
    have hle := hok.redeemed_le hsale.le first
    rw [paid.amount] at hsum
    unfold AmountInRange maxAmount at *
    omega
  have hmin : ∀ least : Asset, 0 ≤ least.amount.toInt → 0 ≤ least.amount := by
    intro least hle
    rw [Int64.le_iff_toInt_le, Int64.toInt_zero]
    exact hle
  have hmeets1 := h.meets true
  have hmeets2 := h.meets false
  have hmin1 := hmin _ hmeets1.nonneg
  have hmin2 := hmin _ hmeets2.nonneg
  have hposAmount : 0 < toSell.amount := by
    rw [Int64.lt_iff_toInt_lt, Int64.toInt_zero]
    exact hn
  simp only [rmliquidity, succeeds_bind_iff, check_eq_ok_iff, requireAuth_eq_ok_iff]
  refine ⟨⟨⟩, hopen, ⟨⟩, hauth, ⟨⟩, hposAmount, ⟨⟩, ⟨hmin1, hmin2⟩, ?_⟩
  have htoken' : s.stats.find? toSell.neg.symbol.code = some token := htoken
  refine (succeeds_addSignedLiq_iff htoken' (paid.toPay true) (paid.toPay false)).mpr ?_
  refine ⟨⟨amountInRange_neg hrange, agree.valid _ _ hlp⟩, ⟨?_, ?_⟩, ⟨?_, ?_⟩, s₁, h1, s₂, h2,
    s₃, h3, _, Asset.add_eq_ok_iff.mpr ⟨h.symbol, hsupplyRange, rfl⟩, _,
    ExtendedAsset.add_eq_ok_iff.mpr ⟨paid.symbol true, hreserveRange true, rfl⟩, _,
    ExtendedAsset.add_eq_ok_iff.mpr ⟨paid.symbol false, hreserveRange false, rfl⟩, ?_⟩
  · exact (paid.quantitySymbol true).trans hmeets1.symbol.symm
  · exact (paid.quantitySymbol false).trans hmeets2.symbol.symm
  · exact (paid.le_neg_iff hmin1 true).mpr hmeets1.le
  · exact (paid.le_neg_iff hmin2 false).mpr hmeets2.le
  · intro hzero
    have hzero' : (token.supply.amount + -toSell.amount).toInt = 0 := by
      rw [← Int64.toInt_zero]
      exact congrArg Int64.toInt hzero
    omega

/-- The deposits grow by what the shares are worth. -/
theorem depositOf_of_rmliquidity
    (inv : LpLedger s) (hkeys : KeysLeft s user 1)
    (hvalid : ∀ first, (token.reserve first).quantity.symbol.isValid = true)
    (htoken : s.stats.find? toSell.symbol.code = some token)
    (h : rmliquidity env ctx s user toSell minAsset1 minAsset2 = .ok s') (first : Bool) :
    depositOf s' user (token.reserve first).extendedSymbol =
      depositOf s user (token.reserve first).extendedSymbol +
        token.redeemed toSell.amount.toInt first := by
  have hok := inv.pools _ token htoken
  have hsale := redeemable_of_rmliquidity inv hkeys hvalid htoken h
  obtain ⟨pay, paid⟩ := exists_paysOut hok hvalid hsale.pos hsale.part.le
  obtain ⟨token₀, toPay1, toPay2, s₁, s₂, s₃, _, _, _, hsell, htoken₀, hpay1, hpay2, h1, h2, h3, -,
    -, -, -, rfl⟩ := addSignedLiq_eq_ok (rmliquidity_eq_ok h).2.2
  obtain rfl := Option.some.inj (htoken.symm.trans htoken₀)
  obtain rfl := Except.ok.inj (hpay1.symm.trans (paid.toPay true))
  obtain rfl := Except.ok.inj (hpay2.symm.trans (paid.toPay false))
  have ok₂ := (inv.deposit h1).deposit h2
  have hmoved := (moveShares_credited ok₂.shares hsell.1 h3).dexacnts
  have hpaid := depositOf_two_debits inv.deposits paid.symbol hok.reserve_ne h1 h2 first
  rw [paid.amount, sub_neg_eq_add] at hpaid
  rw [← hpaid]
  exact depositOf_of_same hmoved _

end Sales

section Exit

variable {env : Env} {ctx : Ctx} {w : World} {user : Name} {toSell minAsset1 minAsset2 : Asset}

/-- Shares of a pool can be sold for what they are worth, whoever holds them, whatever the others
have done, and whether or not the account is frozen. -/
theorem shares_can_be_redeemed [Doubles] (hw : Reaches env w) (hkeys : KeysLeft w.state user 1) :
    (Succeeds (rmliquidity env ctx w.state user toSell minAsset1 minAsset2) ↔
      env.isDexOpen = true ∧ user ∈ ctx.auths ∧
        ∃ token, w.state.stats.find? toSell.symbol.code = some token ∧
          Redeemable w.state user toSell minAsset1 minAsset2 token) ∧
    ∀ s' token, rmliquidity env ctx w.state user toSell minAsset1 minAsset2 = .ok s' →
      w.state.stats.find? toSell.symbol.code = some token → ∀ first,
        depositOf s' user (token.reserve first).extendedSymbol =
          depositOf w.state user (token.reserve first).extendedSymbol +
            token.redeemed toSell.amount.toInt first := by
  have inv := lpLedger_of_reaches hw
  have agree := symbolsAgree_of_reaches hw
  have hvalid : ∀ token, w.state.stats.find? toSell.symbol.code = some token →
      ∀ first, (token.reserve first).quantity.symbol.isValid = true := by
    intro token htoken
    have hboth := (registered_of_reaches hw).2 _ _ _ (poolTokens_of_find? htoken)
    rintro (_ | _)
    · exact hboth.2
    · exact hboth.1
  refine ⟨⟨?_, ?_⟩, ?_⟩
  · rintro ⟨s', h⟩
    have hparts := h
    simp only [rmliquidity, bind_eq_ok_iff, check_eq_ok_iff, requireAuth_eq_ok_iff] at hparts
    obtain ⟨_, hopen, _, hauth, -⟩ := hparts
    obtain ⟨token, _, _, _, _, _, _, _, _, -, htoken, -⟩ :=
      addSignedLiq_eq_ok (rmliquidity_eq_ok h).2.2
    exact ⟨hopen, hauth, token, htoken,
      redeemable_of_rmliquidity inv hkeys (hvalid token htoken) htoken h⟩
  · rintro ⟨hopen, hauth, token, htoken, hsale⟩
    exact rmliquidity_of_redeemable inv agree hopen hauth hkeys (hvalid token htoken) htoken hsale
  · intro s' token h htoken first
    exact depositOf_of_rmliquidity inv hkeys (hvalid token htoken) htoken h first

open Binary64

/-- Alice sells 1000 of her shares, and gets what they are worth of AAA. -/
theorem shares_can_be_redeemed_sample :
    ∃ w s' token, Reaches sampleEnv w ∧
      w.state.stats.find? (sampleSymbol "AB").code = some token ∧
      depositOf s' (nameLiteral "alice") token.pool1.extendedSymbol =
        depositOf w.state (nameLiteral "alice") token.pool1.extendedSymbol +
          token.redeemed 1000 true := by
  obtain ⟨h, w, hplay, hobs⟩ := exists_of_play
    (show (play (stepWith sampleEnv) sampleWorld samplePool).map (fun r =>
        ((rmliquidity sampleEnv (sampleCtx 2000 "alice") r.2.state (nameLiteral "alice")
            ⟨1000, sampleSymbol "AB"⟩ (sampleA 900).quantity (sampleB 900).quantity).isOk,
          decide (∀ id ∈ dexacntIds r.2.state (nameLiteral "alice"), id + 1 + 1 < 2 ^ 64 - 2))) =
      some (true, true) by decide +kernel)
  obtain ⟨hsell, hkeys⟩ := Prod.mk.inj hobs
  rw [decide_eq_true_eq] at hkeys
  obtain ⟨s', hsell⟩ := succeeds_iff_isOk.mpr hsell
  have hw := reaches_of_play sampleWorld_genesis hplay
  obtain ⟨hiff, hgain⟩ := shares_can_be_redeemed hw hkeys
  obtain ⟨-, -, token, htoken, -⟩ := hiff.mp ⟨s', hsell⟩
  exact ⟨w, s', token, hw, htoken, hgain s' token hsell htoken true⟩

end Exit

end Lemonade
