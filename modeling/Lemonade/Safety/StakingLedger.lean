import Lemonade.Contract.Frames
import Mathlib.Tactic

/-!
# The staking ledger

A product carries the total of the stakes in it and the list of their owners; the
stakes themselves are rows of another table.  `StakingLedger` says that the two
agree, and that every stake respects the terms of its product.

All changes of the two tables are of two kinds: a row is stored and its product
adjusted (`StakingLedger.put`), or a row is removed and its product adjusted
(`StakingLedger.erase`).
-/

namespace Lemonade

open Kernel

section Invariant

/-- What a row adds to the total of a product. -/
def stakeOf (productId : Nat) (_ : Name × Nat) (row : Staking) : ℤ :=
  if row.productId = productId then row.balance.amount.toInt else 0

/-- Sum of all stakes in a product. -/
def staked (s : State) (productId : Nat) : ℤ := s.stakings.sum (stakeOf productId)

/-- The owner has a row for the product. -/
def HasStake (s : State) (owner : Name) (productId : Nat) : Prop :=
  ∃ i row, s.stakings.find? (owner, i) = some row ∧ row.productId = productId

/-- A product agrees with the stakes in it. -/
structure ProductOk (s : State) (id : Nat) (p : Product) : Prop where
  total : p.currentAmount.amount.toInt = staked s id
  symbol : p.currentAmount.symbol = p.amountPerAccount.symbol
  yields : p.minimumYield ≤ p.maximumYield
  buyers_nodup : p.buyers.Nodup
  mem_buyers_iff : ∀ owner, owner ∈ p.buyers ↔ HasStake s owner id
  limit : 0 < p.maximumAmountLimit.amount →
    p.currentAmount.amount ≤ p.maximumAmountLimit.amount

/-- A stake respects the terms of its product. -/
structure StakeOk (row : Staking) (p : Product) : Prop where
  positive : 0 < row.balance.amount
  inRange : AmountInRange row.balance.amount
  symbol : row.balance.symbol = p.amountPerAccount.symbol
  minimumYield_le : p.minimumYield ≤ row.currentYield
  le_maximumYield : row.currentYield ≤ p.maximumYield
  limit : 0 < p.amountPerAccount.amount → row.balance.amount ≤ p.amountPerAccount.amount

structure StakingLedger (s : State) : Prop where
  product : ∀ id p, s.products.find? id = some p → ProductOk s id p
  stake : ∀ key row, s.stakings.find? key = some row →
    ∃ p, s.products.find? row.productId = some p ∧ StakeOk row p
  atMostOne : ∀ owner i j row row', s.stakings.find? (owner, i) = some row →
    s.stakings.find? (owner, j) = some row' → row.productId = row'.productId → i = j
  names : ∀ i j p q, s.products.find? i = some p → s.products.find? j = some q →
    p.name = q.name → i = j

/-- The terms of a product, which no stake changes. -/
structure SameTerms (p p' : Product) : Prop where
  name : p'.name = p.name
  symbol : p'.currentAmount.symbol = p.currentAmount.symbol
  amountPerAccount : p'.amountPerAccount = p.amountPerAccount
  maximumAmountLimit : p'.maximumAmountLimit = p.maximumAmountLimit
  minimumYield : p'.minimumYield = p.minimumYield
  maximumYield : p'.maximumYield = p.maximumYield
  duration : p'.duration = p.duration
  hasLemRewards : p'.hasLemRewards = p.hasLemRewards
  hasPrediction : p'.hasPrediction = p.hasPrediction

/-- A stake adds to the total of its product, whether the owner has a row or not. -/
theorem stake_products [Doubles]
    {env : Env} {ctx : Ctx} {s s' : State} {owner productName : Name} {quantity : Asset}
    {pricePrediction : Option Name} {sent : List Inline}
    (h : stake env ctx s owner quantity productName pricePrediction = .ok (s', sent)) :
    ∃ id p p', findProduct s productName = some (id, p) ∧
      s'.products = s.products.put id p' ∧ SameTerms p p' ∧
      p.currentAmount.add quantity = .ok p'.currentAmount := by
  obtain ⟨id, p, _, _, -, -, -, hproduct, -, -, hcase⟩ := stake_eq_ok h
  rcases hcase with ⟨-, -, hnew⟩ | ⟨_, _, -, hmore⟩
  · obtain ⟨_, _, _, _, -, -, -, hadd, rfl⟩ := stakeNew_eq_ok hnew
    refine ⟨id, p, _, hproduct, rfl, ?_, hadd⟩
    obtain ⟨-, -, rfl⟩ := Asset.add_eq_ok_iff.mp hadd
    exact ⟨rfl, rfl, rfl, rfl, rfl, rfl, rfl, rfl, rfl⟩
  · obtain ⟨_, _, _, -, hadd, rfl⟩ := stakeMore_tables hmore
    refine ⟨id, p, _, hproduct, rfl, ?_, hadd⟩
    obtain ⟨-, -, rfl⟩ := Asset.add_eq_ok_iff.mp hadd
    exact ⟨rfl, rfl, rfl, rfl, rfl, rfl, rfl, rfl, rfl⟩

theorem StakeOk.of_sameTerms
    {row : Staking} {p p' : Product}
    (h : StakeOk row p) (terms : SameTerms p p') : StakeOk row p' where
  positive := h.positive
  inRange := h.inRange
  symbol := by
    rw [terms.amountPerAccount]
    exact h.symbol
  minimumYield_le := by
    rw [terms.minimumYield]
    exact h.minimumYield_le
  le_maximumYield := by
    rw [terms.maximumYield]
    exact h.le_maximumYield
  limit := by
    rw [terms.amountPerAccount]
    exact h.limit

theorem StakeOk.positive_toInt
    {row : Staking} {p : Product}
    (h : StakeOk row p) : 0 < row.balance.amount.toInt :=
  Int64.lt_iff_toInt_lt.mp h.positive

theorem StakingLedger.stakeOk
    {s : State} (inv : StakingLedger s) {key : Name × Nat} {row : Staking} {p : Product}
    (hrow : s.stakings.find? key = some row)
    (hp : s.products.find? row.productId = some p) : StakeOk row p := by
  obtain ⟨q, hq, hok⟩ := inv.stake key row hrow
  obtain rfl := Option.some.inj (hp.symm.trans hq)
  exact hok

end Invariant

section Storing

variable {s s' : State} {owner : Name} {i id : Nat} {p p' : Product} {row' : Staking}

/-- The row under a key, if there is one, belongs to the product `id`. -/
def BelongsTo (s : State) (key : Name × Nat) (id : Nat) : Prop :=
  ∀ row, s.stakings.find? key = some row → row.productId = id

theorem hasStake_put
    (hstakings : s'.stakings = s.stakings.put (owner, i) row')
    (hold : BelongsTo s (owner, i) row'.productId) (o : Name) (k : Nat) :
    HasStake s' o k ↔ HasStake s o k ∨ o = owner ∧ k = row'.productId := by
  constructor
  · rintro ⟨j, row, hrow, rfl⟩
    rw [hstakings, Table.find?_put] at hrow
    split_ifs at hrow with hkey
    · obtain ⟨rfl, rfl⟩ := Prod.mk.inj hkey
      obtain rfl := Option.some.inj hrow
      exact Or.inr ⟨rfl, rfl⟩
    · exact Or.inl ⟨j, row, hrow, rfl⟩
  · rintro (⟨j, row, hrow, rfl⟩ | ⟨rfl, rfl⟩)
    · by_cases hkey : (owner, i) = (o, j)
      · obtain ⟨rfl, rfl⟩ := Prod.mk.inj hkey
        exact ⟨i, row', by simp [hstakings], (hold row hrow).symm⟩
      · refine ⟨j, row, ?_, rfl⟩
        rw [hstakings, Table.find?_put_of_ne _ _ hkey]
        exact hrow
    · exact ⟨i, row', by simp [hstakings], rfl⟩

theorem staked_put
    (hstakings : s'.stakings = s.stakings.put (owner, i) row') (k : Nat) :
    staked s' k =
      staked s k - s.stakings.weight (stakeOf k) (owner, i) + stakeOf k (owner, i) row' := by
  rw [staked, hstakings, Table.sum_put]
  rfl

theorem weight_stakeOf_of_ne
    {key : Name × Nat} (hold : BelongsTo s key id) {k : Nat} (hk : id ≠ k) :
    s.stakings.weight (stakeOf k) key = 0 := by
  cases hrow : s.stakings.find? key with
  | none => exact Table.weight_of_find?_none hrow
  | some row =>
      rw [Table.weight_of_find? hrow, stakeOf, hold row hrow]
      exact if_neg hk

/-- A product that keeps its terms keeps its name. -/
theorem StakingLedger.names_put
    (inv : StakingLedger s) (hp : s.products.find? id = some p)
    (hproducts : ∀ k, s'.products.find? k = if id = k then some p' else s.products.find? k)
    (terms : SameTerms p p') {a b : Nat} {q r : Product} (hq : s'.products.find? a = some q)
    (hr : s'.products.find? b = some r) (hname : q.name = r.name) : a = b := by
  rw [hproducts] at hq hr
  split_ifs at hq hr with ha hb hb
  · exact ha.symm.trans hb
  · obtain rfl := Option.some.inj hq
    exact ha.symm.trans (inv.names _ b p r hp hr (terms.name.symm.trans hname))
  · obtain rfl := Option.some.inj hr
    exact (inv.names a _ q p hq hp (hname.trans terms.name)).trans hb
  · exact inv.names a b q r hq hr hname

/-- The rows that were there stay good under a product that keeps its terms. -/
theorem StakingLedger.stake_put
    (inv : StakingLedger s) (hp : s.products.find? id = some p)
    (hproducts : ∀ k, s'.products.find? k = if id = k then some p' else s.products.find? k)
    (terms : SameTerms p p') {key : Name × Nat} {row : Staking}
    (hrow : s.stakings.find? key = some row) :
    ∃ q, s'.products.find? row.productId = some q ∧ StakeOk row q := by
  obtain ⟨q, hq, hqok⟩ := inv.stake key row hrow
  rw [hproducts]
  split_ifs with hid
  · rw [← hid] at hq
    obtain rfl := Option.some.inj (hp.symm.trans hq)
    exact ⟨p', rfl, hqok.of_sameTerms terms⟩
  · exact ⟨q, hq, hqok⟩

/-- The product of a stored row agrees with the stakes again. -/
theorem ProductOk.put
    (hok : ProductOk s row'.productId p) (hstakings : s'.stakings = s.stakings.put (owner, i) row')
    (hold : BelongsTo s (owner, i) row'.productId)
    (hnew : s.stakings.find? (owner, i) = none → ¬ HasStake s owner row'.productId)
    (terms : SameTerms p p')
    (hbuyers : p'.buyers =
      if s.stakings.find? (owner, i) = none then p.buyers ++ [owner] else p.buyers)
    (htotal : p'.currentAmount.amount.toInt = p.currentAmount.amount.toInt -
      s.stakings.weight (stakeOf row'.productId) (owner, i) + row'.balance.amount.toInt)
    (hlimit : 0 < p'.maximumAmountLimit.amount →
      p'.currentAmount.amount ≤ p'.maximumAmountLimit.amount) :
    ProductOk s' row'.productId p' := by
  refine ⟨?_, ?_, ?_, ?_, ?_, hlimit⟩
  · rw [htotal, staked_put hstakings, hok.total, stakeOf, if_pos rfl]
  · rw [terms.symbol, terms.amountPerAccount]
    exact hok.symbol
  · rw [terms.minimumYield, terms.maximumYield]
    exact hok.yields
  · rw [hbuyers]
    split_ifs with hnone
    · have hnot : owner ∉ p.buyers := fun hm =>
        hnew hnone ((hok.mem_buyers_iff owner).mp hm)
      exact List.Nodup.append hok.buyers_nodup (List.nodup_singleton owner)
        (by simpa using hnot)
    · exact hok.buyers_nodup
  · intro o
    rw [hasStake_put hstakings hold o row'.productId, hbuyers, ← hok.mem_buyers_iff o]
    split_ifs with hnone
    · simp
    · obtain ⟨row, hrow⟩ := Option.ne_none_iff_exists'.mp hnone
      have howner : owner ∈ p.buyers :=
        (hok.mem_buyers_iff owner).mpr ⟨i, row, hrow, hold row hrow⟩
      constructor
      · exact Or.inl
      · rintro (hm | ⟨rfl, -⟩)
        · exact hm
        · exact howner

/-- The other products are not concerned. -/
theorem ProductOk.put_other
    {k : Nat} (hok : ProductOk s k p)
    (hstakings : s'.stakings = s.stakings.put (owner, i) row')
    (hold : BelongsTo s (owner, i) row'.productId) (hk : row'.productId ≠ k) :
    ProductOk s' k p := by
  refine ⟨?_, hok.symbol, hok.yields, hok.buyers_nodup, ?_, hok.limit⟩
  · rw [hok.total, staked_put hstakings, weight_stakeOf_of_ne hold hk, stakeOf, if_neg hk]
    ring
  · intro o
    rw [hok.mem_buyers_iff o, hasStake_put hstakings hold o k]
    simp [Ne.symm hk]

/-- A stored row is the only one of its owner and product. -/
theorem StakingLedger.atMostOne_put
    (inv : StakingLedger s) (hstakings : s'.stakings = s.stakings.put (owner, i) row')
    (hold : BelongsTo s (owner, i) row'.productId)
    (hnew : s.stakings.find? (owner, i) = none → ¬ HasStake s owner row'.productId)
    {o : Name} {a b : Nat} {row₁ row₂ : Staking} (h₁ : s'.stakings.find? (o, a) = some row₁)
    (h₂ : s'.stakings.find? (o, b) = some row₂) (hsame : row₁.productId = row₂.productId) :
    a = b := by
  -- a stored row that is new has no other beside it
  have hother : ∀ j row, (owner, i) ≠ (owner, j) → s.stakings.find? (owner, j) = some row →
      row.productId ≠ row'.productId := by
    intro j row hne hrow hsame
    cases hrow_i : s.stakings.find? (owner, i) with
    | none => exact hnew hrow_i ⟨j, row, hrow, hsame⟩
    | some old =>
        have hij := inv.atMostOne owner i j old row hrow_i hrow
          ((hold old hrow_i).trans hsame.symm)
        exact hne (by rw [hij])
  rw [hstakings, Table.find?_put] at h₁ h₂
  split_ifs at h₁ h₂ with ha hb hb
  · exact (Prod.mk.inj ha).2.symm.trans (Prod.mk.inj hb).2
  · obtain ⟨rfl, rfl⟩ := Prod.mk.inj ha
    obtain rfl := Option.some.inj h₁
    exact absurd hsame.symm (hother b row₂ hb h₂)
  · obtain ⟨rfl, rfl⟩ := Prod.mk.inj hb
    obtain rfl := Option.some.inj h₂
    exact absurd hsame (hother a row₁ ha h₁)
  · exact inv.atMostOne o a b row₁ row₂ h₁ h₂ hsame

/-- A row is stored under the product `id`, whose own row follows. -/
theorem StakingLedger.put
    (inv : StakingLedger s) (hp : s.products.find? id = some p)
    (hproducts : ∀ k, s'.products.find? k = if id = k then some p' else s.products.find? k)
    (hstakings : s'.stakings = s.stakings.put (owner, i) row')
    (hid : row'.productId = id) (hold : BelongsTo s (owner, i) id)
    (hnew : s.stakings.find? (owner, i) = none → ¬ HasStake s owner id)
    (terms : SameTerms p p')
    (hbuyers : p'.buyers =
      if s.stakings.find? (owner, i) = none then p.buyers ++ [owner] else p.buyers)
    (htotal : p'.currentAmount.amount.toInt = p.currentAmount.amount.toInt -
      s.stakings.weight (stakeOf id) (owner, i) + row'.balance.amount.toInt)
    (hrow' : StakeOk row' p')
    (hlimit : 0 < p'.maximumAmountLimit.amount →
      p'.currentAmount.amount ≤ p'.maximumAmountLimit.amount) :
    StakingLedger s' := by
  subst hid
  refine ⟨?_, ?_, ?_, ?_⟩
  · intro k q hq
    rw [hproducts] at hq
    split_ifs at hq with hk
    · subst hk
      obtain rfl := Option.some.inj hq
      exact (inv.product _ p hp).put hstakings hold hnew terms hbuyers htotal hlimit
    · exact (inv.product k q hq).put_other hstakings hold hk
  · intro key row hrow
    rw [hstakings, Table.find?_put] at hrow
    split_ifs at hrow with hkey
    · obtain rfl := Option.some.inj hrow
      exact ⟨p', by simp [hproducts], hrow'⟩
    · exact inv.stake_put hp hproducts terms hrow
  · intro o a b row₁ row₂ h₁ h₂ hsame
    exact inv.atMostOne_put hstakings hold hnew h₁ h₂ hsame
  · intro a b q r hq hr hname
    exact inv.names_put hp hproducts terms hq hr hname

end Storing

section Removing

variable {s s' : State} {owner : Name} {i : Nat} {p p' : Product} {row : Staking}

theorem hasStake_erase
    (inv : StakingLedger s) (hrow : s.stakings.find? (owner, i) = some row)
    (hstakings : s'.stakings = s.stakings.erase (owner, i)) (o : Name) (k : Nat) :
    HasStake s' o k ↔ HasStake s o k ∧ ¬ (o = owner ∧ k = row.productId) := by
  constructor
  · rintro ⟨j, r, hr, rfl⟩
    rw [hstakings, Table.find?_erase] at hr
    split_ifs at hr with hkey
    refine ⟨⟨j, r, hr, rfl⟩, ?_⟩
    rintro ⟨rfl, hsame⟩
    exact hkey (by rw [inv.atMostOne o i j row r hrow hr hsame.symm])
  · rintro ⟨⟨j, r, hr, rfl⟩, hne⟩
    have hkey : (owner, i) ≠ (o, j) := by
      intro hkey
      rw [hkey] at hrow
      obtain rfl := Option.some.inj (hrow.symm.trans hr)
      exact hne ⟨(Prod.mk.inj hkey).1.symm, rfl⟩
    refine ⟨j, r, ?_, rfl⟩
    rw [hstakings, Table.find?_erase_of_ne _ hkey]
    exact hr

theorem staked_erase
    (hrow : s.stakings.find? (owner, i) = some row)
    (hstakings : s'.stakings = s.stakings.erase (owner, i)) (k : Nat) :
    staked s' k = staked s k - stakeOf k (owner, i) row := by
  rw [staked, hstakings, Table.sum_erase, Table.weight_of_find? hrow, staked]

/-- The product of a removed row agrees with the stakes again. -/
theorem ProductOk.erase
    (hok : ProductOk s row.productId p) (inv : StakingLedger s)
    (hrow : s.stakings.find? (owner, i) = some row)
    (hstakings : s'.stakings = s.stakings.erase (owner, i))
    (terms : SameTerms p p')
    (hbuyers : p'.buyers = p.buyers.filter fun buyer => buyer ≠ owner)
    (htotal : p'.currentAmount.amount.toInt =
      p.currentAmount.amount.toInt - row.balance.amount.toInt)
    (hpos : 0 < row.balance.amount) :
    ProductOk s' row.productId p' := by
  refine ⟨?_, ?_, ?_, ?_, ?_, ?_⟩
  · rw [htotal, staked_erase hrow hstakings, hok.total, stakeOf, if_pos rfl]
  · rw [terms.symbol, terms.amountPerAccount]
    exact hok.symbol
  · rw [terms.minimumYield, terms.maximumYield]
    exact hok.yields
  · rw [hbuyers]
    exact hok.buyers_nodup.filter _
  · intro o
    rw [hbuyers, List.mem_filter, hok.mem_buyers_iff o,
      hasStake_erase inv hrow hstakings o row.productId]
    simp
  · intro hlimit
    rw [terms.maximumAmountLimit] at hlimit ⊢
    have hle := Int64.le_iff_toInt_le.mp (hok.limit hlimit)
    have hpos' := Int64.lt_iff_toInt_lt.mp hpos
    rw [Int64.le_iff_toInt_le, htotal]
    simp only [Int64.toInt_zero] at hpos'
    omega

/-- Another product has the same stakes as before. -/
theorem ProductOk.erase_other
    {k : Nat} (hok : ProductOk s k p) (inv : StakingLedger s)
    (hrow : s.stakings.find? (owner, i) = some row)
    (hstakings : s'.stakings = s.stakings.erase (owner, i)) (hk : row.productId ≠ k) :
    ProductOk s' k p := by
  refine ⟨?_, hok.symbol, hok.yields, hok.buyers_nodup, ?_, hok.limit⟩
  · rw [hok.total, staked_erase hrow hstakings, stakeOf, if_neg hk, sub_zero]
  · intro o
    rw [hok.mem_buyers_iff o, hasStake_erase inv hrow hstakings o k]
    simp [Ne.symm hk]

/-- A row is removed, and the row of its product follows. -/
theorem StakingLedger.erase
    (inv : StakingLedger s) (hrow : s.stakings.find? (owner, i) = some row)
    (hp : s.products.find? row.productId = some p)
    (hproducts : ∀ k, s'.products.find? k =
      if row.productId = k then some p' else s.products.find? k)
    (hstakings : s'.stakings = s.stakings.erase (owner, i))
    (terms : SameTerms p p')
    (hbuyers : p'.buyers = p.buyers.filter fun buyer => buyer ≠ owner)
    (htotal : p'.currentAmount.amount.toInt =
      p.currentAmount.amount.toInt - row.balance.amount.toInt)
    (hpos : 0 < row.balance.amount) :
    StakingLedger s' := by
  refine ⟨?_, ?_, ?_, ?_⟩
  · intro k q hq
    rw [hproducts] at hq
    split_ifs at hq with hk
    · subst hk
      obtain rfl := Option.some.inj hq
      exact (inv.product _ p hp).erase inv hrow hstakings terms hbuyers htotal hpos
    · exact (inv.product k q hq).erase_other inv hrow hstakings hk
  · intro key r hr
    rw [hstakings, Table.find?_erase] at hr
    split_ifs at hr with hkey
    exact inv.stake_put hp hproducts terms hr
  · intro o a b row₁ row₂ h₁ h₂ hsame
    rw [hstakings, Table.find?_erase] at h₁ h₂
    split_ifs at h₁ h₂
    exact inv.atMostOne o a b row₁ row₂ h₁ h₂ hsame
  · intro a b q r hq hr hname
    exact inv.names_put hp hproducts terms hq hr hname

end Removing

section Steps

variable {env : Env} {ctx : Ctx} {s s' : State} {sent : List Inline}

/-- The ledger only looks at the two tables. -/
theorem StakingLedger.congr
    (inv : StakingLedger s) (hp : s'.products = s.products) (hs : s'.stakings = s.stakings) :
    StakingLedger s' := by
  have hhas : ∀ o k, HasStake s' o k ↔ HasStake s o k := by
    intro o k
    rw [HasStake, hs, HasStake]
  have hstaked : ∀ k, staked s' k = staked s k := by
    intro k
    rw [staked, hs, staked]
  refine ⟨?_, ?_, ?_, ?_⟩
  · intro id p hfind
    rw [hp] at hfind
    have hok := inv.product id p hfind
    refine ⟨?_, hok.symbol, hok.yields, hok.buyers_nodup, ?_, hok.limit⟩
    · rw [hstaked]
      exact hok.total
    · intro o
      rw [hhas]
      exact hok.mem_buyers_iff o
  · rw [hp, hs]
    exact inv.stake
  · rw [hs]
    exact inv.atMostOne
  · rw [hp]
    exact inv.names

theorem StakingLedger.not_hasStake
    (inv : StakingLedger s) {id : Nat} (hfresh : s.products.find? id = none) (owner : Name) :
    ¬ HasStake s owner id := by
  rintro ⟨i, row, hrow, rfl⟩
  obtain ⟨p, hp, -⟩ := inv.stake _ row hrow
  cases hfresh.symm.trans hp

theorem StakingLedger.stakeOf_nonneg
    (inv : StakingLedger s) (k : Nat) (key : Name × Nat) (row : Staking)
    (hrow : s.stakings.find? key = some row) : 0 ≤ stakeOf k key row := by
  obtain ⟨p, -, hok⟩ := inv.stake key row hrow
  unfold stakeOf
  split_ifs
  · exact hok.positive_toInt.le
  · exact le_refl 0

theorem StakingLedger.addproduct
    (inv : StakingLedger s) {id : Nat} {p : Product}
    (hname : ∀ j q, s.products.find? j = some q → q.name ≠ p.name)
    (hfresh : s.products.find? id = none)
    (hzero : p.currentAmount = ⟨0, p.amountPerAccount.symbol⟩) (hbuyers : p.buyers = [])
    (hyield : p.minimumYield ≤ p.maximumYield) :
    StakingLedger { s with products := s.products.put id p } := by
  refine ⟨?_, ?_, inv.atMostOne, ?_⟩
  · intro k q hq
    simp only [Table.find?_put] at hq
    split_ifs at hq with hk
    · subst hk
      obtain rfl := Option.some.inj hq
      have hempty : staked s id = 0 := by
        refine Table.sum_eq_zero fun key row hrow => if_neg fun hid => ?_
        exact inv.not_hasStake hfresh key.1 ⟨key.2, row, hrow, hid⟩
      refine ⟨?_, by rw [hzero], hyield, by simp [hbuyers], ?_, ?_⟩
      · rw [hzero]
        exact hempty.symm
      · intro o
        rw [hbuyers]
        exact ⟨fun hm => (by cases hm), fun hm => absurd hm (inv.not_hasStake hfresh o)⟩
      · intro hlimit
        rw [hzero]
        exact Int64.le_of_lt hlimit
    · have hok := inv.product k q hq
      exact ⟨hok.total, hok.symbol, hok.yields, hok.buyers_nodup, hok.mem_buyers_iff, hok.limit⟩
  · intro key row hrow
    obtain ⟨q, hq, hqok⟩ := inv.stake key row hrow
    have hne : id ≠ row.productId := by
      rintro rfl
      cases hfresh.symm.trans hq
    exact ⟨q, (Table.find?_put_of_ne _ _ hne).trans hq, hqok⟩
  · intro a b q r hq hr hsame
    simp only [Table.find?_put] at hq hr
    split_ifs at hq hr with ha hb hb
    · exact ha.symm.trans hb
    · obtain rfl := Option.some.inj hq
      exact absurd hsame.symm (hname b r hr)
    · obtain rfl := Option.some.inj hr
      exact absurd hsame (hname a q hq)
    · exact inv.names a b q r hq hr hsame

theorem StakingLedger.rmproduct
    (inv : StakingLedger s) {id : Nat} {p : Product}
    (hp : s.products.find? id = some p) (hzero : p.currentAmount.amount = 0) :
    StakingLedger { s with products := s.products.erase id } := by
  have hnone : ∀ key row, s.stakings.find? key = some row → id ≠ row.productId := by
    rintro key row hrow rfl
    obtain ⟨q, -, hok⟩ := inv.stake key row hrow
    have hle := Table.weight_le_sum (inv.stakeOf_nonneg row.productId) key
    rw [Table.weight_of_find? hrow, stakeOf, if_pos rfl] at hle
    have htotal := (inv.product _ p hp).total
    rw [hzero, staked] at htotal
    have hpos := hok.positive_toInt
    simp only [Int64.toInt_zero] at htotal
    omega
  refine ⟨?_, ?_, inv.atMostOne, ?_⟩
  · intro k q hq
    simp only [Table.find?_erase] at hq
    split_ifs at hq
    have hok := inv.product k q hq
    exact ⟨hok.total, hok.symbol, hok.yields, hok.buyers_nodup, hok.mem_buyers_iff, hok.limit⟩
  · intro key row hrow
    obtain ⟨q, hq, hqok⟩ := inv.stake key row hrow
    exact ⟨q, (Table.find?_erase_of_ne _ (hnone key row hrow)).trans hq, hqok⟩
  · intro a b q r hq hr hsame
    simp only [Table.find?_erase] at hq hr
    split_ifs at hq hr
    exact inv.names a b q r hq hr hsame

theorem belongsTo_of_find?
    {key : Name × Nat} {row : Staking}
    (hrow : s.stakings.find? key = some row) : BelongsTo s key row.productId := by
  intro r hr
  obtain rfl := Option.some.inj (hrow.symm.trans hr)
  rfl

theorem weight_stakeOf_of_find?
    {key : Name × Nat} {row : Staking}
    (hrow : s.stakings.find? key = some row) :
    s.stakings.weight (stakeOf row.productId) key = row.balance.amount.toInt := by
  rw [Table.weight_of_find? hrow, stakeOf, if_pos rfl]

/-- A row that keeps its product, its balance and a yield in range is rewritten. -/
theorem StakingLedger.rewrite
    (inv : StakingLedger s) {key : Name × Nat} {row row' : Staking} {p : Product}
    (hrow : s.stakings.find? key = some row)
    (hp : s.products.find? row.productId = some p)
    (hproducts : s'.products = s.products)
    (hstakings : s'.stakings = s.stakings.put key row')
    (hid : row'.productId = row.productId) (hbalance : row'.balance = row.balance)
    (hmin : p.minimumYield ≤ row'.currentYield) (hmax : row'.currentYield ≤ p.maximumYield) :
    StakingLedger s' := by
  obtain ⟨owner, i⟩ := key
  have hok := inv.stakeOk hrow hp
  have hsome : ¬ s.stakings.find? (owner, i) = none := by
    rw [hrow]
    exact Option.some_ne_none row
  refine inv.put hp ?_ hstakings hid (belongsTo_of_find? hrow) (fun h => absurd h hsome)
    ⟨rfl, rfl, rfl, rfl, rfl, rfl, rfl, rfl, rfl⟩ (if_neg hsome).symm ?_ ?_
    (inv.product _ p hp).limit
  · intro k
    rw [hproducts]
    split_ifs with hk
    · rw [← hk]
      exact hp
    · rfl
  · rw [weight_stakeOf_of_find? hrow, hbalance]
    ring
  · refine ⟨?_, ?_, ?_, hmin, hmax, ?_⟩
    · rw [hbalance]
      exact hok.positive
    · rw [hbalance]
      exact hok.inRange
    · rw [hbalance]
      exact hok.symbol
    · rw [hbalance]
      exact hok.limit

theorem StakingLedger.rewritten
    (inv : StakingLedger s) (h : Rewritten s s') : StakingLedger s' := by
  cases h with
  | idle products stakings => exact inv.congr products stakings
  | @row key p row row' find product productId same yield products stakings =>
      have hok := inv.stakeOk find product
      have hyield : p.minimumYield ≤ row'.currentYield ∧ row'.currentYield ≤ p.maximumYield := by
        rcases yield with hyield | hyield
        · rw [hyield]
          exact ⟨hok.minimumYield_le, hok.le_maximumYield⟩
        · exact hyield
      exact inv.rewrite find product products stakings productId same.balance hyield.1 hyield.2

theorem StakingLedger.stakeNew
    (inv : StakingLedger s) {owner : Name} {quantity : Asset} {pricePrediction : Option Name}
    {id : Nat} {p : Product} {config2 : Config2}
    (hvalid : quantity.IsValid) (hpos : 0 < quantity.amount)
    (hp : s.products.find? id = some p) (hnone : findStaking s owner id = none)
    (h : stakeNew ctx s owner quantity pricePrediction id p config2 = .ok s') :
    StakingLedger s' := by
  obtain ⟨prediction, base, i, total, hper, hmax, hfresh, hadd, rfl⟩ := stakeNew_eq_ok h
  obtain ⟨hsymbol, hrange, rfl⟩ := Asset.add_eq_ok_iff.mp hadd
  have hok := inv.product id p hp
  have hsum : (p.currentAmount.amount + quantity.amount).toInt =
      p.currentAmount.amount.toInt + quantity.amount.toInt :=
    toInt_add_of_inRange_right hvalid.1 hrange
  refine inv.put hp (fun k => Table.find?_put _ _ _ _) rfl rfl ?_ ?_
    ⟨rfl, rfl, rfl, rfl, rfl, rfl, rfl, rfl, rfl⟩ ?_ ?_ ?_ ?_
  · intro row hrow
    cases hfresh.symm.trans hrow
  · rintro - ⟨j, row, hrow, hid⟩
    exact findStaking_eq_none hnone hrow hid
  · rw [if_pos hfresh]
  · rw [Table.weight_of_find?_none hfresh]
    simpa [newStaking] using hsum
  · refine ⟨hpos, hvalid.1, hsymbol.trans hok.symbol, le_refl _, hok.yields, ?_⟩
    intro hlimit
    exact hper (Int64.ne_of_lt hlimit).symm
  · intro hlimit
    exact hmax (Int64.ne_of_lt hlimit).symm

theorem StakingLedger.stakeMore [Doubles]
    (inv : StakingLedger s) {owner : Name} {quantity : Asset} {id : Nat} {p : Product}
    {config : Config} {config2 : Config2} {key : Name × Nat} {row : Staking}
    (hvalid : quantity.IsValid) (hpos : 0 < quantity.amount)
    (hp : s.products.find? id = some p) (hrow : findStaking s owner id = some (key, row))
    (h : stakeMore env ctx s owner quantity id p config config2 key row = .ok (s', sent)) :
    StakingLedger s' := by
  obtain ⟨_, _, _, _, _, balance, total, -, -, hper, hmax, -, -, hbalance, htotal, rfl, -⟩ :=
    stakeMore_eq_ok h
  obtain ⟨hfind, howner, rfl⟩ := findStaking_eq_some hrow
  obtain ⟨o, i⟩ := key
  obtain ⟨hsymbol, hrange, rfl⟩ := Asset.add_eq_ok_iff.mp hbalance
  obtain ⟨-, hrange', rfl⟩ := Asset.add_eq_ok_iff.mp htotal
  have hstake := inv.stakeOk hfind hp
  have hok := inv.product _ p hp
  have hsome : ¬ s.stakings.find? (o, i) = none := by
    rw [hfind]
    exact Option.some_ne_none row
  have hsum := toInt_add_of_inRange_right hvalid.1 hrange
  have hsum' := toInt_add_of_inRange_right hvalid.1 hrange'
  have hpos' : 0 < quantity.amount.toInt := Int64.lt_iff_toInt_lt.mp hpos
  have hstaked := hstake.positive_toInt
  refine inv.put hp (fun k => Table.find?_put _ _ _ _) rfl rfl (belongsTo_of_find? hfind)
    (fun hn => absurd hn hsome) ⟨rfl, rfl, rfl, rfl, rfl, rfl, rfl, rfl, rfl⟩ (if_neg hsome).symm
    ?_ ?_ ?_
  · rw [weight_stakeOf_of_find? hfind]
    simp only [renewStaking, hsum, hsum']
    ring
  · refine ⟨?_, hrange, hstake.symbol, hstake.minimumYield_le, hstake.le_maximumYield, ?_⟩
    · simp only [renewStaking, Int64.lt_iff_toInt_lt, hsum, Int64.toInt_zero]
      omega
    · intro hlimit
      exact hper (Int64.ne_of_lt hlimit).symm
  · -- the check adds the balance once more, still below 2 ^ 63
    intro hlimit
    have hle := Int64.le_iff_toInt_le.mp (hmax (Int64.ne_of_lt hlimit).symm)
    have hnowrap : (p.currentAmount.amount + quantity.amount + row.balance.amount).toInt =
        (p.currentAmount.amount + quantity.amount).toInt + row.balance.amount.toInt :=
      toInt_add_of_inRange_both hrange' hstake.inRange
    rw [Int64.le_iff_toInt_le]
    simp only [hnowrap] at hle
    simp only
    omega

theorem StakingLedger.unstake [Doubles]
    (inv : StakingLedger s) {owner productName : Name}
    (h : unstake env ctx s owner productName = .ok (s', sent)) : StakingLedger s' := by
  obtain ⟨id, p, key, row, _, total, -, hproduct, hrow, htotal, rfl⟩ := unstake_tables h
  obtain ⟨hp, -⟩ := findProduct_eq_some hproduct
  obtain ⟨hfind, howner, rfl⟩ := findStaking_eq_some hrow
  obtain ⟨o, i⟩ := key
  obtain rfl : o = owner := howner
  have hstake := inv.stakeOk hfind hp
  obtain ⟨-, hrange, rfl⟩ := Asset.sub_eq_ok_iff.mp htotal
  exact inv.erase hfind hp (fun k => Table.find?_put _ _ _ _) rfl
    ⟨rfl, rfl, rfl, rfl, rfl, rfl, rfl, rfl, rfl⟩ rfl
    (toInt_sub_of_inRange_right hstake.inRange hrange) hstake.positive

theorem StakingLedger.move [Doubles]
    (inv : StakingLedger s) {a : Action} (h : StakeMove env ctx s a s' sent) :
    StakingLedger s' := by
  cases h with
  | addproduct h =>
      obtain ⟨id, p, hname, hfresh, rfl, hzero, rfl, hbuyers, hyield, -, rfl⟩ :=
        addproduct_eq_ok h
      exact inv.addproduct (fun j q hq => findProduct_eq_none hname hq) hfresh hzero hbuyers hyield
  | rmproduct h =>
      obtain ⟨id, p, hp, hzero, -, rfl⟩ := rmproduct_eq_ok h
      exact inv.rmproduct hp hzero
  | stake _ _ _ h =>
      obtain ⟨id, p, _, _, -, hvalid, hpos, hproduct, -, -, h⟩ := stake_eq_ok h
      obtain ⟨hp, -⟩ := findProduct_eq_some hproduct
      rcases h with ⟨hnone, -, h⟩ | ⟨key, row, hrow, h⟩
      · exact inv.stakeNew hvalid hpos hp hnone h
      · exact inv.stakeMore hvalid hpos hp hrow h
  | unstake h => exact inv.unstake h
  | claimled h => exact inv.rewritten (claimled_rewritten h)
  | claimlem h => exact inv.rewritten (claimlem_rewritten h)
  | changeyield h => exact inv.rewritten (changeyield_rewritten h)

theorem StakingLedger.exec [Doubles]
    (inv : StakingLedger s) {a : Action}
    (h : exec env ctx s a = .ok (s', sent)) : StakingLedger s' := by
  cases exec_area h with
  | stakes move => exact inv.move move
  | games _ _ products stakings => exact inv.congr products stakings
  | dex _ stakes => exact inv.congr stakes.1 stakes.2.1
  | idle stakes => exact inv.congr stakes.1 stakes.2.1

end Steps

section Runs

theorem stakingLedger_empty : StakingLedger State.empty := by
  refine ⟨?_, ?_, ?_, ?_⟩
  · intro id p h
    cases h
  · intro key row h
    cases h
  · intro owner i j row row' h
    cases h
  · intro i j p q h
    cases h

theorem stakingLedger_of_reaches [Doubles]
    {env : Env} {w : World}
    (h : Reaches env w) : StakingLedger w.state := by
  refine h.invariant (fun w => StakingLedger w.state) ?_ ?_
  · intro w hw
    rw [hw]
    exact stakingLedger_empty
  · rintro w e w' inv ⟨-, hexec, -⟩
    exact inv.exec hexec

/-- In every reachable state products and stakes agree: totals, buyers and limits of
each product, and uniqueness, sign, symbol, yield and limit of each stake. -/
theorem staking_ledger_agrees [Doubles]
    {env : Env} {w : World}
    (h : Reaches env w) :
    (∀ id p, w.state.products.find? id = some p →
      p.currentAmount.amount.toInt = staked w.state id ∧
      p.buyers.Nodup ∧
      (∀ owner, owner ∈ p.buyers ↔ HasStake w.state owner id) ∧
      (0 < p.maximumAmountLimit.amount →
        p.currentAmount.amount ≤ p.maximumAmountLimit.amount)) ∧
    ∀ owner i row, w.state.stakings.find? (owner, i) = some row →
      0 < row.balance.amount ∧
      (∀ j row', w.state.stakings.find? (owner, j) = some row' →
        row'.productId = row.productId → j = i) ∧
      ∃ p, w.state.products.find? row.productId = some p ∧
        row.balance.symbol = p.amountPerAccount.symbol ∧
        row.balance.symbol = p.currentAmount.symbol ∧
        p.minimumYield ≤ row.currentYield ∧ row.currentYield ≤ p.maximumYield ∧
        (0 < p.amountPerAccount.amount → row.balance.amount ≤ p.amountPerAccount.amount) := by
  have inv := stakingLedger_of_reaches h
  constructor
  · intro id p hp
    have hok := inv.product id p hp
    exact ⟨hok.total, hok.buyers_nodup, hok.mem_buyers_iff, hok.limit⟩
  · intro owner i row hrow
    obtain ⟨p, hp, hok⟩ := inv.stake (owner, i) row hrow
    refine ⟨hok.positive, ?_, p, hp, hok.symbol, ?_, hok.minimumYield_le, hok.le_maximumYield,
      hok.limit⟩
    · intro j row' hrow' hsame
      exact inv.atMostOne owner j i row' row hrow' hrow hsame
    · exact hok.symbol.trans (inv.product _ p hp).symbol.symm

open Binary64

/-- Two stakes of one owner in one product are one row. -/
theorem staking_ledger_agrees_sample :
    ∃ w p, Reaches sampleEnv w ∧ w.state.products.find? 0 = some p ∧
      staked w.state 0 = 30000 ∧ p.currentAmount.amount.toInt = staked w.state 0 := by
  obtain ⟨tr, w, hplay, hobs⟩ := exists_of_play
    (show (play (stepWith sampleEnv) sampleWorld (sampleOpening ++
        [(sampleCtx 2000 "alice", sampleTransfer "alice" 10000 "stake/basic"),
          (sampleCtx 3000 "alice", sampleTransfer "alice" 20000 "stake/basic")])).map
        (fun r => (staked r.2.state 0, (r.2.state.products.find? 0).isSome)) =
      some (30000, true) by decide +kernel)
  obtain ⟨hstaked, hsome⟩ := Prod.mk.inj hobs
  obtain ⟨p, hp⟩ := Option.isSome_iff_exists.mp hsome
  have hreach := reaches_of_play sampleWorld_genesis hplay
  exact ⟨w, p, hreach, hp, hstaked, ((staking_ledger_agrees hreach).1 0 p hp).1⟩

end Runs

end Lemonade
