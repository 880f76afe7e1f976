import Lemonade.Contract.Frames
import Mathlib.Tactic

/-!
# Deposits

The rows of `dexacnts` are kept nonnegative, and a user has one row at most for
each token of each contract.  `deposited` adds up the deposits that a property of
users and tokens selects; every payment into and out of a deposit moves it by the
amount paid.
-/

namespace Lemonade

open Kernel

section Ledger

/-- An amount that an account can hold. -/
structure Holdable (a : Int64) : Prop where
  nonneg : 0 ≤ a.toInt
  inRange : AmountInRange a

/-- The rows of `dexacnts` are nonnegative and unique for user and token. -/
structure DepositsOk (t : Table (Name × Nat) ExtendedAsset) : Prop where
  holdable : ∀ key balance, t.find? key = some balance → Holdable balance.quantity.amount
  unique : ∀ user i j balance balance', t.find? (user, i) = some balance →
    t.find? (user, j) = some balance' →
    balance.extendedSymbol = balance'.extendedSymbol → i = j

/-- Sum of the deposits of the users and tokens with a property. -/
def deposited (p : Name → ExtendedSymbol → Prop) [∀ u x, Decidable (p u x)]
    (t : Table (Name × Nat) ExtendedAsset) : ℤ :=
  t.sum fun key balance =>
    if p key.1 balance.extendedSymbol then balance.quantity.amount.toInt else 0

theorem holdable_zero : Holdable 0 := ⟨by decide, amountInRange_zero⟩

theorem DepositsOk.of_same
    {t t' : Table (Name × Nat) ExtendedAsset} (ok : DepositsOk t) (h : t' = t) :
    DepositsOk t' := by
  rw [h]
  exact ok

variable {s s' : State} {user : Name}

theorem DepositsOk.insert
    {id : Nat} {balance : ExtendedAsset}
    (ok : DepositsOk s.dexacnts) (hbalance : Holdable balance.quantity.amount)
    (hnone : findDexacnt s user balance.extendedSymbol = none) :
    DepositsOk (s.dexacnts.put (user, id) balance) where
  holdable := by
    intro key b hb
    rw [Table.find?_put] at hb
    split_ifs at hb
    · obtain rfl := Option.some.inj hb
      exact hbalance
    · exact ok.holdable key b hb
  unique := by
    intro u i j b b' hi hj hsym
    rw [Table.find?_put] at hi hj
    split_ifs at hi hj with h1 h2 h2
    · exact (Prod.mk.inj h1).2.symm.trans (Prod.mk.inj h2).2
    · obtain rfl := Option.some.inj hi
      obtain ⟨rfl, -⟩ := Prod.mk.inj h1
      exact absurd hsym.symm (findDexacnt_eq_none hnone hj)
    · obtain rfl := Option.some.inj hj
      obtain ⟨rfl, -⟩ := Prod.mk.inj h2
      exact absurd hsym (findDexacnt_eq_none hnone hi)
    · exact ok.unique u i j b b' hi hj hsym

theorem DepositsOk.update
    {t : Table (Name × Nat) ExtendedAsset} {key : Name × Nat} {balance balance' : ExtendedAsset}
    (ok : DepositsOk t) (hrow : t.find? key = some balance)
    (hsym : balance'.extendedSymbol = balance.extendedSymbol)
    (hbalance : Holdable balance'.quantity.amount) : DepositsOk (t.put key balance') where
  holdable := by
    intro k b hb
    rw [Table.find?_put] at hb
    split_ifs at hb
    · obtain rfl := Option.some.inj hb
      exact hbalance
    · exact ok.holdable k b hb
  unique := by
    have hold : ∀ k b, (t.put key balance').find? k = some b →
        ∃ b₀, t.find? k = some b₀ ∧ b₀.extendedSymbol = b.extendedSymbol := by
      intro k b hb
      rw [Table.find?_put] at hb
      split_ifs at hb with hk
      · subst hk
        obtain rfl := Option.some.inj hb
        exact ⟨balance, hrow, hsym.symm⟩
      · exact ⟨b, hb, rfl⟩
    intro u i j b b' hi hj hb
    obtain ⟨b₀, hi₀, h₀⟩ := hold _ b hi
    obtain ⟨b₁, hj₁, h₁⟩ := hold _ b' hj
    exact ok.unique u i j b₀ b₁ hi₀ hj₁ (h₀.trans (hb.trans h₁.symm))

theorem DepositsOk.erase
    {t : Table (Name × Nat) ExtendedAsset} (ok : DepositsOk t) (key : Name × Nat) :
    DepositsOk (t.erase key) := by
  have hold : ∀ k b, (t.erase key).find? k = some b → t.find? k = some b := by
    intro k b hb
    rw [Table.find?_erase] at hb
    split_ifs at hb
    exact hb
  refine ⟨?_, ?_⟩
  · intro k b hb
    exact ok.holdable k b (hold k b hb)
  · intro u i j b b' hi hj
    exact ok.unique u i j b b' (hold _ b hi) (hold _ b' hj)

/-- A payment keeps the deposits in order, and all other tables. -/
theorem DepositsOk.add
    {toAdd : ExtendedAsset} (ok : DepositsOk s.dexacnts)
    (h : addSignedExtBalance s user toAdd = .ok s') :
    DepositsOk s'.dexacnts := by
  obtain ⟨hvalid, ⟨id, hnone, hnonneg, -, rfl⟩ |
    ⟨key, balance, balance', hrow, hadd, hnonneg, rfl⟩⟩ := addSignedExtBalance_eq_ok h
  · exact ok.insert ⟨by simpa using Int64.le_iff_toInt_le.mp hnonneg, hvalid.1⟩ hnone
  · obtain ⟨hfind, -, -⟩ := findDexacnt_eq_some hrow
    obtain ⟨-, hrange, rfl⟩ := ExtendedAsset.add_eq_ok_iff.mp hadd
    exact ok.update hfind rfl ⟨by simpa using Int64.le_iff_toInt_le.mp hnonneg, hrange⟩

variable (p : Name → ExtendedSymbol → Prop) [∀ u x, Decidable (p u x)]

/-- A payment moves the selected deposits by what is paid. -/
theorem deposited_add
    {toAdd : ExtendedAsset} (ok : DepositsOk s.dexacnts)
    (h : addSignedExtBalance s user toAdd = .ok s') :
    deposited p s'.dexacnts = deposited p s.dexacnts +
      if p user toAdd.extendedSymbol then toAdd.quantity.amount.toInt else 0 := by
  unfold deposited
  obtain ⟨hvalid, ⟨id, hnone, hnonneg, hfresh, rfl⟩ |
    ⟨key, balance, balance', hrow, hadd, hnonneg, rfl⟩⟩ := addSignedExtBalance_eq_ok h
  · rw [Table.sum_put, Table.weight_of_find?_none hfresh, sub_zero]
  · obtain ⟨hfind, rfl, hsym⟩ := findDexacnt_eq_some hrow
    obtain ⟨-, hrange, rfl⟩ := ExtendedAsset.add_eq_ok_iff.mp hadd
    have hsum := toInt_add_of_inRange (ok.holdable key balance hfind).inRange hrange
    rw [Table.sum_put, Table.weight_of_find? hfind, ← hsym]
    by_cases hp : p key.1 balance.extendedSymbol
    · have hp' : p key.1 ⟨balance.quantity.symbol, balance.contract⟩ := hp
      simp only [ExtendedAsset.extendedSymbol, hp', if_true, hsum]
      omega
    · have hp' : ¬ p key.1 ⟨balance.quantity.symbol, balance.contract⟩ := hp
      simp only [ExtendedAsset.extendedSymbol, hp', if_false]
      omega

/-- Closing a deposit takes its balance out. -/
theorem deposited_erase
    {t : Table (Name × Nat) ExtendedAsset} {key : Name × Nat} {balance : ExtendedAsset}
    (hrow : t.find? key = some balance) :
    deposited p (t.erase key) = deposited p t -
      if p key.1 balance.extendedSymbol then balance.quantity.amount.toInt else 0 := by
  unfold deposited
  rw [Table.sum_erase, Table.weight_of_find? hrow]

end Ledger

section Frame

variable {s s' : State} {user : Name}

/-- Everything but the deposits is the same. -/
structure KeepsShares (s s' : State) : Prop where
  accounts : s'.accounts = s.accounts
  userinfo : s'.userinfo = s.userinfo
  stats : s'.stats = s.stats

theorem addSignedExtBalance_keepsShares
    {toAdd : ExtendedAsset} (h : addSignedExtBalance s user toAdd = .ok s') :
    KeepsShares s s' := by
  obtain ⟨-, ⟨_, -, -, -, rfl⟩ | ⟨_, _, _, -, -, -, rfl⟩⟩ := addSignedExtBalance_eq_ok h
  · exact ⟨rfl, rfl, rfl⟩
  · exact ⟨rfl, rfl, rfl⟩

theorem payPoolFee_keepsShares
    (h : payPoolFee s user = .ok s') : KeepsShares s s' := by
  unfold payPoolFee at h
  split_ifs at h
  · exact addSignedExtBalance_keepsShares h
  · obtain rfl := Except.ok.inj h
    exact ⟨rfl, rfl, rfl⟩

theorem DepositsOk.payPoolFee
    (ok : DepositsOk s.dexacnts) (h : payPoolFee s user = .ok s') : DepositsOk s'.dexacnts := by
  unfold Lemonade.payPoolFee at h
  split_ifs at h
  · exact ok.add h
  · obtain rfl := Except.ok.inj h
    exact ok

end Frame

end Lemonade
