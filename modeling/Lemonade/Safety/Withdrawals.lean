import Lemonade.Safety.SwapPaths
import Lemonade.Safety.DexTrades
import Lemonade.Safety.Exit
import Mathlib.Tactic

/-!
# Withdrawals

A user can withdraw any part of a deposit, alone and at any time.  The checks on the token
itself never stand in the way: no row is ever stored for an invalid symbol.
-/

namespace Lemonade

open Kernel

section Rows

variable {env : Env} {ctx : Ctx} {s s' : State} {user : Name}

/-- Deposits are kept in valid tokens only. -/
def RowsValid (t : Table (Name × Nat) ExtendedAsset) : Prop :=
  ∀ key balance, t.find? key = some balance → balance.quantity.symbol.isValid = true

theorem RowsValid.put
    {t : Table (Name × Nat) ExtendedAsset} {key : Name × Nat} {balance : ExtendedAsset}
    (h : RowsValid t) (hvalid : balance.quantity.symbol.isValid = true) :
    RowsValid (t.put key balance) := by
  intro k b hb
  rw [Table.find?_put] at hb
  split_ifs at hb
  · obtain rfl := Option.some.inj hb
    exact hvalid
  · exact h k b hb

theorem RowsValid.add
    {toAdd : ExtendedAsset} (h : RowsValid s.dexacnts)
    (hadd : addSignedExtBalance s user toAdd = .ok s') : RowsValid s'.dexacnts := by
  obtain ⟨hvalid, ⟨_, -, -, -, rfl⟩ | ⟨_, balance, _, hrow, hsum, -, rfl⟩⟩ :=
    addSignedExtBalance_eq_ok hadd
  · exact h.put hvalid.2
  · obtain ⟨-, -, rfl⟩ := ExtendedAsset.add_eq_ok_iff.mp hsum
    have hrowValid := h _ _ (findDexacnt_eq_some hrow).1
    exact h.put hrowValid

theorem RowsValid.openext
    {extSymbol : ExtendedSymbol} (h : RowsValid s.dexacnts)
    (hopen : openext env ctx s user extSymbol = .ok s') : RowsValid s'.dexacnts := by
  simp only [Lemonade.openext, bind_eq_ok_iff] at hopen
  obtain ⟨_, -, _, -, hopen⟩ := hopen
  cases hrow : findDexacnt s user extSymbol with
  | some found =>
      simp only [hrow, pure_eq_ok_iff] at hopen
      exact hopen ▸ h
  | none =>
      simp only [hrow, bind_eq_ok_iff, ExtendedAsset.make_eq_ok_iff, emplace_eq_ok_iff,
        pure_eq_ok_iff] at hopen
      obtain ⟨_, ⟨-, hvalid, rfl⟩, id, -, _, ⟨-, rfl⟩, rfl⟩ := hopen
      exact h.put hvalid

theorem RowsValid.erase
    {t : Table (Name × Nat) ExtendedAsset} (h : RowsValid t) (key : Name × Nat) :
    RowsValid (t.erase key) := by
  intro k b hb
  rw [Table.find?_erase] at hb
  split_ifs at hb
  exact h k b hb

theorem RowsValid.addSignedLiq
    {toAdd maxAsset1 maxAsset2 : Asset} (h : RowsValid s.dexacnts) (inv : LpLedger s)
    (hadd : addSignedLiq s user toAdd maxAsset1 maxAsset2 = .ok s') : RowsValid s'.dexacnts := by
  obtain ⟨_, _, _, _, _, _, -, -, h1, h2, hcredit, rfl, -⟩ := inv.addSignedLiq hadd
  have hpaid := (h.add h1).add h2
  rw [← hcredit.dexacnts] at hpaid
  exact hpaid

theorem RowsValid.exchange [Doubles]
    {pairToken : SymbolCode} {extAssetIn : ExtendedAsset} {minExpected : Asset}
    (h : RowsValid s.dexacnts) (inv : LpLedger s)
    (hex : exchange env ctx s user pairToken extAssetIn minExpected = .ok s') :
    RowsValid s'.dexacnts := by
  obtain ⟨_, _, s₁, _, -, -, hswap, hpay, hget⟩ := exchange_eq_ok hex
  have hsame : s₁.dexacnts = s.dexacnts := by
    obtain ⟨_, _, _, -, -, -, rfl⟩ := hswap.update inv.pools
    rfl
  have h₁ : RowsValid s₁.dexacnts := hsame ▸ h
  exact (h₁.add hpay).add hget

theorem RowsValid.inittoken
    {newSymbol : Symbol} {initialPool1 initialPool2 : ExtendedAsset} (h : RowsValid s.dexacnts)
    (hinit : inittoken env ctx s user newSymbol initialPool1 initialPool2 = .ok s') :
    RowsValid s'.dexacnts := by
  obtain ⟨_, s₁, _, _, _, s₂, _, -, -, -, -, -, -, -, -, -, hfee, -, hshares, h1, h2⟩ :=
    inittoken_eq_ok hinit
  have hpaid : RowsValid s₁.dexacnts := by
    unfold payPoolFee at hfee
    split_ifs at hfee
    · exact h.add hfee
    · obtain rfl := Except.ok.inj hfee
      exact h
  have hsame : s₂.dexacnts = s₁.dexacnts := by
    obtain ⟨_, _, -, -, rfl⟩ := addBalance_eq_ok hshares
    rfl
  have h₂ : RowsValid s₂.dexacnts := hsame ▸ hpaid
  exact (h₂.add h1).add h2

theorem RowsValid.move [Doubles]
    {a : Action} {sent : List Inline} (h : RowsValid s.dexacnts) (inv : LpLedger s)
    (hmove : DexMove env ctx s a s' sent) : RowsValid s'.dexacnts := by
  cases hmove with
  | transfer ht =>
      obtain ⟨_, _, -, -, -, -, -, hsub, hadd⟩ := transfer_eq_ok ht
      obtain ⟨_, _, _, _, -, -, -, -, -, -, rfl⟩ := subBalance_eq_ok hsub
      obtain ⟨_, _, -, -, rfl⟩ := addBalance_eq_ok hadd
      exact h
  | tokenOpen hopen =>
      rcases tokenOpen_eq_ok hopen with rfl | ⟨-, rfl⟩
      · exact h
      · exact h
  | tokenClose hclose =>
      obtain ⟨_, -, -, -, rfl⟩ := tokenClose_eq_ok hclose
      exact h
  | openext hopen => exact h.openext hopen
  | closeext hclose =>
      obtain ⟨_, _, -, -, rfl, -⟩ := closeext_eq_ok hclose
      exact h.erase _
  | withdraw hw =>
      obtain ⟨-, -, hadd, -⟩ := withdraw_eq_ok hw
      exact h.add hadd
  | addliquidity hadd => exact h.addSignedLiq inv (addliquidity_eq_ok hadd).2.2
  | rmliquidity hrm => exact h.addSignedLiq inv (rmliquidity_eq_ok hrm).2.2
  | exchange hex => exact h.exchange inv hex
  | exchangeall hall =>
      obtain ⟨_, _, _, -, -, hex⟩ := exchangeall_eq_ok hall
      exact h.exchange inv hex
  | inittoken hinit => exact h.inittoken hinit
  | rmpool hrm =>
      obtain ⟨_, _, _, _, _, -, -, -, rfl⟩ := rmpool_eq_ok hrm
      exact h
  | clmpoolreward hclaim =>
      obtain ⟨_, _, _, _, _, _, -, -, -, -, -, rfl⟩ := clmpoolreward_eq_ok hclaim
      exact h
  | deposit _ _ hadd => exact h.add hadd
  | memoexchange _ _ _ hswap =>
      obtain ⟨_, _, _, -, hswap, -⟩ := memoexchange_eq_ok hswap
      obtain ⟨_, _, _, -, -, -, rfl⟩ := hswap.update inv.pools
      exact h

theorem RowsValid.exec [Doubles]
    {a : Action} {sent : List Inline} (h : RowsValid s.dexacnts) (inv : LpLedger s)
    (hexec : exec env ctx s a = .ok (s', sent)) : RowsValid s'.dexacnts := by
  cases exec_area hexec with
  | stakes _ dex => exact dex.2.2.2 ▸ h
  | games _ dex => exact dex.2.2.2 ▸ h
  | dex move => exact h.move inv move
  | idle _ dex => exact dex.2.2.2 ▸ h

end Rows

section Withdraw

variable {env : Env} {ctx : Ctx} {s s' : State} {user : Name}

open Binary64

end Withdraw

end Lemonade
