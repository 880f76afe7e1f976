import Lemonade.Kernel.ConstantProduct
import Lemonade.Kernel.Rounding
import Lemonade.Kernel.Trace
import Mathlib.Algebra.BigOperators.Finsupp.Basic
import Mathlib.Tactic

/-!
# Exchanges

What an exchange is for, over any accounts, tokens and names of markets.  Accounts
hold deposits of tokens and shares of markets; a market holds a reserve of each of
its two tokens, and fees.  All holdings together are one finitely supported map from
positions to amounts, the books, so that what a deal does is a sum of entries.

Tokens come and go by `settle` and by the deals on fees and on markets that are wound
up; all other deals move them from one position to another (`totalOf_trade`).  In a
sound exchange no account owes anything and no market is empty, and deals keep it
sound (`Sound.trade`).
-/

namespace Lemonade
namespace Kernel

universe u v w

section Holdings

/-- Where an amount stands. -/
inductive Holding (α : Type u) (τ : Type v) (π : Type w)
  | deposit (a : α) (x : τ)
  | shares (a : α) (p : π)
  | reserve (p : π) (side : Bool) (x : τ)
  | fee (p : π) (side : Bool) (x : τ)
deriving DecidableEq

variable {α : Type u} {τ : Type v} {π : Type w}

namespace Holding

/-- What the amount is an amount of: a token, or the shares of a market. -/
@[simp] def currency : Holding α τ π → τ ⊕ π
  | deposit _ x => .inl x
  | shares _ p => .inr p
  | reserve _ _ x => .inl x
  | fee _ _ x => .inl x

/-- The positions that go when a market goes. -/
def OfMarket (p : π) : Holding α τ π → Prop
  | deposit _ _ => False
  | shares _ q => q = p
  | reserve q _ _ => q = p
  | fee q _ _ => q = p

/-- The fees of a market. -/
def FeeOf (p : π) : Holding α τ π → Prop
  | fee q _ _ => q = p
  | _ => False

/-- The deposits of some accounts in a token. -/
def DepositOf (U : α → Prop) (x : τ) : Holding α τ π → Prop
  | deposit a y => U a ∧ y = x
  | _ => False

instance [DecidableEq τ] (U : α → Prop) [DecidablePred U] (x : τ) :
    DecidablePred (DepositOf (π := π) U x)
  | deposit _ _ => inferInstanceAs (Decidable (_ ∧ _))
  | shares _ _ => instDecidableFalse
  | reserve _ _ _ => instDecidableFalse
  | fee _ _ _ => instDecidableFalse

end Holding

/-- Holdings and their amounts. -/
abbrev Books (α : Type u) (τ : Type v) (π : Type w) := Holding α τ π →₀ ℤ

namespace Books

open Classical in
/-- What stands at some of the positions, all together. -/
noncomputable def sumOver (P : Holding α τ π → Prop) : Books α τ π →+ ℤ :=
  Finsupp.liftAddHom fun k => if P k then AddMonoidHom.id ℤ else 0

@[simp] theorem sumOver_single
    (P : Holding α τ π → Prop) (k : Holding α τ π) [Decidable (P k)] (n : ℤ) :
    sumOver P (Finsupp.single k n) = if P k then n else 0 := by
  rw [sumOver, Finsupp.liftAddHom_apply_single]
  by_cases h : P k
  · simp [h]
  · simp [h]

/-- Holdings that hold nothing do not count. -/
theorem sumOver_eq_zero
    {P : Holding α τ π → Prop} {b : Books α τ π} (h : ∀ k, P k → b k = 0) :
    sumOver P b = 0 := by
  rw [sumOver, Finsupp.liftAddHom_apply]
  refine Finset.sum_eq_zero ?_
  intro k _
  by_cases hk : P k
  · simp [h k hk]
  · simp [hk]

open Classical in
/-- Take out what stands at some of the positions. -/
noncomputable def clear (Q : Holding α τ π → Prop) (b : Books α τ π) : Books α τ π :=
  b.filter fun k => ¬ Q k

theorem clear_apply
    (Q : Holding α τ π → Prop) (b : Books α τ π) (k : Holding α τ π) [Decidable (Q k)] :
    clear Q b k = if Q k then 0 else b k := by
  classical
  rw [clear, Finsupp.filter_apply]
  by_cases h : Q k
  · simp [h]
  · simp [h]

theorem sumOver_clear
    (P Q : Holding α τ π → Prop) (b : Books α τ π) :
    sumOver P (clear Q b) = sumOver P b - sumOver (fun k => P k ∧ Q k) b := by
  classical
  unfold clear
  induction b using Finsupp.induction_linear with
  | zero =>
      rw [Finsupp.filter_zero]
      simp
  | add f g hf hg =>
      rw [Finsupp.filter_add, map_add, map_add, map_add, hf, hg]
      ring
  | single k n =>
      by_cases hQ : Q k
      · rw [Finsupp.filter_single_of_neg (fun k => ¬ Q k) (not_not.mpr hQ)]
        simp [hQ]
      · rw [Finsupp.filter_single_of_pos (fun k => ¬ Q k) hQ]
        simp [hQ]

end Books

end Holdings

section Exchanges

variable (α : Type u) (τ : Type v) (π : Type w)

/-- The books, and the tokens of the markets that are listed. -/
@[ext] structure Exchange where
  books : Books α τ π
  market : π → Option (Bool → τ)

/-- What happens on an exchange. -/
inductive Deal
  /-- the account pays in, or is paid if the amount is negative -/
  | settle (a : α) (x : τ) (n : ℤ)
  /-- shares go from one account to another -/
  | send (a b : α) (p : π) (n : ℤ)
  /-- the account lists a market and stocks it -/
  | launch (a : α) (p : π) (x : Bool → τ) (n : Bool → ℤ) (shares : ℤ)
  /-- the account buys shares, or sells them if the number is negative -/
  | subscribe (a : α) (p : π) (shares : ℤ) (pay : Bool → ℤ)
  /-- the account pays into one reserve and takes from the other, or the reverse -/
  | swap (a : α) (p : π) (side : Bool) (paid taken : ℤ)
  /-- a fee is booked that nobody pays -/
  | accrue (p : π) (side : Bool) (x : τ) (n : ℤ)
  /-- the fees of a market are given away -/
  | distribute (p : π)
  /-- a market is removed with all that it holds -/
  | wind (p : π)

variable {α τ π}

namespace Exchange

/-- The exchange before its first deal. -/
noncomputable def empty : Exchange α τ π := ⟨0, fun _ => none⟩

variable (ex : Exchange α τ π)

def deposit (a : α) (x : τ) : ℤ := ex.books (.deposit a x)

def shares (a : α) (p : π) : ℤ := ex.books (.shares a p)

def reserve (p : π) (side : Bool) (x : τ) : ℤ := ex.books (.reserve p side x)

/-- The shares of a market in circulation. -/
noncomputable def supply (p : π) : ℤ := Books.sumOver (fun k => k.currency = .inr p) ex.books

/-- The deposits of some accounts in a token, all together. -/
noncomputable def wealth (U : α → Prop) (x : τ) : ℤ :=
  Books.sumOver (Holding.DepositOf U x) ex.books

/-- Make an entry in the books. -/
noncomputable def post (b : Books α τ π) : Exchange α τ π := { ex with books := ex.books + b }

/-- Write off what stands at some of the positions. -/
noncomputable def clear (Q : Holding α τ π → Prop) : Exchange α τ π :=
  { ex with books := ex.books.clear Q }

open Classical in
/-- List a market, or take it off the list. -/
noncomputable def list (p : π) (x : Option (Bool → τ)) : Exchange α τ π :=
  { ex with market := Function.update ex.market p x }

end Exchange

/-- An amount goes from one position to another. -/
noncomputable def move (k k' : Holding α τ π) (n : ℤ) : Books α τ π :=
  Finsupp.single k' n - Finsupp.single k n

/-- An account pays into both reserves of a market. -/
noncomputable def invest (a : α) (p : π) (x : Bool → τ) (n : Bool → ℤ) : Books α τ π :=
  move (.deposit a (x true)) (.reserve p true (x true)) (n true) +
    move (.deposit a (x false)) (.reserve p false (x false)) (n false)

/-- The deals that an exchange makes.  Prices are rounded against the account. -/
inductive Exchange.Trade (ex : Exchange α τ π) : Deal α τ π → Exchange α τ π → Prop
  | settle {a : α} {x : τ} {n : ℤ} (funded : 0 ≤ ex.deposit a x + n) :
      Trade ex (.settle a x n) (ex.post (.single (.deposit a x) n))
  | send {a b : α} {p : π} {n : ℤ} (pos : 0 < n) (funded : n ≤ ex.shares a p) :
      Trade ex (.send a b p n) (ex.post (move (.shares a p) (.shares b p) n))
  | launch {a : α} {p : π} {x : Bool → τ} {n : Bool → ℤ} {shares : ℤ}
      (fresh : ex.market p = none) (differ : x true ≠ x false) (stocked : ∀ side, 0 < n side)
      (pos : 0 < shares) (funded : ∀ side, n side ≤ ex.deposit a (x side)) :
      Trade ex (.launch a p x n shares)
        ((ex.post (invest a p x n + .single (.shares a p) shares)).list p (some x))
  | subscribe {a : α} {p : π} {x : Bool → τ} {shares : ℤ} {pay : Bool → ℤ}
      (listed : ex.market p = some x)
      (priced : ∀ side, IsCeilDiv (pay side) (shares * ex.reserve p side (x side)) (ex.supply p))
      (funded : ∀ side, pay side ≤ ex.deposit a (x side)) (held : 0 ≤ ex.shares a p + shares)
      (stays : 0 < ex.supply p + shares) :
      Trade ex (.subscribe a p shares pay)
        (ex.post (invest a p x pay + .single (.shares a p) shares))
  | swap {a : α} {p : π} {x : Bool → τ} {side : Bool} {paid taken : ℤ}
      (listed : ex.market p = some x) (stays : 0 < ex.reserve p side (x side) + paid)
      (priced : taken = swapOut (ex.reserve p side (x side)) (ex.reserve p (!side) (x !side)) paid)
      (funded : paid ≤ ex.deposit a (x side)) (covered : 0 ≤ ex.deposit a (x !side) + taken) :
      Trade ex (.swap a p side paid taken)
        (ex.post (move (.deposit a (x side)) (.reserve p side (x side)) paid +
          move (.reserve p (!side) (x !side)) (.deposit a (x !side)) taken))
  | accrue {p : π} {x : Bool → τ} {side : Bool} {n : ℤ} (listed : ex.market p = some x) :
      Trade ex (.accrue p side (x side) n) (ex.post (.single (.fee p side (x side)) n))
  | distribute {p : π} {x : Bool → τ} (listed : ex.market p = some x) :
      Trade ex (.distribute p) (ex.clear (Holding.FeeOf p))
  | wind {p : π} {x : Bool → τ} (listed : ex.market p = some x) :
      Trade ex (.wind p) ((ex.clear (Holding.OfMarket p)).list p none)

end Exchanges

section Entries

variable {α : Type u} {τ : Type v} {π : Type w}

namespace Exchange

variable (ex : Exchange α τ π) (b : Books α τ π)

@[simp] theorem post_market : (ex.post b).market = ex.market := rfl

@[simp] theorem post_books : (ex.post b).books = ex.books + b := rfl

theorem post_deposit (a : α) (x : τ) :
    (ex.post b).deposit a x = ex.deposit a x + b (.deposit a x) := rfl

theorem post_shares (a : α) (p : π) :
    (ex.post b).shares a p = ex.shares a p + b (.shares a p) := rfl

theorem post_reserve (p : π) (side : Bool) (x : τ) :
    (ex.post b).reserve p side x = ex.reserve p side x + b (.reserve p side x) := rfl

theorem post_supply (p : π) :
    (ex.post b).supply p = ex.supply p + Books.sumOver (fun k => k.currency = .inr p) b :=
  map_add _ _ _

theorem list_market (p q : π) [Decidable (q = p)] (x : Option (Bool → τ)) :
    (ex.list p x).market q = if q = p then x else ex.market q := by
  by_cases h : q = p
  · simp [list, h]
  · simp [list, h]

@[simp] theorem list_books (p : π) (x : Option (Bool → τ)) :
    (ex.list p x).books = ex.books := rfl

@[simp] theorem clear_market (Q : Holding α τ π → Prop) : (ex.clear Q).market = ex.market := rfl

@[simp] theorem clear_books (Q : Holding α τ π → Prop) :
    (ex.clear Q).books = ex.books.clear Q := rfl

end Exchange

section Sums

variable {P : Holding α τ π → Prop}

/-- What a move does to a sum. -/
theorem sumOver_move
    (k k' : Holding α τ π) [Decidable (P k)] [Decidable (P k')] (n : ℤ) :
    Books.sumOver P (move k k' n) = (if P k' then n else 0) - if P k then n else 0 := by
  rw [move, map_sub, Books.sumOver_single, Books.sumOver_single]

/-- A move within the positions that are summed up, or outside of them, does not show. -/
theorem sumOver_move_eq_zero
    {k k' : Holding α τ π} (h : P k ↔ P k') (n : ℤ) : Books.sumOver P (move k k' n) = 0 := by
  classical
  rw [sumOver_move]
  by_cases hk : P k
  · simp [hk, h.mp hk]
  · simp [hk, h.not.mp hk]

theorem sumOver_invest_eq_zero
    {a : α} {p : π} {x : Bool → τ} {n : Bool → ℤ}
    (h : ∀ side, P (.deposit a (x side)) ↔ P (.reserve p side (x side))) :
    Books.sumOver P (invest a p x n) = 0 := by
  rw [invest, map_add, sumOver_move_eq_zero (h true), sumOver_move_eq_zero (h false), add_zero]

end Sums

end Entries

section Soundness

open Classical

variable {α : Type u} {τ : Type v} {π : Type w} {ex ex' : Exchange α τ π}

/-- No account owes anything, and a market is stocked iff it is listed. -/
structure Exchange.Sound (ex : Exchange α τ π) : Prop where
  deposit_nonneg : ∀ a x, 0 ≤ ex.deposit a x
  shares_nonneg : ∀ a p, 0 ≤ ex.shares a p
  differ : ∀ p x, ex.market p = some x → x true ≠ x false
  reserve_pos : ∀ p x, ex.market p = some x → ∀ side, 0 < ex.reserve p side (x side)
  supply_pos : ∀ p x, ex.market p = some x → 0 < ex.supply p
  unlisted : ∀ p, ex.market p = none → ∀ k : Holding α τ π, k.OfMarket p → ex.books k = 0

theorem Exchange.sound_empty : (Exchange.empty : Exchange α τ π).Sound where
  deposit_nonneg := fun _ _ => le_refl _
  shares_nonneg := fun _ _ => le_refl _
  differ := fun _ _ h => nomatch h
  reserve_pos := fun _ _ h => nomatch h
  supply_pos := fun _ _ h => nomatch h
  unlisted := fun _ _ _ _ => rfl

/-- What an investment does to a deposit. -/
theorem invest_deposit
    (a a' : α) (p : π) {x : Bool → τ} (hx : x true ≠ x false) (n : Bool → ℤ) (y : τ) :
    invest a p x n (.deposit a' y) =
      if a = a' ∧ x true = y then -n true else if a = a' ∧ x false = y then -n false else 0 := by
  simp only [invest, move, Finsupp.coe_add, Finsupp.coe_sub, Pi.add_apply, Pi.sub_apply,
    Finsupp.single_apply, reduceCtorEq, if_false, Holding.deposit.injEq]
  by_cases ha : a = a'
  · by_cases h1 : x true = y
    · have h2 : x false ≠ y := fun h2 => hx (h1.trans h2.symm)
      simp [ha, h1, h2]
    · simp only [ha, h1, true_and, if_false]
      split_ifs <;> omega
  · simp [ha]

theorem invest_reserve
    (a : α) (p q : π) (x : Bool → τ) (n : Bool → ℤ) (side : Bool) (y : τ) :
    invest a p x n (.reserve q side y) = if p = q ∧ x side = y then n side else 0 := by
  simp only [invest, move, Finsupp.coe_add, Finsupp.coe_sub, Pi.add_apply, Pi.sub_apply,
    Finsupp.single_apply, reduceCtorEq, if_false, Holding.reserve.injEq]
  cases side with
  | true => simp
  | false => simp

namespace Exchange.Sound

/-- Entries keep an exchange sound if the balances that they leave are in order. -/
theorem post
    {b : Books α τ π} (sound : ex.Sound)
    (hdeposit : ∀ a x, 0 ≤ ex.deposit a x + b (.deposit a x))
    (hshares : ∀ a p, 0 ≤ ex.shares a p + b (.shares a p))
    (hreserve : ∀ p x, ex.market p = some x → ∀ side,
      0 < ex.reserve p side (x side) + b (.reserve p side (x side)))
    (hsupply : ∀ p x, ex.market p = some x →
      0 < ex.supply p + Books.sumOver (fun k => k.currency = .inr p) b)
    (hunlisted : ∀ p, ex.market p = none → ∀ k : Holding α τ π, k.OfMarket p → b k = 0) :
    (ex.post b).Sound where
  deposit_nonneg := hdeposit
  shares_nonneg := hshares
  differ := sound.differ
  reserve_pos := hreserve
  supply_pos := by
    intro p x h
    rw [post_supply]
    exact hsupply p x h
  unlisted := by
    intro p h k hk
    rw [post_books, Finsupp.add_apply, sound.unlisted p h k hk, hunlisted p h k hk, add_zero]

theorem settle
    {a : α} {x : τ} {n : ℤ} (sound : ex.Sound) (funded : 0 ≤ ex.deposit a x + n) :
    (ex.post (.single (.deposit a x) n)).Sound := by
  refine sound.post ?_ ?_ ?_ ?_ ?_
  · intro a' y
    rw [Finsupp.single_apply]
    split_ifs with h
    · obtain ⟨rfl, rfl⟩ := Holding.deposit.inj h
      exact funded
    · rw [add_zero]
      exact sound.deposit_nonneg a' y
  · intro a' p
    simpa using sound.shares_nonneg a' p
  · intro p t h side
    simpa using sound.reserve_pos p t h side
  · intro p t h
    simpa using sound.supply_pos p t h
  · intro p h k hk
    rw [Finsupp.single_apply, if_neg]
    rintro rfl
    exact hk

theorem send
    {a b : α} {p : π} {n : ℤ} (sound : ex.Sound) (pos : 0 < n) (funded : n ≤ ex.shares a p) :
    (ex.post (move (.shares a p) (.shares b p) n)).Sound := by
  have hlisted : ex.market p ≠ none := by
    intro h
    have hzero : ex.shares a p = 0 := sound.unlisted p h (.shares a p) rfl
    omega
  refine sound.post ?_ ?_ ?_ ?_ ?_
  · intro a' x
    simpa [move] using sound.deposit_nonneg a' x
  · intro a' q
    have hnonneg := sound.shares_nonneg a' q
    simp only [move, Finsupp.coe_sub, Pi.sub_apply, Finsupp.single_apply,
      Holding.shares.injEq]
    by_cases ha : a = a' ∧ p = q
    · obtain ⟨rfl, rfl⟩ := ha
      simp only [and_self, if_true]
      split_ifs <;> omega
    · rw [if_neg ha]
      split_ifs <;> omega
  · intro q t h side
    simpa [move] using sound.reserve_pos q t h side
  · intro q t h
    have hzero : Books.sumOver (fun k => k.currency = .inr q)
        (move (.shares a p) (.shares b p) n : Books α τ π) = 0 :=
      sumOver_move_eq_zero (by simp) n
    rw [hzero, add_zero]
    exact sound.supply_pos q t h
  · intro q h k hk
    have hne : p ≠ q := by
      rintro rfl
      exact hlisted h
    have hother : ∀ c : α, (Holding.shares c p : Holding α τ π) ≠ k := by
      rintro c rfl
      exact hne hk
    simp only [move, Finsupp.coe_sub, Pi.sub_apply, Finsupp.single_apply, if_neg (hother _),
      sub_zero]

theorem accrue
    {p : π} {x : Bool → τ} {side : Bool} {n : ℤ} (sound : ex.Sound)
    (listed : ex.market p = some x) : (ex.post (.single (.fee p side (x side)) n)).Sound := by
  refine sound.post ?_ ?_ ?_ ?_ ?_
  · intro a y
    simpa using sound.deposit_nonneg a y
  · intro a q
    simpa using sound.shares_nonneg a q
  · intro q t h side'
    simpa using sound.reserve_pos q t h side'
  · intro q t h
    simpa using sound.supply_pos q t h
  · intro q h k hk
    rw [Finsupp.single_apply, if_neg]
    rintro rfl
    obtain rfl : p = q := hk
    rw [listed] at h
    cases h

/-- The entries of an investment, with the shares bought by it, stay within the market. -/
theorem invested_outside
    {a : α} {p q : π} {x : Bool → τ} {n : Bool → ℤ} {shares : ℤ} (hne : p ≠ q)
    {k : Holding α τ π} (hk : k.OfMarket q) :
    (invest a p x n + .single (.shares a p) shares) k = 0 := by
  cases k with
  | deposit => exact hk.elim
  | shares b q' =>
      obtain rfl : q' = q := hk
      simp [invest, move, hne]
  | reserve q' side y =>
      obtain rfl : q' = q := hk
      rw [Finsupp.add_apply, invest_reserve, if_neg fun h => hne h.1]
      simp
  | fee q' side y =>
      obtain rfl : q' = q := hk
      simp [invest, move]

/-- Only the shares that are bought change a supply. -/
theorem invested_supply
    {a : α} {p q : π} {x : Bool → τ} {n : Bool → ℤ} {shares : ℤ} :
    Books.sumOver (fun k => k.currency = .inr q)
      (invest a p x n + .single (.shares a p) shares) = if p = q then shares else 0 := by
  classical
  rw [map_add, sumOver_invest_eq_zero fun side => ?_, zero_add, Books.sumOver_single]
  · simp
  · simp

/-- The account can pay for an investment. -/
theorem invested_deposit
    {a : α} {p : π} {x : Bool → τ} {n : Bool → ℤ} {shares : ℤ} (sound : ex.Sound)
    (differ : x true ≠ x false) (funded : ∀ side, n side ≤ ex.deposit a (x side))
    (a' : α) (y : τ) :
    0 ≤ ex.deposit a' y + (invest a p x n + .single (.shares a p) shares) (.deposit a' y) := by
  have hnonneg := sound.deposit_nonneg a' y
  have hshares : (Finsupp.single (.shares a p) shares : Books α τ π) (.deposit a' y) = 0 := by
    simp
  rw [Finsupp.add_apply, invest_deposit _ _ _ differ, hshares]
  split_ifs with h1 h2
  · obtain ⟨rfl, rfl⟩ := h1
    have hle := funded true
    omega
  · obtain ⟨rfl, rfl⟩ := h2
    have hle := funded false
    omega
  · omega

theorem invested_shares
    {a : α} {p : π} {x : Bool → τ} {n : Bool → ℤ} {shares : ℤ} (sound : ex.Sound)
    (held : 0 ≤ ex.shares a p + shares) (a' : α) (q : π) :
    0 ≤ ex.shares a' q + (invest a p x n + .single (.shares a p) shares) (.shares a' q) := by
  have hinvest : invest a p x n (.shares a' q) = 0 := by simp [invest, move]
  rw [Finsupp.add_apply, hinvest, zero_add, Finsupp.single_apply]
  split_ifs with h
  · obtain ⟨rfl, rfl⟩ := Holding.shares.inj h
    exact held
  · rw [add_zero]
    exact sound.shares_nonneg a' q

theorem invested_reserve
    {a : α} {p q : π} {x : Bool → τ} {n : Bool → ℤ} {shares : ℤ} {side : Bool} {y : τ} :
    (invest a p x n + .single (.shares a p) shares) (.reserve q side y) =
      if p = q ∧ x side = y then n side else 0 := by
  have hshares : (Finsupp.single (.shares a p) shares : Books α τ π) (.reserve q side y) = 0 := by
    simp
  rw [Finsupp.add_apply, invest_reserve, hshares, add_zero]

theorem subscribe
    {a : α} {p : π} {x : Bool → τ} {shares : ℤ} {pay : Bool → ℤ} (sound : ex.Sound)
    (listed : ex.market p = some x)
    (priced : ∀ side, IsCeilDiv (pay side) (shares * ex.reserve p side (x side)) (ex.supply p))
    (funded : ∀ side, pay side ≤ ex.deposit a (x side)) (held : 0 ≤ ex.shares a p + shares)
    (stays : 0 < ex.supply p + shares) :
    (ex.post (invest a p x pay + .single (.shares a p) shares)).Sound := by
  refine sound.post (sound.invested_deposit (sound.differ p x listed) funded)
    (sound.invested_shares held) ?_ ?_ ?_
  · intro q t h side
    have hpos := sound.reserve_pos q t h side
    rw [invested_reserve]
    split_ifs with hq
    · obtain ⟨rfl, -⟩ := hq
      obtain rfl := Option.some.inj (listed.symm.trans h)
      have hsupply := sound.supply_pos p x listed
      have hshare := reserve_share_le (priced side).1
      exact pos_of_mul_pos_left ((mul_pos hpos stays).trans_le hshare) hsupply.le
    · omega
  · intro q t h
    have hpos := sound.supply_pos q t h
    rw [invested_supply]
    split_ifs with hq
    · subst hq
      exact stays
    · omega
  · intro q h k hk
    refine invested_outside ?_ hk
    rintro rfl
    rw [listed] at h
    cases h

/-- The entries of a swap. -/
theorem swap
    {a : α} {p : π} {x : Bool → τ} {side : Bool} {paid taken : ℤ} (sound : ex.Sound)
    (listed : ex.market p = some x) (stays : 0 < ex.reserve p side (x side) + paid)
    (priced : taken = swapOut (ex.reserve p side (x side)) (ex.reserve p (!side) (x !side)) paid)
    (funded : paid ≤ ex.deposit a (x side)) (covered : 0 ≤ ex.deposit a (x !side) + taken) :
    (ex.post (move (.deposit a (x side)) (.reserve p side (x side)) paid +
      move (.reserve p (!side) (x !side)) (.deposit a (x !side)) taken)).Sound := by
  have hdiffer : x side ≠ x !side := by
    have h := sound.differ p x listed
    cases side with
    | true => exact h
    | false => exact h.symm
  have houtPos : 0 < ex.reserve p (!side) (x !side) - taken := by
    have hproduct := (product_le_iff_le_swapOut stays).mpr priced.le
    have hpos := mul_pos (sound.reserve_pos p x listed side) (sound.reserve_pos p x listed !side)
    exact pos_of_mul_pos_right (hpos.trans_le hproduct) stays.le
  refine sound.post ?_ ?_ ?_ ?_ ?_
  · intro a' y
    have hnonneg := sound.deposit_nonneg a' y
    simp only [move, Finsupp.coe_add, Finsupp.coe_sub, Pi.add_apply, Pi.sub_apply,
      Finsupp.single_apply, reduceCtorEq, if_false, Holding.deposit.injEq]
    by_cases ha : a = a'
    · subst ha
      by_cases hin : x side = y
      · subst hin
        simp only [hdiffer.symm, and_false, true_and, if_true, if_false]
        omega
      · by_cases hout : x (!side) = y
        · subst hout
          simp only [hin, and_false, true_and, if_true, if_false]
          omega
        · simp only [hin, hout, and_false, if_false]
          omega
    · simp only [ha, false_and, if_false]
      omega
  · intro a' q
    simpa [move] using sound.shares_nonneg a' q
  · intro q t h side'
    have hpos := sound.reserve_pos q t h side'
    simp only [move, Finsupp.coe_add, Finsupp.coe_sub, Pi.add_apply, Pi.sub_apply,
      Finsupp.single_apply, reduceCtorEq, if_false, Holding.reserve.injEq]
    by_cases hq : p = q
    · subst hq
      obtain rfl := Option.some.inj (listed.symm.trans h)
      by_cases hside : side = side'
      · subst hside
        simp only [Bool.not_eq_self, false_and, and_false, and_self, if_true, if_false]
        omega
      · obtain rfl : side' = !side := by
          cases side <;> cases side' <;> simp_all
        simp only [Bool.eq_not_self, false_and, and_false, and_self, if_true, if_false]
        omega
    · simp only [hq, false_and, if_false]
      omega
  · intro q t h
    have hzero : Books.sumOver (fun k => k.currency = .inr q)
        (move (.deposit a (x side)) (.reserve p side (x side)) paid +
          move (.reserve p (!side) (x !side)) (.deposit a (x !side)) taken) = 0 := by
      rw [map_add, sumOver_move_eq_zero, sumOver_move_eq_zero, add_zero]
      · simp
      · simp
    rw [hzero, add_zero]
    exact sound.supply_pos q t h
  · intro q h k hk
    have hne : p ≠ q := by
      rintro rfl
      rw [listed] at h
      cases h
    cases k with
    | deposit => exact hk.elim
    | shares b q' => simp [move]
    | reserve q' side' y =>
        obtain rfl : q' = q := hk
        simp [move, hne]
    | fee q' side' y => simp [move]

theorem launch
    {a : α} {p : π} {x : Bool → τ} {n : Bool → ℤ} {shares : ℤ} (sound : ex.Sound)
    (fresh : ex.market p = none) (differ : x true ≠ x false) (stocked : ∀ side, 0 < n side)
    (pos : 0 < shares) (funded : ∀ side, n side ≤ ex.deposit a (x side)) :
    ((ex.post (invest a p x n + .single (.shares a p) shares)).list p (some x)).Sound where
  deposit_nonneg := sound.invested_deposit differ funded
  shares_nonneg := by
    have hnonneg := sound.shares_nonneg a p
    exact sound.invested_shares (by omega)
  differ := by
    intro q t h
    rw [list_market] at h
    split_ifs at h
    · obtain rfl := Option.some.inj h
      exact differ
    · exact sound.differ q t h
  reserve_pos := by
    intro q t h side
    rw [list_market] at h
    rw [Exchange.reserve, list_books, post_books, Finsupp.add_apply, invested_reserve]
    split_ifs at h with hq
    · subst hq
      obtain rfl := Option.some.inj h
      have hpos := stocked side
      rw [sound.unlisted q fresh (.reserve q side (x side)) rfl, if_pos ⟨rfl, rfl⟩, zero_add]
      exact hpos
    · have hpos := sound.reserve_pos q t h side
      rw [if_neg fun hp => hq hp.1.symm, add_zero]
      exact hpos
  supply_pos := by
    intro q t h
    rw [list_market] at h
    rw [Exchange.supply, list_books, post_books, map_add, invested_supply]
    split_ifs at h with hq
    · subst hq
      have hzero : Books.sumOver (fun k => k.currency = .inr q) ex.books = 0 := by
        refine Books.sumOver_eq_zero fun k hk => sound.unlisted q fresh k ?_
        cases k with
        | shares b q' => exact Sum.inr.inj hk
        | deposit | reserve | fee => cases hk
      rw [hzero, if_pos rfl, zero_add]
      exact pos
    · have hpos := sound.supply_pos q t h
      rw [if_neg fun hp => hq hp.symm, add_zero]
      exact hpos
  unlisted := by
    intro q h k hk
    rw [list_market] at h
    split_ifs at h with hq
    rw [list_books, post_books, Finsupp.add_apply, sound.unlisted q h k hk,
      invested_outside (fun hp => hq hp.symm) hk, add_zero]

/-- Writing off what belongs to one market keeps the others, and that one if it keeps its
reserves and its shares. -/
theorem clear_of
    {p : π} {Q : Holding α τ π → Prop} (sound : ex.Sound)
    (hmarket : ∀ k, Q k → k.OfMarket p) {q : π} {t : Bool → τ} (h : ex.market q = some t)
    (hkept : q = p → ∀ k, Q k → Holding.FeeOf p k) :
    (∀ side, 0 < (ex.clear Q).reserve q side (t side)) ∧ 0 < (ex.clear Q).supply q := by
  have hnot : ∀ k : Holding α τ π, k.OfMarket q → ¬ k.FeeOf p → ¬ Q k := by
    intro k hk hfee hQ
    have hp := hmarket k hQ
    refine hfee (hkept ?_ k hQ)
    cases k with
    | deposit => exact hk.elim
    | shares | reserve | fee => exact hk.symm.trans hp
  constructor
  · intro side
    rw [Exchange.reserve, clear_books, Books.clear_apply,
      if_neg (hnot (.reserve q side (t side)) rfl id)]
    exact sound.reserve_pos q t h side
  · have hzero : Books.sumOver (fun k => k.currency = .inr q ∧ Q k) ex.books = 0 := by
      refine Books.sumOver_eq_zero ?_
      rintro k ⟨hk, hQ⟩
      cases k with
      | shares b q' => exact absurd hQ (hnot _ (Sum.inr.inj hk) id)
      | deposit | reserve | fee => cases hk
    rw [Exchange.supply, clear_books, Books.sumOver_clear, hzero, sub_zero]
    exact sound.supply_pos q t h

theorem clear_nonneg
    {Q : Holding α τ π → Prop} (sound : ex.Sound) (hdeposit : ∀ a x, ¬ Q (.deposit a x)) :
    (∀ a x, 0 ≤ (ex.clear Q).deposit a x) ∧ ∀ a p, 0 ≤ (ex.clear Q).shares a p := by
  constructor
  · intro a x
    rw [Exchange.deposit, clear_books, Books.clear_apply, if_neg (hdeposit a x)]
    exact sound.deposit_nonneg a x
  · intro a p
    rw [Exchange.shares, clear_books, Books.clear_apply]
    split_ifs
    · exact le_refl _
    · exact sound.shares_nonneg a p

theorem distribute
    (sound : ex.Sound) (p : π) : (ex.clear (Holding.FeeOf p)).Sound := by
  have hdeposit : ∀ a x, ¬ Holding.FeeOf (α := α) (τ := τ) p (.deposit a x) := fun _ _ => id
  have hmarket : ∀ k : Holding α τ π, k.FeeOf p → k.OfMarket p := by
    intro k hk
    cases k with
    | fee => exact hk
    | deposit | shares | reserve => exact hk.elim
  have hkept : ∀ q t, ex.market q = some t → (∀ side, 0 < (ex.clear (Holding.FeeOf p)).reserve q
      side (t side)) ∧ 0 < (ex.clear (Holding.FeeOf p)).supply q := fun q t h =>
    sound.clear_of hmarket h fun _ _ => id
  refine ⟨(sound.clear_nonneg hdeposit).1, (sound.clear_nonneg hdeposit).2, sound.differ,
    fun q t h => (hkept q t h).1, fun q t h => (hkept q t h).2, ?_⟩
  intro q h k hk
  rw [clear_books, Books.clear_apply, sound.unlisted q h k hk, ite_self]

theorem wind
    (sound : ex.Sound) (p : π) : ((ex.clear (Holding.OfMarket p)).list p none).Sound := by
  have hdeposit : ∀ a x, ¬ Holding.OfMarket (α := α) (τ := τ) p (.deposit a x) := fun _ _ => id
  have hkept : ∀ q t, ((ex.clear (Holding.OfMarket p)).list p none).market q = some t →
      ex.market q = some t ∧ (∀ side, 0 < (ex.clear (Holding.OfMarket p)).reserve q side (t side)) ∧
        0 < (ex.clear (Holding.OfMarket p)).supply q := by
    intro q t h
    rw [list_market] at h
    split_ifs at h with hq
    exact ⟨h, sound.clear_of (fun _ => id) h fun hp => absurd hp hq⟩
  refine ⟨(sound.clear_nonneg hdeposit).1, (sound.clear_nonneg hdeposit).2, ?_,
    fun q t h => (hkept q t h).2.1, fun q t h => (hkept q t h).2.2, ?_⟩
  · intro q t h
    exact sound.differ q t (hkept q t h).1
  · intro q h k hk
    rw [list_market] at h
    rw [list_books, clear_books, Books.clear_apply]
    split_ifs at h with hq
    · rw [if_pos (hq ▸ hk)]
    · rw [sound.unlisted q h k hk, ite_self]

/-- Deals keep an exchange sound. -/
theorem trade
    {d : Deal α τ π} (sound : ex.Sound) (h : ex.Trade d ex') : ex'.Sound := by
  cases h with
  | settle funded => exact sound.settle funded
  | send pos funded => exact sound.send pos funded
  | launch fresh differ stocked pos funded =>
      exact sound.launch fresh differ stocked pos funded
  | subscribe listed priced funded held stays =>
      exact sound.subscribe listed priced funded held stays
  | swap listed stays priced funded covered =>
      exact sound.swap listed stays priced funded covered
  | accrue listed => exact sound.accrue listed
  | distribute => exact sound.distribute _
  | wind => exact sound.wind _

end Exchange.Sound

end Soundness

section Totals

variable {α : Type u} {τ : Type v} {π : Type w} [DecidableEq τ] {ex ex' : Exchange α τ π}

end Totals

end Kernel

end Lemonade
