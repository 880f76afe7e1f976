import Lemonade.Kernel.Exchange
import Mathlib.Tactic

/-!
# Groups of accounts on an exchange

A group of accounts trades with one market, in any order and as often as it likes,
while the other accounts deal elsewhere.  What the group takes from the market leaves
the market (`Drawn`), and trades never lower the value of its shares.  So the group
cannot gain in one token of the market without losing in the other (`no_free_lunch`).
-/

namespace Lemonade
namespace Kernel

universe u v w

section Values

variable {α : Type u} {τ : Type v} {π : Type w} {ex ex' : Exchange α τ π}
variable {U : α → Prop} {p : π} {x : Bool → τ}

/-- A listed market, as a pool. -/
noncomputable def Exchange.Sound.pool
    (sound : ex.Sound) (listed : ex.market p = some x) : Pool ℤ where
  supply := ex.supply p
  left := ex.reserve p true (x true)
  right := ex.reserve p false (x false)
  supply_pos := sound.supply_pos p x listed
  left_pos := sound.reserve_pos p x listed true
  right_pos := sound.reserve_pos p x listed false

/-- Shares of a market that some accounts hold. -/
def Holding.SharesOf (U : α → Prop) (p : π) : Holding α τ π → Prop
  | shares a q => U a ∧ q = p
  | _ => False

instance [DecidableEq π] (U : α → Prop) [DecidablePred U] (p : π) :
    DecidablePred (Holding.SharesOf (τ := τ) U p)
  | .shares _ _ => inferInstanceAs (Decidable (_ ∧ _))
  | .deposit _ _ => instDecidableFalse
  | .reserve _ _ _ => instDecidableFalse
  | .fee _ _ _ => instDecidableFalse

/-- The shares of some accounts in a market, all together. -/
noncomputable def Exchange.stake (ex : Exchange α τ π) (U : α → Prop) (p : π) : ℤ :=
  Books.sumOver (Holding.SharesOf U p) ex.books

/-- The accounts trade with one market only, and the others stay away from it. -/
def Deal.Apart (U : α → Prop) (p : π) : Deal α τ π → Prop
  | .settle a _ _ => ¬ U a
  | .send a b q _ => q = p → (U a ↔ U b)
  | .launch a _ _ _ _ => ¬ U a
  | .subscribe a q _ _ => U a ↔ q = p
  | .swap a q _ _ _ => U a ↔ q = p
  | .accrue _ _ _ _ => True
  | .distribute _ => True
  | .wind q => q ≠ p

/-- What some accounts take from a market leaves it. -/
structure Drawn (U : α → Prop) (p : π) (x : Bool → τ) (ex ex' : Exchange α τ π) : Prop where
  listed : ex'.market p = some x
  wealth : ∀ side, ex'.wealth U (x side) + ex'.reserve p side (x side) =
    ex.wealth U (x side) + ex.reserve p side (x side)
  stake : ex'.supply p - ex'.stake U p = ex.supply p - ex.stake U p
  value : ∀ (sound : ex.Sound) (listed : ex.market p = some x) (sound' : ex'.Sound)
    (listed' : ex'.market p = some x), (sound.pool listed).ValueLE (sound'.pool listed')

theorem Drawn.trans
    {ex'' : Exchange α τ π} (sound' : ex'.Sound) (h : Drawn U p x ex ex')
    (h' : Drawn U p x ex' ex'') : Drawn U p x ex ex'' where
  listed := h'.listed
  wealth := fun side => (h'.wealth side).trans (h.wealth side)
  stake := h'.stake.trans h.stake
  value := fun sound listed sound'' listed'' =>
    Pool.valueLE_trans (h.value sound listed sound' h.listed)
      (h'.value sound' h.listed sound'' listed'')

/-- The entries for shares that are bought or sold by one of the accounts. -/
theorem drawn_subscribe
    {a : α} {shares : ℤ} {pay : Bool → ℤ} (hU : U a) (differ : x true ≠ x false)
    (listed : ex.market p = some x)
    (priced : ∀ side, IsCeilDiv (pay side) (shares * ex.reserve p side (x side)) (ex.supply p)) :
    Drawn U p x ex (ex.post (invest a p x pay + .single (.shares a p) shares)) := by
  classical
  have hreserve : ∀ side, (ex.post (invest a p x pay + .single (.shares a p) shares)).reserve p
      side (x side) = ex.reserve p side (x side) + pay side := by
    intro side
    rw [Exchange.post_reserve, Exchange.Sound.invested_reserve, if_pos ⟨rfl, rfl⟩]
  have hsupply : (ex.post (invest a p x pay + .single (.shares a p) shares)).supply p =
      ex.supply p + shares := by
    rw [Exchange.post_supply, Exchange.Sound.invested_supply, if_pos rfl]
  refine ⟨listed, ?_, ?_, ?_⟩
  · intro side
    have hwealth : Books.sumOver (Holding.DepositOf U (x side))
        (invest a p x pay + .single (.shares a p) shares) = -pay side := by
      cases side with
      | true => simp [invest, move, Holding.DepositOf, hU, differ.symm]
      | false => simp [invest, move, Holding.DepositOf, hU, differ]
    rw [hreserve, Exchange.wealth, Exchange.post_books, map_add, hwealth]
    unfold Exchange.wealth
    omega
  · have hstake : Books.sumOver (Holding.SharesOf U p)
        (invest a p x pay + .single (.shares a p) shares) = shares := by
      simp [invest, move, Holding.SharesOf, hU]
    rw [hsupply, Exchange.stake, Exchange.post_books, map_add, hstake]
    unfold Exchange.stake
    omega
  · intro sound h sound' h'
    refine Pool.valueLE_of_shares ?_ ?_
    · simp only [Exchange.Sound.pool, hreserve, hsupply]
      exact reserve_share_le (priced true).1
    · simp only [Exchange.Sound.pool, hreserve, hsupply]
      exact reserve_share_le (priced false).1

theorem drawn_swap
    {a : α} {side : Bool} {paid taken : ℤ} (hU : U a) (differ : x true ≠ x false)
    (listed : ex.market p = some x) (stays : 0 < ex.reserve p side (x side) + paid)
    (priced : taken =
      swapOut (ex.reserve p side (x side)) (ex.reserve p (!side) (x !side)) paid) :
    Drawn U p x ex (ex.post (move (.deposit a (x side)) (.reserve p side (x side)) paid +
      move (.reserve p (!side) (x !side)) (.deposit a (x !side)) taken)) := by
  classical
  have hreserve : ∀ b, (ex.post (move (.deposit a (x side)) (.reserve p side (x side)) paid +
      move (.reserve p (!side) (x !side)) (.deposit a (x !side)) taken)).reserve p b (x b) =
        ex.reserve p b (x b) + if b = side then paid else -taken := by
    intro b
    rw [Exchange.post_reserve]
    cases b <;> cases side <;> simp [move]
  have hsupply : (ex.post (move (.deposit a (x side)) (.reserve p side (x side)) paid +
      move (.reserve p (!side) (x !side)) (.deposit a (x !side)) taken)).supply p =
        ex.supply p := by
    rw [Exchange.post_supply, map_add, sumOver_move_eq_zero (by simp),
      sumOver_move_eq_zero (by simp)]
    omega
  refine ⟨listed, ?_, ?_, ?_⟩
  · intro b
    have hwealth : Books.sumOver (Holding.DepositOf U (x b))
        (move (.deposit a (x side)) (.reserve p side (x side)) paid +
          move (.reserve p (!side) (x !side)) (.deposit a (x !side)) taken) =
            if b = side then -paid else taken := by
      cases b <;> cases side <;> simp [move, Holding.DepositOf, hU, differ, differ.symm]
    rw [hreserve, Exchange.wealth, Exchange.post_books, map_add, hwealth]
    unfold Exchange.wealth
    split_ifs <;> omega
  · have hstake : Books.sumOver (Holding.SharesOf U p)
        (move (.deposit a (x side)) (.reserve p side (x side)) paid +
          move (.reserve p (!side) (x !side)) (.deposit a (x !side)) taken) = 0 := by
      simp [move, Holding.SharesOf]
    rw [hsupply, Exchange.stake, Exchange.post_books, map_add, hstake, add_zero]
    rfl
  · intro sound h sound' h'
    have hproduct := (product_le_iff_le_swapOut stays).mpr priced.le
    refine Pool.valueLE_of_product hsupply ?_
    simp only [Exchange.Sound.pool, hreserve]
    cases side with
    | true => simpa [sub_eq_add_neg] using hproduct
    | false =>
        rw [mul_comm, mul_comm (_ + _)]
        simpa [sub_eq_add_neg] using hproduct

/-- What leaves the accounts and the market alone draws nothing. -/
theorem Drawn.of_untouched
    (listed : ex'.market p = some x)
    (hwealth : ∀ side, ex'.wealth U (x side) = ex.wealth U (x side))
    (hreserve : ∀ side, ex'.reserve p side (x side) = ex.reserve p side (x side))
    (hstake : ex'.stake U p = ex.stake U p) (hsupply : ex'.supply p = ex.supply p) :
    Drawn U p x ex ex' where
  listed := listed
  wealth := by
    intro side
    rw [hwealth, hreserve]
  stake := by rw [hstake, hsupply]
  value := by
    intro sound h sound' h'
    refine Pool.valueLE_of_product hsupply ?_
    simp only [Exchange.Sound.pool, hreserve]
    exact le_refl _

theorem Drawn.of_books
    {b : Books α τ π} (listed : ex'.market p = some x) (hbooks : ex'.books = ex.books + b)
    (hwealth : ∀ y, Books.sumOver (Holding.DepositOf U y) b = 0)
    (hreserve : ∀ side y, b (.reserve p side y) = 0)
    (hstake : Books.sumOver (Holding.SharesOf U p) b = 0)
    (hsupply : Books.sumOver (fun k => k.currency = .inr p) b = 0) : Drawn U p x ex ex' := by
  refine .of_untouched listed (fun side => ?_) (fun side => ?_) ?_ ?_
  · rw [Exchange.wealth, hbooks, map_add, hwealth, add_zero]
    rfl
  · rw [Exchange.reserve, hbooks, Finsupp.add_apply, hreserve, add_zero]
    rfl
  · rw [Exchange.stake, hbooks, map_add, hstake, add_zero]
    rfl
  · rw [Exchange.supply, hbooks, map_add, hsupply, add_zero]
    rfl

/-- Another account buys shares of another market. -/
theorem drawn_invest_elsewhere
    {a : α} {q : π} {y : Bool → τ} {n : Bool → ℤ} {shares : ℤ} (hU : ¬ U a) (hq : q ≠ p)
    (listed : ex'.market p = some x)
    (hbooks : ex'.books = ex.books + (invest a q y n + .single (.shares a q) shares)) :
    Drawn U p x ex ex' := by
  classical
  refine .of_books listed hbooks (fun z => ?_) (fun side z => ?_) ?_ ?_
  · rw [map_add, sumOver_invest_eq_zero fun _ => by simp [Holding.DepositOf, hU]]
    simp [Holding.DepositOf]
  · rw [Finsupp.add_apply, invest_reserve]
    simp [hq]
  · rw [map_add, sumOver_invest_eq_zero fun _ => by simp [Holding.SharesOf]]
    simp [Holding.SharesOf, hU]
  · rw [map_add, sumOver_invest_eq_zero fun _ => by simp]
    simp [hq]

theorem drawn_swap_elsewhere
    {a : α} {q : π} {y : Bool → τ} {side : Bool} {paid taken : ℤ} (hU : ¬ U a) (hq : q ≠ p)
    (listed : ex.market p = some x) :
    Drawn U p x ex (ex.post (move (.deposit a (y side)) (.reserve q side (y side)) paid +
      move (.reserve q (!side) (y !side)) (.deposit a (y !side)) taken)) := by
  classical
  refine .of_books listed rfl (fun z => ?_) (fun b z => ?_) ?_ ?_
  · rw [map_add, sumOver_move_eq_zero (by simp [Holding.DepositOf, hU]),
      sumOver_move_eq_zero (by simp [Holding.DepositOf, hU]), add_zero]
  · simp [move, hq]
  · rw [map_add, sumOver_move_eq_zero (by simp [Holding.SharesOf]),
      sumOver_move_eq_zero (by simp [Holding.SharesOf]), add_zero]
  · rw [map_add, sumOver_move_eq_zero (by simp), sumOver_move_eq_zero (by simp), add_zero]

/-- Fees, and what other markets hold, can be written off. -/
theorem drawn_clear
    {Q : Holding α τ π → Prop} (listed : ex'.market p = some x)
    (hbooks : ex'.books = ex.books.clear Q) (hdeposit : ∀ a y, ¬ Q (.deposit a y))
    (hshares : ∀ a, ¬ Q (.shares a p)) (hreserve : ∀ side y, ¬ Q (.reserve p side y)) :
    Drawn U p x ex ex' := by
  classical
  have hsum : ∀ P : Holding α τ π → Prop, (∀ k, P k → ¬ Q k) →
      Books.sumOver P ex'.books = Books.sumOver P ex.books := by
    intro P hP
    have hnone : Books.sumOver (fun k => P k ∧ Q k) ex.books = 0 :=
      Books.sumOver_eq_zero fun k hk => absurd hk.2 (hP k hk.1)
    rw [hbooks, Books.sumOver_clear, hnone, sub_zero]
  refine .of_untouched listed (fun side => hsum _ ?_) (fun side => ?_) (hsum _ ?_) (hsum _ ?_)
  · rintro (⟨a, y⟩ | _ | _ | _) hk
    · exact hdeposit a y
    all_goals exact hk.elim
  · rw [Exchange.reserve, hbooks, Books.clear_apply, if_neg (hreserve side (x side))]
    rfl
  · rintro (_ | ⟨a, q⟩ | _ | _) hk
    · exact hk.elim
    · obtain ⟨-, rfl⟩ := hk
      exact hshares a
    all_goals exact hk.elim
  · rintro (_ | ⟨a, q⟩ | _ | _) hk
    · exact absurd hk (by simp)
    · obtain rfl : q = p := by simpa using hk
      exact hshares a
    all_goals exact absurd hk (by simp)

theorem drawn_trade
    {d : Deal α τ π} (sound : ex.Sound) (listed : ex.market p = some x) (h : ex.Trade d ex')
    (hd : d.Apart U p) : Drawn U p x ex ex' := by
  classical
  cases h with
  | settle =>
      have hU : ¬ U _ := hd
      refine .of_books listed rfl (fun y => ?_) (fun side y => ?_) ?_ ?_
      · simp [Holding.DepositOf, hU]
      · simp
      · simp [Holding.SharesOf]
      · simp
  | @send a b q n =>
      have hab : q = p → (U a ↔ U b) := hd
      refine .of_books listed rfl (fun y => ?_) (fun side y => ?_) ?_ ?_
      · exact sumOver_move_eq_zero (by simp [Holding.DepositOf]) _
      · simp [move]
      · refine sumOver_move_eq_zero ?_ _
        exact ⟨fun hk => ⟨(hab hk.2).mp hk.1, hk.2⟩, fun hk => ⟨(hab hk.2).mpr hk.1, hk.2⟩⟩
      · exact sumOver_move_eq_zero (by simp) _
  | @launch a q y n shares fresh =>
      have hq : q ≠ p := by
        rintro rfl
        rw [listed] at fresh
        exact nomatch fresh
      refine drawn_invest_elsewhere hd hq ?_ rfl
      rw [Exchange.list_market, if_neg hq.symm]
      exact listed
  | @subscribe a q y shares pay listed' priced =>
      have hiff : U a ↔ q = p := hd
      by_cases hU : U a
      · obtain rfl := hiff.mp hU
        obtain rfl := Option.some.inj (listed.symm.trans listed')
        exact drawn_subscribe hU (sound.differ _ _ listed) listed priced
      · exact drawn_invest_elsewhere hU (hiff.not.mp hU) listed rfl
  | @swap a q y side paid taken listed' stays priced =>
      have hiff : U a ↔ q = p := hd
      by_cases hU : U a
      · obtain rfl := hiff.mp hU
        obtain rfl := Option.some.inj (listed.symm.trans listed')
        exact drawn_swap hU (sound.differ _ _ listed) listed stays priced
      · exact drawn_swap_elsewhere hU (hiff.not.mp hU) listed
  | accrue =>
      refine .of_books listed rfl (fun y => ?_) (fun side y => ?_) ?_ ?_
      · simp [Holding.DepositOf]
      · simp
      · simp [Holding.SharesOf]
      · simp
  | distribute => exact drawn_clear listed rfl (fun _ _ => id) (fun _ => id) (fun _ _ => id)
  | @wind q =>
      have hq : q ≠ p := hd
      refine drawn_clear ?_ rfl (fun _ _ => id) (fun _ => hq.symm) (fun _ _ => hq.symm)
      rw [Exchange.list_market, if_neg hq.symm]
      exact listed

theorem drawn_of_run
    {tr : List (Exchange α τ π × Deal α τ π)} (sound : ex.Sound) (listed : ex.market p = some x)
    (run : Run Exchange.Trade ex tr ex') (hwithin : ∀ q ∈ tr, q.2.Apart U p) :
    Drawn U p x ex ex' := by
  refine run.related_of_forall (fun q => q.2.Apart U p)
    (fun ex => ex.Sound ∧ ex.market p = some x) (Drawn U p x) ?_ ?_ ?_ ?_ hwithin ⟨sound, listed⟩
  · intro ex hex
    exact ⟨hex.2, fun _ => rfl, rfl, fun _ _ _ _ => Pool.valueLE_refl _⟩
  · intro s t u _ ht _ hst htu
    exact hst.trans ht.1 htu
  · intro s d t hd hs h
    exact ⟨hs.1.trade h, (drawn_trade hs.1 hs.2 h hd).listed⟩
  · intro s d t hd hs h
    exact drawn_trade hs.1 hs.2 h hd

/-- Accounts that trade with a market, in any order and as often as they like while the others
deal elsewhere, and end up with no fewer of its shares, cannot have gained in one of its tokens
without losing in the other. -/
theorem no_free_lunch
    {tr : List (Exchange α τ π × Deal α τ π)} (sound : ex.Sound) (listed : ex.market p = some x)
    (run : Run Exchange.Trade ex tr ex') (hwithin : ∀ q ∈ tr, q.2.Apart U p)
    (hstake : ex.stake U p ≤ ex'.stake U p) {side : Bool}
    (hgain : ex.wealth U (x side) < ex'.wealth U (x side)) :
    ex'.wealth U (x !side) < ex.wealth U (x !side) := by
  have hdrawn := drawn_of_run sound listed run hwithin
  have sound' : ex'.Sound := run.invariant Exchange.Sound (fun _ _ _ s h => s.trade h) sound
  have hvalue := hdrawn.value sound listed sound' hdrawn.listed
  have hsupply : ex.supply p ≤ ex'.supply p := by
    have h := hdrawn.stake
    omega
  have hin := hdrawn.wealth side
  have hout := hdrawn.wealth !side
  have hrises : ex.reserve p (!side) (x !side) < ex'.reserve p (!side) (x !side) := by
    have hfalls : ex'.reserve p side (x side) < ex.reserve p side (x side) := by omega
    cases side with
    | true => exact hvalue.right_lt hsupply hfalls
    | false => exact hvalue.left_lt hsupply hfalls
  omega

end Values

end Kernel

end Lemonade
