import Lemonade.Safety.StakingLedger
import Mathlib.Tactic

/-!
# The row of a stake

What the claims of an owner pay, and what a step does to the row of a stake that it
neither stores anew nor removes: a claim of LED or LEM adds to the rewards of the row what
it pays, `changeyield` sets the yield, and nothing else touches the row (`RowStep`).
-/

namespace Lemonade

open Kernel

section Payments

/-- LED that an inline action pays to an account -/
def Inline.led (owner : Name) : Inline → ℤ
  | .issue _ _ _ _ => 0
  | .transfer contract dest quantity _ =>
      if contract = ledTokenContract ∧ dest = owner ∧ quantity.symbol = ledSymbol then
        quantity.amount.toInt
      else 0

/-- LED that inline actions pay to an account -/
def ledPaid (owner : Name) (sent : List Inline) : ℤ := (sent.map (Inline.led owner)).sum

variable {owner : Name}

@[simp] theorem ledPaid_append (sent sent' : List Inline) :
    ledPaid owner (sent ++ sent') = ledPaid owner sent + ledPaid owner sent' := by
  simp [ledPaid]

@[simp] theorem ledPaid_nil : ledPaid owner [] = 0 := rfl

@[simp] theorem ledPaid_cons (x : Inline) (sent : List Inline) :
    ledPaid owner (x :: sent) = x.led owner + ledPaid owner sent := by
  simp [ledPaid]

theorem ledPaid_sendPositive_of_ne
    {dest : Name} {quantity : Asset} {memo : String} (h : quantity.symbol ≠ ledSymbol) :
    ledPaid owner (sendPositive dest quantity memo) = 0 := by
  unfold sendPositive
  split_ifs
  · simp [Inline.led, h]
  · rfl

theorem ledPaid_sendPositive
    (quantity : Asset) (memo : String) (h : quantity.symbol = ledSymbol) :
    ledPaid owner (sendPositive owner quantity memo) = max 0 quantity.amount.toInt := by
  unfold sendPositive
  split_ifs with hpos
  · have hpos' : 0 < quantity.amount.toInt := Int64.lt_iff_toInt_lt.mp hpos
    simp [Inline.led, h, hpos'.le]
  · rw [Int64.not_lt, Int64.le_iff_toInt_le, Int64.toInt_zero] at hpos
    simp [hpos]

/-- `issue_lem` pays in LEM only. -/
theorem ledPaid_of_issueLem [Doubles]
    {env : Env} {ctx : Ctx} {s s' : State} {sent : List Inline}
    (h : issueLem env ctx s = .ok (s', sent)) : ledPaid owner sent = 0 := by
  obtain ⟨_, -, ⟨-, -, rfl⟩ | ⟨token, -, -, ⟨-, -, rfl⟩ | ⟨-, hsent, -⟩⟩⟩ := issueLem_eq_ok h
  · rfl
  · rfl
  · simp only [distribute, bind_eq_ok_iff, Asset.make_eq_ok_iff, pure_eq_ok_iff] at hsent
    obtain ⟨_, ⟨_, -, -, -, rfl⟩, _, ⟨_, -, -, -, rfl⟩, _, ⟨_, -, -, -, rfl⟩, _, ⟨_, -, -, -, rfl⟩,
      rfl⟩ := hsent
    have hne : lemSymbol ≠ ledSymbol := ledSymbol_ne_lemSymbol.symm
    simp only [ledPaid_cons, ledPaid_append, Inline.led]
    rw [ledPaid_sendPositive_of_ne hne, ledPaid_sendPositive_of_ne hne,
      ledPaid_sendPositive_of_ne hne, ledPaid_sendPositive_of_ne hne]
    rfl

/-- The settlement of LEM is in LEM. -/
theorem lemSettlement_symbol [Doubles]
    {config : Config} {product : Product} {row : Staking} {current : UInt32} {r : Asset}
    (h : lemSettlement config product row current = .ok r) : r.symbol = lemSymbol := by
  unfold lemSettlement at h
  split_ifs at h
  · simp only [lemReward, bind_eq_ok_iff, Asset.make_eq_ok_iff, Asset.sub_eq_ok_iff] at h
    obtain ⟨_, ⟨_, -, -, -, rfl⟩, -, -, rfl⟩ := h
    rfl
  · obtain rfl := pure_eq_ok_iff.mp h
    rfl

theorem ledPaid_of_lemSettlement [Doubles]
    {config : Config} {product : Product} {row : Staking} {current : UInt32} {r : Asset}
    {dest : Name} {memo : String} (h : lemSettlement config product row current = .ok r) :
    ledPaid owner (sendPositive dest r memo) = 0 := by
  refine ledPaid_sendPositive_of_ne ?_
  rw [lemSettlement_symbol h]
  exact ledSymbol_ne_lemSymbol.symm

/-- LEM that an inline action pays to an account under a memo -/
def Inline.lemTo (owner : Name) (memo : String) : Inline → ℤ
  | .issue _ _ _ _ => 0
  | .transfer contract dest quantity memo' =>
      if contract = ledTokenContract ∧ dest = owner ∧ quantity.symbol = lemSymbol ∧
          memo' = memo.toList then
        quantity.amount.toInt
      else 0

/-- LEM that inline actions pay to an account under a memo -/
def lemPaid (owner : Name) (memo : String) (sent : List Inline) : ℤ :=
  (sent.map (Inline.lemTo owner memo)).sum

@[simp] theorem lemPaid_nil (memo : String) : lemPaid owner memo [] = 0 := rfl

@[simp] theorem lemPaid_append (memo : String) (sent sent' : List Inline) :
    lemPaid owner memo (sent ++ sent') = lemPaid owner memo sent + lemPaid owner memo sent' := by
  simp [lemPaid]

@[simp] theorem lemPaid_cons (memo : String) (x : Inline) (sent : List Inline) :
    lemPaid owner memo (x :: sent) = x.lemTo owner memo + lemPaid owner memo sent := by
  simp [lemPaid]

theorem lemPaid_sendPositive_of_ne
    {dest : Name} {quantity : Asset} {memo memo' : String} (h : memo'.toList ≠ memo.toList) :
    lemPaid owner memo (sendPositive dest quantity memo') = 0 := by
  unfold sendPositive
  split_ifs
  · simp [Inline.lemTo, h]
  · rfl

theorem lemPaid_sendPositive
    {quantity : Asset} (memo : String) (h : quantity.symbol = lemSymbol) :
    lemPaid owner memo (sendPositive owner quantity memo) = max 0 quantity.amount.toInt := by
  unfold sendPositive
  split_ifs with hpos
  · have hpos' : 0 < quantity.amount.toInt := Int64.lt_iff_toInt_lt.mp hpos
    simp [Inline.lemTo, h, hpos'.le]
  · rw [Int64.not_lt, Int64.le_iff_toInt_le, Int64.toInt_zero] at hpos
    simp [hpos]

/-- The shares that `issue_lem` sends on carry memos of their own. -/
theorem lemPaid_of_issueLem [Doubles]
    {env : Env} {ctx : Ctx} {s s' : State} {sent : List Inline} {memo : String}
    (hmemo : ∀ m ∈ ["fill bucket to rc reward", "fill bucket to marketing",
      "fill bucket to team", "fill bucket to reserve"], m.toList ≠ memo.toList)
    (h : issueLem env ctx s = .ok (s', sent)) : lemPaid owner memo sent = 0 := by
  obtain ⟨_, -, ⟨-, -, rfl⟩ | ⟨token, -, -, ⟨-, -, rfl⟩ | ⟨-, hsent, -⟩⟩⟩ := issueLem_eq_ok h
  · rfl
  · rfl
  · simp only [distribute, bind_eq_ok_iff, Asset.make_eq_ok_iff, pure_eq_ok_iff] at hsent
    obtain ⟨_, -, _, -, _, -, _, -, rfl⟩ := hsent
    simp only [lemPaid_cons, lemPaid_append, Inline.lemTo]
    rw [lemPaid_sendPositive_of_ne (hmemo _ (by simp)),
      lemPaid_sendPositive_of_ne (hmemo _ (by simp)),
      lemPaid_sendPositive_of_ne (hmemo _ (by simp)),
      lemPaid_sendPositive_of_ne (hmemo _ (by simp))]
    rfl

/-- LED that an event pays for a claim of an owner in a product -/
def claimPaid (owner productName : Name) (a : Action) (sent : List Inline) : ℤ :=
  match a with
  | .claimled o n => if o = owner ∧ n = productName then ledPaid owner sent else 0
  | _ => 0

theorem claimPaid_of_ne
    {productName : Name} {a : Action} {sent : List Inline}
    (h : a ≠ .claimled owner productName) : claimPaid owner productName a sent = 0 := by
  unfold claimPaid
  split
  · rw [if_neg]
    rintro ⟨rfl, rfl⟩
    exact h rfl
  · rfl

/-- LEM that an event pays for a claim of an owner in a product -/
def lemClaimPaid (owner productName : Name) (a : Action) (sent : List Inline) : ℤ :=
  match a with
  | .claimlem o n => if o = owner ∧ n = productName then lemPaid owner "claim lem" sent else 0
  | _ => 0

theorem lemClaimPaid_of_ne
    {productName : Name} {a : Action} {sent : List Inline}
    (h : a ≠ .claimlem owner productName) : lemClaimPaid owner productName a sent = 0 := by
  unfold lemClaimPaid
  split
  · rw [if_neg]
    rintro ⟨rfl, rfl⟩
    exact h rfl
  · rfl

end Payments

section Rows

/-- A row of an owner under the product of a name. -/
structure StakeIn (s : State) (owner productName : Name) (id i : Nat) (p : Product)
    (row : Staking) : Prop where
  name : p.name = productName
  productId : row.productId = id
  product : s.products.find? id = some p
  row : s.stakings.find? (owner, i) = some row

/-- What an action does to a row that it keeps: a claim of the owner, or a new yield. -/
inductive RowStep [Doubles] (ctx : Ctx) (s : State) (owner productName : Name) (p : Product)
    (row row' : Staking) (a : Action) (sent : List Inline) : Prop
  | same {yield : ℚ} (eq : row' = { row with currentYield := yield })
      (led : claimPaid owner productName a sent = 0)
      (lem : lemClaimPaid owner productName a sent = 0)
  | claimled {amount : Int64} {ledRewards : Asset} (action : a = .claimled owner productName)
      (pos : 0 < amount)
      (h : claimAmount row (claimTime ctx p row - row.lastClaimLedReward) = .ok amount)
      (add : row.ledRewards.add ⟨amount, ledSymbol⟩ = .ok ledRewards)
      (eq : row' = { row with
        lastClaimLedReward := claimTime ctx p row
        ledRewards := ledRewards })
      (paid : claimPaid owner productName a sent = amount.toInt)
  | claimlem {config : Config} {toOwnerLem lemRewards : Asset}
      (action : a = .claimlem owner productName) (config_eq : s.config = some config)
      (pos : 0 < toOwnerLem.amount)
      (h : lemReward row.balance (rewardSecs config.lastHalfLifeUpdated row.lastClaimLemReward
        (rewardsEnd row ctx.now)).toInt32.toInt64 = .ok toOwnerLem)
      (add : row.lemRewards.add toOwnerLem = .ok lemRewards)
      (eq : row' = { row with
        lastClaimLemReward := rewardsEnd row ctx.now
        lemRewards := lemRewards })
      (paid : lemClaimPaid owner productName a sent = toOwnerLem.amount.toInt)

/-- What an action does to the LED rewards of a row: nothing, or a claim. -/
inductive LedStep [Doubles] (ctx : Ctx) (owner productName : Name) (p : Product)
    (row row' : Staking) (a : Action) (sent : List Inline) : Prop
  | same (rewards : row'.ledRewards = row.ledRewards)
      (last : row'.lastClaimLedReward = row.lastClaimLedReward)
      (paid : claimPaid owner productName a sent = 0)
  | claim {amount : Int64} (action : a = .claimled owner productName) (pos : 0 < amount)
      (h : claimAmount row (claimTime ctx p row - row.lastClaimLedReward) = .ok amount)
      (rewards : row.ledRewards.add ⟨amount, ledSymbol⟩ = .ok row'.ledRewards)
      (last : row'.lastClaimLedReward = claimTime ctx p row)
      (paid : claimPaid owner productName a sent = amount.toInt)

theorem SameTerms.refl (p : Product) : SameTerms p p :=
  ⟨rfl, rfl, rfl, rfl, rfl, rfl, rfl, rfl, rfl⟩

theorem SameTerms.symm
    {p q : Product} (h : SameTerms p q) : SameTerms q p :=
  ⟨h.name.symm, h.symbol.symm, h.amountPerAccount.symm, h.maximumAmountLimit.symm,
    h.minimumYield.symm, h.maximumYield.symm, h.duration.symm, h.hasLemRewards.symm,
    h.hasPrediction.symm⟩

theorem SameTerms.trans
    {p q r : Product} (h : SameTerms p q) (h' : SameTerms q r) : SameTerms p r :=
  ⟨h'.name.trans h.name, h'.symbol.trans h.symbol, h'.amountPerAccount.trans h.amountPerAccount,
    h'.maximumAmountLimit.trans h.maximumAmountLimit, h'.minimumYield.trans h.minimumYield,
    h'.maximumYield.trans h.maximumYield, h'.duration.trans h.duration,
    h'.hasLemRewards.trans h.hasLemRewards, h'.hasPrediction.trans h.hasPrediction⟩

theorem RowStep.productId [Doubles]
    {ctx : Ctx} {s : State} {owner productName : Name} {p : Product} {row row' : Staking}
    {a : Action} {sent : List Inline} (h : RowStep ctx s owner productName p row row' a sent) :
    row'.productId = row.productId := by
  cases h with
  | same eq => rw [eq]
  | claimled _ _ _ _ eq => rw [eq]
  | claimlem _ _ _ _ _ eq => rw [eq]

theorem RowStep.sameStake [Doubles]
    {ctx : Ctx} {s : State} {owner productName : Name} {p : Product} {row row' : Staking}
    {a : Action} {sent : List Inline} (h : RowStep ctx s owner productName p row row' a sent) :
    SameStake row row' := by
  cases h with
  | same eq =>
      rw [eq]
      exact ⟨rfl, rfl, rfl, rfl, rfl⟩
  | claimled _ _ _ _ eq =>
      rw [eq]
      exact ⟨rfl, rfl, rfl, rfl, rfl⟩
  | claimlem _ _ _ _ _ eq =>
      rw [eq]
      exact ⟨rfl, rfl, rfl, rfl, rfl⟩

theorem RowStep.ledStep [Doubles]
    {ctx : Ctx} {s : State} {owner productName : Name} {p : Product} {row row' : Staking}
    {a : Action} {sent : List Inline} (h : RowStep ctx s owner productName p row row' a sent) :
    LedStep ctx owner productName p row row' a sent := by
  cases h with
  | same eq led _ =>
      rw [eq]
      exact .same rfl rfl led
  | claimled action pos h add eq paid =>
      rw [eq]
      exact .claim action pos h add rfl paid
  | claimlem action _ _ _ _ eq _ =>
      rw [eq]
      refine .same rfl rfl (claimPaid_of_ne ?_)
      rw [action]
      simp

variable {s : State} {owner productName : Name} {id i : Nat} {p : Product} {row : Staking}

theorem StakeIn.stakeOk
    (h : StakeIn s owner productName id i p row) (inv : StakingLedger s) : StakeOk row p := by
  refine inv.stakeOk h.row ?_
  rw [h.productId, h.product]

/-- A row found through the index is the row in question, or stands under another key. -/
theorem StakeIn.found
    (h : StakeIn s owner productName id i p row) {o n : Name} {id' : Nat} {p' : Product}
    {key : Name × Nat} {row' : Staking} (hproduct : findProduct s n = some (id', p'))
    (hrow : findStaking s o id' = some (key, row')) :
    key ≠ (owner, i) ∨
      key = (owner, i) ∧ o = owner ∧ n = productName ∧ id' = id ∧ p' = p ∧ row' = row := by
  by_cases hkey : key = (owner, i)
  · obtain ⟨hp', rfl⟩ := findProduct_eq_some hproduct
    obtain ⟨hrow', howner, rfl⟩ := findStaking_eq_some hrow
    subst hkey
    obtain rfl := Option.some.inj (h.row.symm.trans hrow')
    rw [h.productId] at hp'
    obtain rfl := Option.some.inj (h.product.symm.trans hp')
    exact Or.inr ⟨rfl, howner.symm, h.name, h.productId, rfl, rfl⟩
  · exact Or.inl hkey

/-- An owner has one row in a product. -/
theorem StakeIn.unique
    (h : StakeIn s owner productName id i p row) (inv : StakingLedger s) {id' i' : Nat}
    {p' : Product} {row' : Staking} (h' : StakeIn s owner productName id' i' p' row') :
    id' = id ∧ i' = i ∧ p' = p ∧ row' = row := by
  obtain rfl := inv.names id id' p p' h.product h'.product (h.name.trans h'.name.symm)
  obtain rfl := inv.atMostOne owner i i' row row' h.row h'.row (h.productId.trans h'.productId.symm)
  obtain rfl := Option.some.inj (h.row.symm.trans h'.row)
  obtain rfl := Option.some.inj (h.product.symm.trans h'.product)
  exact ⟨rfl, rfl, rfl, rfl⟩

/-- The index finds the row. -/
theorem StakeIn.eq_of_find
    (h : StakeIn s owner productName id i p row) (inv : StakingLedger s) {id' : Nat} {p' : Product}
    {key : Name × Nat} {row' : Staking} (hproduct : findProduct s productName = some (id', p'))
    (hrow : findStaking s owner id' = some (key, row')) :
    key = (owner, i) ∧ id' = id ∧ p' = p ∧ row' = row := by
  obtain ⟨hp', hname⟩ := findProduct_eq_some hproduct
  obtain ⟨hrow', howner, hid⟩ := findStaking_eq_some hrow
  obtain ⟨o, j⟩ := key
  obtain rfl : o = owner := howner
  obtain ⟨rfl, rfl, rfl, rfl⟩ := h.unique inv ⟨hname, hid, hp', hrow'⟩
  exact ⟨rfl, rfl, rfl, rfl⟩

/-- A step on stakes keeps the terms of the products it does not remove. -/
theorem StakeMove.sameTerms [Doubles]
    {env : Env} {ctx : Ctx} {s' : State} {a : Action} {sent : List Inline}
    (h : StakeMove env ctx s a s' sent) {p' : Product} (hp : s.products.find? id = some p)
    (hp' : s'.products.find? id = some p') : SameTerms p p' := by
  have hsame : s'.products = s.products → SameTerms p p' := by
    intro hproducts
    rw [hproducts] at hp'
    obtain rfl := Option.some.inj (hp.symm.trans hp')
    exact .refl p
  have hput : ∀ j q q', s.products.find? j = some q →
      s'.products = s.products.put j q' → SameTerms q q' → SameTerms p p' := by
    intro j q q' hq hproducts hterms
    rw [hproducts, Table.find?_put] at hp'
    split_ifs at hp' with hj
    · subst hj
      obtain rfl := Option.some.inj (hp.symm.trans hq)
      obtain rfl := Option.some.inj hp'
      exact hterms
    · obtain rfl := Option.some.inj (hp.symm.trans hp')
      exact .refl p
  cases h with
  | addproduct h =>
      obtain ⟨j, q, -, hfresh, -, -, -, -, -, -, rfl⟩ := addproduct_eq_ok h
      dsimp only at hp'
      rw [Table.find?_put] at hp'
      split_ifs at hp' with hj
      · subst hj
        cases hfresh.symm.trans hp
      · obtain rfl := Option.some.inj (hp.symm.trans hp')
        exact .refl p
  | rmproduct h =>
      obtain ⟨j, q, -, -, -, rfl⟩ := rmproduct_eq_ok h
      dsimp only at hp'
      rw [Table.find?_erase] at hp'
      split_ifs at hp'
      obtain rfl := Option.some.inj (hp.symm.trans hp')
      exact .refl p
  | stake _ _ _ h =>
      obtain ⟨j, q, q', hproduct, hproducts, hterms, -⟩ := stake_products h
      obtain ⟨hq, -⟩ := findProduct_eq_some hproduct
      exact hput j q q' hq hproducts hterms
  | unstake h =>
      obtain ⟨j, q, _, _, _, _, -, hproduct, -, hsub, hstate⟩ := unstake_tables h
      obtain ⟨hq, -⟩ := findProduct_eq_some hproduct
      obtain ⟨-, -, rfl⟩ := Asset.sub_eq_ok_iff.mp hsub
      exact hput j q _ hq (congrArg State.products hstate)
        ⟨rfl, rfl, rfl, rfl, rfl, rfl, rfl, rfl, rfl⟩
  | claimled h => exact hsame (claimled_rewritten h).products
  | claimlem h => exact hsame (claimlem_rewritten h).products
  | changeyield h => exact hsame (changeyield_rewritten h).products

end Rows

section Steps

variable {env : Env} {ctx : Ctx} {s s' : State} {a : Action} {sent : List Inline}
variable {owner productName : Name} {id i : Nat} {p : Product} {row : Staking}

/-- The action is a stake of an owner in a product. -/
def Stakes (env : Env) (owner productName : Name) (a : Action) : Prop :=
  ∃ firstReceiver dest quantity memo, a = .notify firstReceiver owner dest quantity memo ∧
    Incoming env owner dest ∧ Operation memo "stake" ∧
    stakeProduct (memoParser memo) = .ok productName

/-- The action ends the period of an owner in a product. -/
def EndsPeriod (env : Env) (owner productName : Name) (a : Action) : Prop :=
  a = .unstake owner productName ∨ Stakes env owner productName a

/-- A row after an action on stakes that does not end its period. -/
theorem rowStep_of_move [Doubles]
    (inv : StakingLedger s) (hin : StakeIn s owner productName id i p row)
    (hkeep : ¬ EndsPeriod env owner productName a) (h : StakeMove env ctx s a s' sent) :
    ∃ row', s'.stakings.find? (owner, i) = some row' ∧
      RowStep ctx s owner productName p row row' a sent := by
  have hsame : s'.stakings.find? (owner, i) = s.stakings.find? (owner, i) →
      a ≠ .claimled owner productName → a ≠ .claimlem owner productName →
      ∃ row', s'.stakings.find? (owner, i) = some row' ∧
        RowStep ctx s owner productName p row row' a sent := by
    intro hstakings hled hlem
    exact ⟨row, hstakings.trans hin.row, .same rfl (claimPaid_of_ne hled)
      (lemClaimPaid_of_ne hlem)⟩
  cases h with
  | addproduct h =>
      obtain ⟨_, _, -, -, -, -, -, -, -, -, rfl⟩ := addproduct_eq_ok h
      exact hsame rfl (by simp) (by simp)
  | rmproduct h =>
      obtain ⟨_, _, -, -, -, rfl⟩ := rmproduct_eq_ok h
      exact hsame rfl (by simp) (by simp)
  | @stake firstReceiver _ dest quantity memo _ _ _ _ hincoming hop hname h =>
      refine hsame ?_ (by simp) (by simp)
      obtain ⟨_, _, _, _, -, -, -, hproduct, -, -, hcase⟩ := stake_eq_ok h
      rcases hcase with ⟨-, -, hnew⟩ | ⟨key, old, hold, hmore⟩
      · obtain ⟨_, _, j, _, -, -, hfresh, -, hstate⟩ := stakeNew_eq_ok hnew
        rw [hstate]
        refine Table.find?_put_of_ne _ _ ?_
        intro he
        rw [he, hin.row] at hfresh
        cases hfresh
      · obtain ⟨_, _, _, -, -, hstate⟩ := stakeMore_tables hmore
        rcases hin.found hproduct hold with hkey | ⟨-, rfl, rfl, -⟩
        · rw [hstate]
          exact Table.find?_put_of_ne _ _ hkey
        · exact absurd (Or.inr ⟨_, _, _, _, rfl, hincoming, hop, hname⟩) hkeep
  | unstake h =>
      refine hsame ?_ (by simp) (by simp)
      obtain ⟨_, _, key, old, _, _, -, hproduct, hold, -, hstate⟩ := unstake_tables h
      rcases hin.found hproduct hold with hkey | ⟨-, rfl, rfl, -⟩
      · rw [hstate]
        exact Table.find?_erase_of_ne _ hkey
      · exact absurd (Or.inl rfl) hkeep
  | @claimled o n _ _ h =>
      obtain ⟨id', p', key, old, amount, -, hproduct, hold, hamount, hcase⟩ := claimled_eq_ok h
      rcases hin.found hproduct hold with hkey | ⟨rfl, rfl, rfl, rfl, rfl, rfl⟩
      · refine hsame ?_ ?_ (by simp)
        · rcases hcase with ⟨-, hstate, -⟩ | ⟨_, -, -, hstate, -⟩
          · rw [hstate]
          · rw [hstate]
            exact Table.find?_put_of_ne _ _ hkey
        · intro ha
          obtain ⟨rfl, rfl⟩ := Action.claimled.inj ha
          exact hkey (hin.eq_of_find inv hproduct hold).1
      · rcases hcase with ⟨-, rfl, rfl⟩ | ⟨ledRewards, hpos, hadd, rfl, rfl⟩
        · exact ⟨old, hin.row, .same rfl (by simp [claimPaid]) rfl⟩
        · refine ⟨_, Table.find?_put_self _ _ _, .claimled rfl hpos hamount hadd rfl ?_⟩
          simp [claimPaid, Inline.led]
  | @claimlem o n _ _ h =>
      obtain ⟨config, _, issued, _, _, key, old, toOwnerLem, -, hconfig, hissue, hproduct, hold, -,
        hlem, hcase⟩ := claimlem_eq_ok h
      have hissued : lemPaid owner "claim lem" issued = 0 :=
        lemPaid_of_issueLem (by decide +kernel) hissue
      rcases hin.found hproduct hold with hkey | ⟨rfl, rfl, rfl, rfl, rfl, rfl⟩
      · refine hsame ?_ (by simp) ?_
        · rcases hcase with ⟨-, hstate, -⟩ | ⟨_, -, -, hstate, -⟩
          · rw [hstate]
          · rw [hstate]
            exact Table.find?_put_of_ne _ _ hkey
        · intro ha
          obtain ⟨rfl, rfl⟩ := Action.claimlem.inj ha
          exact hkey (hin.eq_of_find inv hproduct hold).1
      · rcases hcase with ⟨-, rfl, rfl⟩ | ⟨lemRewards, hpos, hadd, rfl, rfl⟩
        · exact ⟨old, hin.row, .same rfl rfl (by simp [lemClaimPaid, hissued])⟩
        · refine ⟨_, Table.find?_put_self _ _ _, .claimlem rfl hconfig hpos hlem hadd rfl ?_⟩
          have hsymbol := (lemReward_eq_ok hlem).2.2
          simp [lemClaimPaid, hissued, Inline.lemTo, hsymbol]
  | changeyield h =>
      obtain ⟨_, _, key, old, hproduct, hold, -, -, rfl⟩ := changeyield_eq_ok h
      rcases hin.found hproduct hold with hkey | ⟨rfl, -, -, -, -, rfl⟩
      · exact hsame (Table.find?_put_of_ne _ _ hkey) (by simp) (by simp)
      · exact ⟨_, Table.find?_put_self _ _ _, .same rfl rfl rfl⟩

/-- A step that does not end the period keeps the row, and pays for it by claims only. -/
theorem rowStep_of_exec [Doubles]
    (inv : StakingLedger s) (hin : StakeIn s owner productName id i p row)
    (hkeep : ¬ EndsPeriod env owner productName a) (h : exec env ctx s a = .ok (s', sent)) :
    ∃ p' row', StakeIn s' owner productName id i p' row' ∧ SameTerms p p' ∧
      RowStep ctx s owner productName p row row' a sent := by
  have hquiet : s'.products = s.products → s'.stakings = s.stakings →
      a ≠ .claimled owner productName → a ≠ .claimlem owner productName →
      ∃ p' row', StakeIn s' owner productName id i p' row' ∧ SameTerms p p' ∧
        RowStep ctx s owner productName p row row' a sent := by
    intro hproducts hstakings hled hlem
    refine ⟨p, row, ⟨hin.name, hin.productId, ?_, ?_⟩, .refl p,
      .same rfl (claimPaid_of_ne hled) (lemClaimPaid_of_ne hlem)⟩
    · rw [hproducts, hin.product]
    · rw [hstakings, hin.row]
  have inv' := inv.exec h
  cases exec_area h with
  | stakes move =>
      obtain ⟨row', hrow', hrowstep⟩ := rowStep_of_move inv hin hkeep move
      have hid := hrowstep.productId.trans hin.productId
      obtain ⟨p', hp', -⟩ := inv'.stake _ row' hrow'
      rw [hid] at hp'
      have hterms := move.sameTerms hin.product hp'
      exact ⟨p', row', ⟨hterms.name.trans hin.name, hid, hp', hrow'⟩, hterms, hrowstep⟩
  | games move _ products stakings =>
      refine hquiet products stakings ?_ ?_
      · rintro rfl
        cases move
      · rintro rfl
        cases move
  | dex move stakes =>
      refine hquiet stakes.1 stakes.2.1 ?_ ?_
      · rintro rfl
        cases move
      · rintro rfl
        cases move
  | idle stakes _ admin =>
      refine hquiet stakes.1 stakes.2.1 ?_ ?_
      · rintro rfl
        cases admin
      · rintro rfl
        cases admin

/-- A stake is executed by `stake`. -/
theorem stake_of_exec [Doubles]
    (hstakes : Stakes env owner productName a) (h : exec env ctx s a = .ok (s', sent)) :
    ∃ quantity pricePrediction,
      stake env ctx s owner quantity productName pricePrediction = .ok (s', sent) := by
  obtain ⟨firstReceiver, dest, quantity, memo, rfl, hin, hop, hname⟩ := hstakes
  rcases transferEvent_eq_ok h with ⟨-, -, hidle⟩ | ⟨-, ⟨n, prediction, -, hname', hok⟩ |
    ⟨_, _, hop', -⟩ | ⟨hop', -⟩ | ⟨_, _, hop', -⟩⟩
  · exact absurd ⟨hin, Or.inl hop⟩ hidle
  · obtain rfl := Except.ok.inj (hname.symm.trans hname')
    exact ⟨quantity, prediction, hok⟩
  · exact absurd (hop.unique hop') (by decide)
  · exact absurd (hop.unique hop') (by decide)
  · exact absurd (hop.unique hop') (by decide)

end Steps

end Lemonade
