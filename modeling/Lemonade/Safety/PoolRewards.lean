import Lemonade.Kernel.ProRata
import Lemonade.Safety.LpLedger
import Mathlib.Tactic

/-!
# The rewards of a pool

A holder is owed its pro-rata share of both fees, by the contract of the fee.
`clmpoolreward` divides balance and supply as integers, so a holder gets all or nothing, and
it pays everything through led.token.  What it sends is right if every share is below one
unit, or if one holder has the whole supply and the fees are at led.token.  Doubles are
idealised here.
-/

namespace Lemonade

open Kernel
open Idealised

section Rewards

/-- The memo of a reward -/
def poolRewardMemo : Text := "Pool rewards for providing liquidity".toList

/-- Is this a reward of a pool to an account? -/
def Inline.isPoolReward (account : Name) : Inline → Bool
  | .issue _ _ _ _ => false
  | .transfer _ dest _ memo => decide (dest = account) && decide (memo = poolRewardMemo)

/-- A share is sent in one transfer by the contract of the fee, or not at all if it is zero. -/
def SendsShare (fee : ExtendedAsset) (share : ℤ) (account : Name) (sent : List Inline) : Prop :=
  share = 0 ∧ sent = [] ∨
    share ≠ 0 ∧ ∃ quantity, quantity.symbol = fee.quantity.symbol ∧
      quantity.amount.toInt = share ∧
      sent = [.transfer fee.contract account quantity poolRewardMemo]

/-- The reward in LEM, which is not a share of a fee -/
def SendsLem (token : CurrencyStats) (account : Name) (sent : List Inline) : Prop :=
  sent = [] ∨ ∃ quantity, quantity.symbol = token.fee3.quantity.symbol ∧
    sent = [.transfer ledTokenContract account quantity poolRewardMemo]

/-- The rewards of a holder are its shares of the two fees, and LEM. -/
def HolderPaid (token : CurrencyStats) (account : Name) (balance : ℤ) (sent : List Inline) :
    Prop :=
  ∃ share1 share2 lem, sent = share1 ++ share2 ++ lem ∧
    SendsShare token.fee1 (floorShare token.supply.amount.toInt
      token.fee1.quantity.amount.toInt balance) account share1 ∧
    SendsShare token.fee2 (floorShare token.supply.amount.toInt
      token.fee2.quantity.amount.toInt balance) account share2 ∧
    SendsLem token account lem

/-- The code meets the share of a fee: it is below one unit, or it is the whole fee and the
fee is at led.token. -/
def FeeMet (fee : ExtendedAsset) (supply balance : ℤ) : Prop :=
  0 ≤ fee.quantity.amount.toInt ∧
    (balance * fee.quantity.amount.toInt < supply ∨
      balance = supply ∧ fee.contract = ledTokenContract)

variable {config : Config} {token : CurrencyStats} {total pool : ℚ} {account : Name}
variable {balance : Asset} {sent : List Inline}

/-- A positive reward as it is sent, in one transfer by led.token. -/
theorem sendPositive_poolReward
    (quantity : Asset) :
    sendPositive account quantity "Pool rewards for providing liquidity" =
      if 0 < quantity.amount then
        [.transfer ledTokenContract account quantity poolRewardMemo] else [] := rfl

/-- What a holder is sent is computed from an integer ratio. -/
theorem holderRewards_eq_ok
    (hbalance : balance.amount ≠ 0)
    (h : holderRewards config token total pool account balance = .ok sent) :
    ∃ (reward1 reward2 reward3 : Asset) (lem : ℚ),
      (reward1.symbol = token.fee1.quantity.symbol ∧ reward1.amount.toInt =
        token.fee1.quantity.amount.toInt *
          balance.amount.toInt.tdiv token.supply.amount.toInt) ∧
      (reward2.symbol = token.fee2.quantity.symbol ∧ reward2.amount.toInt =
        token.fee2.quantity.amount.toInt *
          balance.amount.toInt.tdiv token.supply.amount.toInt) ∧
      (reward3.symbol = token.fee3.quantity.symbol ∧ reward3.amount.toInt =
        trunc (lem * balance.amount.toInt.tdiv token.supply.amount.toInt)) ∧
      sent = sendPositive account reward1 "Pool rewards for providing liquidity" ++
        sendPositive account reward2 "Pool rewards for providing liquidity" ++
        sendPositive account reward3 "Pool rewards for providing liquidity" := by
  simp only [holderRewards, if_neg hbalance, rewardShare, bind_eq_ok_iff, demand_eq_ok_iff,
    toInt64_eq_ok_iff, Asset.make_eq_ok_iff, pure_eq_ok_iff, rnd_eq] at h
  obtain ⟨_, -, reward1, ⟨a1, ha1, -, -, rfl⟩, reward2, ⟨a2, ha2, -, -, rfl⟩, _, -, reward3,
    ⟨a3, ha3, -, -, rfl⟩, rfl⟩ := h
  refine ⟨⟨a1, _⟩, ⟨a2, _⟩, ⟨a3, _⟩, _, ⟨rfl, ?_⟩, ⟨rfl, ?_⟩, ⟨rfl, ha3⟩, rfl⟩
  · rw [← Int.cast_mul, trunc_intCast] at ha1
    exact ha1
  · rw [← Int.cast_mul, trunc_intCast] at ha2
    exact ha2

/-- Everything that a holder is sent is a reward to it by led.token. -/
theorem mem_holderRewards
    (h : holderRewards config token total pool account balance = .ok sent) :
    ∀ i ∈ sent, ∃ quantity, 0 < quantity.amount ∧
      i = .transfer ledTokenContract account quantity poolRewardMemo := by
  intro i hi
  by_cases hbalance : balance.amount = 0
  · rw [holderRewards, if_pos hbalance] at h
    obtain rfl := pure_eq_ok_iff.mp h
    cases hi
  · obtain ⟨reward1, reward2, reward3, _, -, -, -, rfl⟩ := holderRewards_eq_ok hbalance h
    have hsend : ∀ reward, i ∈ sendPositive account reward "Pool rewards for providing liquidity" →
        ∃ quantity, 0 < quantity.amount ∧
          i = .transfer ledTokenContract account quantity poolRewardMemo := by
      intro reward hmem
      rw [sendPositive_poolReward] at hmem
      split_ifs at hmem with hpos
      · exact ⟨reward, hpos, List.mem_singleton.mp hmem⟩
      · cases hmem
    rcases List.mem_append.mp hi with hi | hi
    · rcases List.mem_append.mp hi with hi | hi
      · exact hsend _ hi
      · exact hsend _ hi
    · exact hsend _ hi

/-- A holder of a part of the supply is sent nothing. -/
theorem holderRewards_of_lt
    (hpos : 0 < balance.amount.toInt) (hlt : balance.amount.toInt < token.supply.amount.toInt)
    (h : holderRewards config token total pool account balance = .ok sent) : sent = [] := by
  have hbalance : balance.amount ≠ 0 := by
    intro hzero
    rw [hzero, Int64.toInt_zero] at hpos
    exact lt_irrefl 0 hpos
  obtain ⟨reward1, reward2, reward3, lem, ⟨-, h1⟩, ⟨-, h2⟩, ⟨-, h3⟩, rfl⟩ :=
    holderRewards_eq_ok hbalance h
  rw [Int.tdiv_eq_zero_of_lt hpos.le hlt] at h1 h2 h3
  have hnone : ∀ reward : Asset, reward.amount.toInt = 0 →
      sendPositive account reward "Pool rewards for providing liquidity" = [] := by
    intro reward hzero
    refine if_neg ?_
    rw [Int64.lt_iff_toInt_lt, hzero]
    exact lt_irrefl 0
  rw [hnone reward1 (by rw [h1, mul_zero]), hnone reward2 (by rw [h2, mul_zero]),
    hnone reward3 (by rw [h3, Int.cast_zero, mul_zero]; simp [trunc])]
  rfl

/-- The holder of the whole supply is sent the fees as a whole. -/
theorem holderRewards_of_eq
    (hpos : 0 < balance.amount.toInt) (heq : balance.amount.toInt = token.supply.amount.toInt)
    (h : holderRewards config token total pool account balance = .ok sent) :
    ∃ reward1 reward2 reward3 : Asset,
      (reward1.symbol = token.fee1.quantity.symbol ∧
        reward1.amount.toInt = token.fee1.quantity.amount.toInt) ∧
      (reward2.symbol = token.fee2.quantity.symbol ∧
        reward2.amount.toInt = token.fee2.quantity.amount.toInt) ∧
      reward3.symbol = token.fee3.quantity.symbol ∧
      sent = sendPositive account reward1 "Pool rewards for providing liquidity" ++
        sendPositive account reward2 "Pool rewards for providing liquidity" ++
        sendPositive account reward3 "Pool rewards for providing liquidity" := by
  have hbalance : balance.amount ≠ 0 := by
    intro hzero
    rw [hzero, Int64.toInt_zero] at hpos
    exact lt_irrefl 0 hpos
  obtain ⟨reward1, reward2, reward3, lem, ⟨hs1, h1⟩, ⟨hs2, h2⟩, ⟨hs3, -⟩, hsent⟩ :=
    holderRewards_eq_ok hbalance h
  rw [← heq, Int.tdiv_self hpos.ne', mul_one] at h1 h2
  exact ⟨reward1, reward2, reward3, ⟨hs1, h1⟩, ⟨hs2, h2⟩, hs3, hsent⟩

end Rewards

section Shares

variable {token : CurrencyStats} {fee : ExtendedAsset} {account : Name} {share : ℤ}
variable {supply balance : ℤ} {sent : List Inline} {reward : Asset}

theorem floorShare_self
    (hsupply : 0 < supply) (pot : ℤ) : floorShare supply pot supply = pot :=
  Int.mul_ediv_cancel_left pot hsupply.ne'

/-- A share below one unit -/
theorem floorShare_eq_zero_iff
    (hsupply : 0 < supply) (hpos : 0 < balance) {pot : ℤ} :
    floorShare supply pot balance = 0 ↔ 0 ≤ pot ∧ balance * pot < supply := by
  unfold floorShare
  rw [← mul_nonneg_iff_of_pos_left hpos]
  constructor
  · intro hzero
    have hdiv := Int.mul_ediv_add_emod (balance * pot) supply
    have hnonneg := Int.emod_nonneg (balance * pot) hsupply.ne'
    have hlt := Int.emod_lt_of_pos (balance * pot) hsupply
    rw [hzero, mul_zero] at hdiv
    omega
  · rintro ⟨hnonneg, hlt⟩
    exact Int.ediv_eq_zero_of_lt hnonneg hlt

theorem sendsShare_nil_iff
    (fee : ExtendedAsset) (account : Name) : SendsShare fee share account [] ↔ share = 0 := by
  simp [SendsShare]

/-- How many transfers a share takes. -/
theorem SendsShare.length_eq
    (h : SendsShare fee share account sent) : sent.length = if share = 0 then 0 else 1 := by
  rcases h with ⟨hzero, rfl⟩ | ⟨hne, quantity, -, -, rfl⟩
  · rw [if_pos hzero]
    rfl
  · rw [if_neg hne]
    rfl

/-- Among positive transfers a share is not negative. -/
theorem SendsShare.nonneg
    (h : SendsShare fee share account sent)
    (hpos : ∀ i ∈ sent, ∃ contract dest quantity memo, 0 < quantity.amount ∧
      i = .transfer contract dest quantity memo) : 0 ≤ share := by
  rcases h with ⟨hzero, -⟩ | ⟨-, quantity, -, hamount, rfl⟩
  · exact hzero.ge
  · obtain ⟨_, _, quantity', _, hquantity, heq⟩ := hpos _ List.mem_cons_self
    rw [Inline.transfer.injEq] at heq
    obtain ⟨-, -, rfl, -⟩ := heq
    rw [Int64.lt_iff_toInt_lt, hamount] at hquantity
    exact hquantity.le

/-- The whole fee is sent by led.token, which is right if the fee is there. -/
theorem sendsShare_sendPositive_iff
    (account : Name) (hsymbol : reward.symbol = fee.quantity.symbol)
    (hamount : reward.amount.toInt = fee.quantity.amount.toInt) (hsupply : 0 < supply) :
    SendsShare fee fee.quantity.amount.toInt account
        (sendPositive account reward "Pool rewards for providing liquidity") ↔
      FeeMet fee supply supply := by
  have hsent : 0 < reward.amount ↔ 0 < fee.quantity.amount.toInt := by
    rw [Int64.lt_iff_toInt_lt, hamount]
    rfl
  rw [sendPositive_poolReward]
  unfold FeeMet
  rcases lt_trichotomy fee.quantity.amount.toInt 0 with hneg | hzero | hpos
  · rw [if_neg fun h => absurd (hsent.mp h) hneg.not_gt, sendsShare_nil_iff]
    exact ⟨fun h => absurd h hneg.ne, fun h => absurd h.1 (not_le.mpr hneg)⟩
  · rw [if_neg fun h => absurd (hsent.mp h) hzero.not_gt, sendsShare_nil_iff, hzero, mul_zero]
    exact ⟨fun _ => ⟨le_refl 0, Or.inl hsupply⟩, fun _ => rfl⟩
  · have hwhole : ¬ supply * fee.quantity.amount.toInt < supply :=
      not_lt.mpr (le_mul_of_one_le_right hsupply.le hpos)
    rw [if_pos (hsent.mpr hpos)]
    constructor
    · rintro (⟨-, hnone⟩ | ⟨-, quantity, -, -, heq⟩)
      · cases hnone
      · rw [List.singleton_inj, Inline.transfer.injEq] at heq
        exact ⟨hpos.le, Or.inr ⟨rfl, heq.1.symm⟩⟩
    · rintro ⟨-, hlt | ⟨-, hcontract⟩⟩
      · exact absurd hlt hwhole
      · exact Or.inr ⟨hpos.ne', reward, hsymbol, hamount, by rw [hcontract]⟩

/-- The reward that the code sends for a share has the length of the share. -/
theorem SendsShare.length_sendPositive
    (h : SendsShare fee share account sent) (hnonneg : 0 ≤ share)
    (hamount : reward.amount.toInt = share) :
    (sendPositive account reward "Pool rewards for providing liquidity").length =
      sent.length := by
  have hsent : 0 < reward.amount ↔ 0 < share := by
    rw [Int64.lt_iff_toInt_lt, hamount]
    rfl
  rw [h.length_eq, sendPositive_poolReward]
  rcases hnonneg.lt_or_eq with hpos | hzero
  · rw [if_pos (hsent.mpr hpos), if_neg hpos.ne']
    rfl
  · rw [if_neg fun h => absurd (hsent.mp h) hzero.not_lt, if_pos hzero.symm]
    rfl

/-- A holder of a part of the supply is sent nothing, so both of its shares have to be below one
unit. -/
theorem holderPaid_nil_iff
    {balance : ℤ} (hpos : 0 < balance) (hlt : balance < token.supply.amount.toInt) :
    HolderPaid token account balance [] ↔
      FeeMet token.fee1 token.supply.amount.toInt balance ∧
        FeeMet token.fee2 token.supply.amount.toInt balance := by
  have hsupply : 0 < token.supply.amount.toInt := hpos.trans hlt
  have hmet : ∀ fee : ExtendedAsset, FeeMet fee token.supply.amount.toInt balance ↔
      floorShare token.supply.amount.toInt fee.quantity.amount.toInt balance = 0 := by
    intro fee
    rw [floorShare_eq_zero_iff hsupply hpos]
    exact and_congr_right fun _ => or_iff_left fun hwhole => hlt.ne hwhole.1
  rw [hmet, hmet, ← sendsShare_nil_iff token.fee1 account, ← sendsShare_nil_iff token.fee2 account]
  constructor
  · rintro ⟨share1, share2, lem, hnil, h1, h2, -⟩
    simp only [List.nil_eq, List.append_eq_nil_iff] at hnil
    obtain ⟨⟨rfl, rfl⟩, -⟩ := hnil
    exact ⟨h1, h2⟩
  · rintro ⟨h1, h2⟩
    exact ⟨[], [], [], rfl, h1, h2, Or.inl rfl⟩

/-- A holder of the whole supply is sent both fees by led.token. -/
theorem holderPaid_whole_iff
    {config : Config} {total pool : ℚ} {balance : Asset} (hpos : 0 < balance.amount.toInt)
    (heq : balance.amount.toInt = token.supply.amount.toInt)
    (h : holderRewards config token total pool account balance = .ok sent) :
    HolderPaid token account balance.amount.toInt sent ↔
      FeeMet token.fee1 token.supply.amount.toInt balance.amount.toInt ∧
        FeeMet token.fee2 token.supply.amount.toInt balance.amount.toInt := by
  have hsupply : 0 < token.supply.amount.toInt := heq ▸ hpos
  have hpositive : ∀ i ∈ sent, ∃ contract dest quantity memo, 0 < quantity.amount ∧
      i = Inline.transfer contract dest quantity memo := by
    intro i hi
    obtain ⟨quantity, hquantity, rfl⟩ := mem_holderRewards h i hi
    exact ⟨_, _, quantity, _, hquantity, rfl⟩
  obtain ⟨reward1, reward2, reward3, ⟨hs1, ha1⟩, ⟨hs2, ha2⟩, hs3, rfl⟩ :=
    holderRewards_of_eq hpos heq h
  rw [heq, ← sendsShare_sendPositive_iff account hs1 ha1 hsupply,
    ← sendsShare_sendPositive_iff account hs2 ha2 hsupply]
  unfold HolderPaid
  rw [floorShare_self hsupply, floorShare_self hsupply]
  constructor
  · rintro ⟨share1, share2, lem, hsplit, h1, h2, -⟩
    rw [hsplit] at hpositive
    have hnonneg1 := h1.nonneg fun i hi => hpositive i
      (List.mem_append_left _ (List.mem_append_left _ hi))
    have hnonneg2 := h2.nonneg fun i hi => hpositive i
      (List.mem_append_left _ (List.mem_append_right _ hi))
    have hlength1 := h1.length_sendPositive hnonneg1 ha1
    have hlength2 := h2.length_sendPositive hnonneg2 ha2
    rw [List.append_assoc, List.append_assoc] at hsplit
    obtain ⟨rfl, hrest⟩ := List.append_inj hsplit hlength1
    obtain ⟨rfl, -⟩ := List.append_inj hrest hlength2
    exact ⟨h1, h2⟩
  · rintro ⟨h1, h2⟩
    refine ⟨_, _, _, rfl, h1, h2, ?_⟩
    rw [sendPositive_poolReward]
    split_ifs
    · exact Or.inr ⟨reward3, hs3, rfl⟩
    · exact Or.inl rfl

/-- A holder is paid its shares exactly if the code meets both of them. -/
theorem holderPaid_iff
    {config : Config} {total pool : ℚ} {balance : Asset}
    (hpos : 0 < balance.amount.toInt) (hle : balance.amount.toInt ≤ token.supply.amount.toInt)
    (h : holderRewards config token total pool account balance = .ok sent) :
    HolderPaid token account balance.amount.toInt sent ↔
      FeeMet token.fee1 token.supply.amount.toInt balance.amount.toInt ∧
        FeeMet token.fee2 token.supply.amount.toInt balance.amount.toInt := by
  rcases hle.lt_or_eq with hlt | heq
  · obtain rfl := holderRewards_of_lt hpos hlt h
    exact holderPaid_nil_iff hpos hlt
  · exact holderPaid_whole_iff hpos heq h

end Shares

section Payments

variable {env : Env} {ctx : Ctx} {s s' : State} {config : Config} {token : CurrencyStats}
variable {total pool : ℚ} {sent issued : List Inline} {code : SymbolCode}

/-- The rewards to an account among what is sent -/
def poolRewardsTo (account : Name) (sent : List Inline) : List Inline :=
  sent.filter (Inline.isPoolReward account)

theorem poolRewardsTo_append
    (account : Name) (sent sent' : List Inline) :
    poolRewardsTo account (sent ++ sent') =
      poolRewardsTo account sent ++ poolRewardsTo account sent' :=
  List.filter_append _ _

/-- What a holder is sent are its rewards, and nobody else's. -/
theorem poolRewardsTo_holderRewards
    {owner : Name} {balance : Asset}
    (h : holderRewards config token total pool owner balance = .ok sent) (account : Name) :
    poolRewardsTo account sent = if owner = account then sent else [] := by
  have hmem := mem_holderRewards h
  unfold poolRewardsTo
  split_ifs with heq
  · rw [List.filter_eq_self]
    intro i hi
    obtain ⟨quantity, -, rfl⟩ := hmem i hi
    simp [Inline.isPoolReward, heq]
  · rw [List.filter_eq_nil_iff]
    intro i hi
    obtain ⟨quantity, -, rfl⟩ := hmem i hi
    simp [Inline.isPoolReward, heq]

theorem poolRewardsTo_of_notMem
    {l : List (Name × Asset)} {account : Name}
    (h : poolRewards config token total pool l = .ok sent) (hnot : account ∉ l.map Prod.fst) :
    poolRewardsTo account sent = [] := by
  induction l generalizing sent with
  | nil =>
      obtain rfl := pure_eq_ok_iff.mp h
      rfl
  | cons k rest ih =>
      simp only [poolRewards, bind_eq_ok_iff, pure_eq_ok_iff] at h
      obtain ⟨now, hnow, later, hlater, rfl⟩ := h
      rw [List.map_cons, List.mem_cons, not_or] at hnot
      rw [poolRewardsTo_append, poolRewardsTo_holderRewards hnow,
        if_neg fun heq => hnot.1 heq.symm, ih hlater hnot.2]
      rfl

/-- Each holder is sent what the code computes for it. -/
theorem poolRewardsTo_of_mem
    {l : List (Name × Asset)} {k : Name × Asset}
    (h : poolRewards config token total pool l = .ok sent) (hnodup : (l.map Prod.fst).Nodup)
    (hk : k ∈ l) :
    holderRewards config token total pool k.1 k.2 = .ok (poolRewardsTo k.1 sent) := by
  induction l generalizing sent with
  | nil => cases hk
  | cons k' rest ih =>
      simp only [poolRewards, bind_eq_ok_iff, pure_eq_ok_iff] at h
      obtain ⟨now, hnow, later, hlater, rfl⟩ := h
      rw [List.map_cons, List.nodup_cons] at hnodup
      rw [poolRewardsTo_append, poolRewardsTo_holderRewards hnow]
      rcases List.mem_cons.mp hk with rfl | hk
      · rw [if_pos rfl, poolRewardsTo_of_notMem hlater hnodup.1, List.append_nil]
        exact hnow
      · have hne : k'.1 ≠ k.1 := fun heq =>
          hnodup.1 (heq ▸ List.mem_map_of_mem hk)
        rw [if_neg hne, List.nil_append]
        exact ih hlater hnodup.2 hk

/-- The filling of the bucket is no reward of a pool. -/
theorem poolRewardsTo_issued
    (h : issueLem env ctx s = .ok (s', issued)) (account : Name) :
    poolRewardsTo account issued = [] := by
  obtain ⟨config, -, ⟨-, -, rfl⟩ | ⟨token, -, -, ⟨-, -, rfl⟩ | ⟨-, hsent, -⟩⟩⟩ := issueLem_eq_ok h
  · rfl
  · rfl
  · have hother : ∀ (dest : Name) (quantity : Asset) (memo : String),
        memo.toList ≠ poolRewardMemo →
        poolRewardsTo account (sendPositive dest quantity memo) = [] := by
      intro dest quantity memo hmemo
      unfold sendPositive poolRewardsTo
      split_ifs
      · simp [Inline.isPoolReward, hmemo]
      · rfl
    simp only [distribute, bind_eq_ok_iff, pure_eq_ok_iff] at hsent
    obtain ⟨toLending, -, toMarketing, -, toTeam, -, toReserve, -, rfl⟩ := hsent
    have hissue : ∀ rest, poolRewardsTo account
        (.issue ledTokenContract env.self token "issue".toList :: rest) =
          poolRewardsTo account rest := fun rest => rfl
    rw [hissue, poolRewardsTo_append, poolRewardsTo_append, poolRewardsTo_append,
      hother _ _ _ (by decide), hother _ _ _ (by decide), hother _ _ _ (by decide),
      hother _ _ _ (by decide)]
    rfl

/-- The balances that are not zero -/
def heldBalances (l : List (Name × Asset)) : List ℤ :=
  (l.map fun k => k.2.amount.toInt).filter fun balance => 0 < balance

theorem sum_heldBalances
    {l : List (Name × Asset)} (hbalance : ∀ k ∈ l, 0 ≤ k.2.amount.toInt) :
    (heldBalances l).sum = (l.map fun k => k.2.amount.toInt).sum := by
  induction l with
  | nil => rfl
  | cons k rest ih =>
      have hk := hbalance k List.mem_cons_self
      have hrest := ih fun k' hk' => hbalance k' (List.mem_cons_of_mem k hk')
      unfold heldBalances at *
      rw [List.map_cons, List.sum_cons, ← hrest]
      rcases hk.lt_or_eq with hpos | hzero
      · rw [List.filter_cons_of_pos (by simpa using hpos), List.sum_cons]
      · rw [List.filter_cons_of_neg (by simp [← hzero]), ← hzero, zero_add]

/-- Every holder is sent its shares of both fees.  They do not exceed the fees, and leave less
than one unit of each fee for each holder. -/
structure RewardsFair (token : CurrencyStats) (l : List (Name × Asset)) (sent : List Inline) :
    Prop where
  holder : ∀ k ∈ l, 0 < k.2.amount.toInt →
    HolderPaid token k.1 k.2.amount.toInt (poolRewardsTo k.1 sent)
  within : ∀ first, ((heldBalances l).map (floorShare token.supply.amount.toInt
    (token.fee first).quantity.amount.toInt)).sum ≤ (token.fee first).quantity.amount.toInt
  wiped : ∀ first, (token.fee first).quantity.amount.toInt <
    ((heldBalances l).map (floorShare token.supply.amount.toInt
      (token.fee first).quantity.amount.toInt)).sum + (heldBalances l).length

theorem le_supply_of_mem
    {l : List (Name × Asset)} {supply : ℤ} (hbalance : ∀ k ∈ l, 0 ≤ k.2.amount.toInt)
    (hsum : (l.map fun k => k.2.amount.toInt).sum = supply) {k : Name × Asset} (hk : k ∈ l) :
    k.2.amount.toInt ≤ supply := by
  rw [← hsum]
  refine List.single_le_sum ?_ _ (List.mem_map_of_mem hk)
  intro x hx
  obtain ⟨k', hk', rfl⟩ := List.mem_map.mp hx
  exact hbalance k' hk'

/-- A holder gets its rewards exactly if the code meets both of its shares. -/
theorem holderPaid_of_clmpoolreward_iff
    {pairTokenSymbol : Text} {k : Name × Asset}
    (hcode : SymbolCode.ofText pairTokenSymbol = .ok code)
    (htoken : s.stats.find? code = some token)
    (h : clmpoolreward env ctx s pairTokenSymbol total pool = .ok (s', sent))
    (hk : k ∈ holders s code) (hpos : 0 < k.2.amount.toInt)
    (hle : k.2.amount.toInt ≤ token.supply.amount.toInt) :
    HolderPaid token k.1 k.2.amount.toInt (poolRewardsTo k.1 sent) ↔
      ∀ first, FeeMet (token.fee first) token.supply.amount.toInt k.2.amount.toInt := by
  simp only [clmpoolreward, bind_eq_ok_iff, requireAuth_eq_ok_iff, check_eq_ok_iff,
    require_eq_ok_iff, pure_eq_ok_iff, Prod.mk.injEq] at h
  obtain ⟨_, -, ⟨s₁, issued⟩, hissue, code', hcode', config, -, token', htoken', _, -, rewards,
    hrewards, -, rfl⟩ := h
  obtain rfl := Except.ok.inj (hcode'.symm.trans hcode)
  obtain ⟨_, _, -, rfl, -, -⟩ := issueLem_frame hissue
  obtain rfl := Option.some.inj (htoken'.symm.trans htoken)
  have hpaid := poolRewardsTo_of_mem hrewards (holders_nodup _ code') hk
  rw [poolRewardsTo_append, poolRewardsTo_issued hissue, List.nil_append,
    holderPaid_iff hpos hle hpaid]
  constructor
  · rintro ⟨h1, h2⟩ first
    cases first with
    | true => exact h1
    | false => exact h2
  · intro hall
    exact ⟨hall true, hall false⟩

/-- The rewards of a pool, whose balances add up to the supply, are fair exactly if the code
meets the shares of all holders. -/
theorem pool_rewards_fair_iff
    {pairTokenSymbol : Text} (hcode : SymbolCode.ofText pairTokenSymbol = .ok code)
    (htoken : s.stats.find? code = some token) (hsupply : 0 < token.supply.amount.toInt)
    (hbalance : ∀ k ∈ holders s code, 0 ≤ k.2.amount.toInt)
    (hsum : ((holders s code).map fun k => k.2.amount.toInt).sum = token.supply.amount.toInt)
    (h : clmpoolreward env ctx s pairTokenSymbol total pool = .ok (s', sent)) :
    RewardsFair token (holders s code) sent ↔
      ∀ k ∈ holders s code, 0 < k.2.amount.toInt → ∀ first,
        FeeMet (token.fee first) token.supply.amount.toInt k.2.amount.toInt := by
  have hheld : (heldBalances (holders s code)).sum = token.supply.amount.toInt := by
    rw [sum_heldBalances hbalance, hsum]
  constructor
  · intro hfair k hk hpos
    have hle := le_supply_of_mem hbalance hsum hk
    exact (holderPaid_of_clmpoolreward_iff hcode htoken h hk hpos hle).mp (hfair.holder k hk hpos)
  · intro hmet
    refine ⟨?_, fun first => sum_floorShare_le hsupply hheld,
      fun first => lt_sum_floorShare_add_length hsupply hheld⟩
    intro k hk hpos
    have hle := le_supply_of_mem hbalance hsum hk
    exact (holderPaid_of_clmpoolreward_iff hcode htoken h hk hpos hle).mpr (hmet k hk hpos)

end Payments

section Samples

/-- A pool of LED in which alice has all shares, after a sale of 10000 units of LED -/
def sampleLedPool : List (Ctx × Action) :=
  [(sampleCtx 1000 "lemonade.c", .init),
    (sampleCtx 1000 "alice", samplePayment "alice" createPoolFee "deposit"),
    (sampleCtx 1000 "alice",
      samplePayment "alice" ⟨⟨2000000, ledSymbol⟩, ledTokenContract⟩ "deposit"),
    (sampleCtx 1000 "alice", samplePayment "alice" (sampleB 2000000) "deposit"),
    (sampleCtx 1000 "alice", .inittoken (nameLiteral "alice") (sampleSymbol "AB")
      ⟨⟨1000000, ledSymbol⟩, ledTokenContract⟩ (sampleB 1000000)),
    (sampleCtx 2000 "alice", .exchange (nameLiteral "alice") (sampleSymbol "AB").code
      ⟨⟨10000, ledSymbol⟩, ledTokenContract⟩ (sampleB 1).quantity)]

/-- What is known of a sample pool: supply, fees, where the first fee is, the balances of its
holders, and that its rewards can be claimed. -/
def sampleHoldings (s : State) : Option ((List ℤ × Bool) × List ℤ × Bool) :=
  (s.stats.find? (sampleSymbol "AB").code).map fun token =>
    (([token.supply.amount.toInt, token.fee1.quantity.amount.toInt,
      token.fee2.quantity.amount.toInt], decide (token.fee1.contract = ledTokenContract)),
      (holders s (sampleSymbol "AB").code).map fun k => k.2.amount.toInt,
      (clmpoolreward sampleEnv (sampleCtx 3000 "lemonade.c") s "AB".toList 1 0).toOption.isSome)

theorem exists_of_sampleHoldings
    {is : List (Ctx × Action)} {supply fee1 fee2 : ℤ} {balances : List ℤ}
    (h : (play (stepWith sampleEnv) sampleWorld is).map (fun r => sampleHoldings r.2.state) =
      some (some (([supply, fee1, fee2], true), balances, true))) :
    ∃ w token s' sent, Reaches sampleEnv w ∧
      w.state.stats.find? (sampleSymbol "AB").code = some token ∧
      token.supply.amount.toInt = supply ∧ token.fee1.quantity.amount.toInt = fee1 ∧
      token.fee2.quantity.amount.toInt = fee2 ∧ token.fee1.contract = ledTokenContract ∧
      (holders w.state (sampleSymbol "AB").code).map (fun k => k.2.amount.toInt) = balances ∧
      clmpoolreward sampleEnv (sampleCtx 3000 "lemonade.c") w.state "AB".toList 1 0 =
        .ok (s', sent) := by
  obtain ⟨h, w, hplay, hobs⟩ := exists_of_play h
  obtain ⟨token, htoken, hvalues⟩ := Option.map_eq_some_iff.mp hobs
  simp only [Prod.mk.injEq, List.cons.injEq, decide_eq_true_eq] at hvalues
  obtain ⟨⟨⟨hsupply, hfee1, hfee2, -⟩, hcontract⟩, hbalances, hclaim⟩ := hvalues
  cases hresult : clmpoolreward sampleEnv (sampleCtx 3000 "lemonade.c") w.state "AB".toList 1 0 with
  | error e =>
      rw [hresult] at hclaim
      cases hclaim
  | ok r =>
      exact ⟨w, token, r.1, r.2, reaches_of_play sampleWorld_genesis hplay, htoken, hsupply, hfee1,
        hfee2, hcontract, hbalances, hresult⟩

/-- Alice has all shares and is sent the fee of 15 units. -/
theorem pool_rewards_fair_sample :
    ∃ w token s' sent, Reaches sampleEnv w ∧
      w.state.stats.find? (sampleSymbol "AB").code = some token ∧
      token.fee1.quantity.amount.toInt = 15 ∧
      clmpoolreward sampleEnv (sampleCtx 3000 "lemonade.c") w.state "AB".toList 1 0 =
        .ok (s', sent) ∧
      RewardsFair token (holders w.state (sampleSymbol "AB").code) sent := by
  obtain ⟨w, token, s', sent, hw, htoken, hsupply, hfee1, hfee2, hcontract, hbalances, hclaim⟩ :=
    exists_of_sampleHoldings (show (play (stepWith sampleEnv) sampleWorld sampleLedPool).map
        (fun r => sampleHoldings r.2.state) =
      some (some (([1000000, 15, 0], true), [1000000], true)) by decide +kernel)
  have hmem : ∀ k ∈ holders w.state (sampleSymbol "AB").code, k.2.amount.toInt = 1000000 := by
    intro k hk
    have hk' := List.mem_map_of_mem (f := fun k : Name × Asset => k.2.amount.toInt) hk
    rw [hbalances, List.mem_singleton] at hk'
    exact hk'
  refine ⟨w, token, s', sent, hw, htoken, hfee1, hclaim, ?_⟩
  refine (pool_rewards_fair_iff (by decide +kernel) htoken ?_ ?_ ?_ hclaim).mpr ?_
  · rw [hsupply]
    decide
  · intro k hk
    rw [hmem k hk]
    decide
  · rw [hbalances, hsupply]
    rfl
  · intro k hk _ first
    rw [hmem k hk, hsupply]
    cases first with
    | true => exact ⟨hfee1.symm ▸ (by decide), Or.inr ⟨rfl, hcontract⟩⟩
    | false =>
        have hfee : (token.fee false).quantity.amount.toInt = 0 := hfee2
        exact ⟨hfee.ge, Or.inl (by rw [hfee]; decide)⟩

/-- Alice gives bob half of her shares, and nobody is sent anything of the fee of 15 units. -/
theorem pool_rewards_lost_by_integer_ratio :
    ¬ ∀ (env : Env) (ctx : Ctx) (w : World) (s' : State) (pairTokenSymbol : Text)
      (code : SymbolCode) (token : CurrencyStats) (total pool : ℚ) (sent : List Inline),
      Reaches env w → SymbolCode.ofText pairTokenSymbol = .ok code →
      w.state.stats.find? code = some token → 0 < token.supply.amount.toInt →
      (∀ k ∈ holders w.state code, 0 ≤ k.2.amount.toInt) →
      ((holders w.state code).map fun k => k.2.amount.toInt).sum = token.supply.amount.toInt →
      clmpoolreward env ctx w.state pairTokenSymbol total pool = .ok (s', sent) →
      RewardsFair token (holders w.state code) sent := by
  intro hall
  let gift : Ctx × Action := (sampleCtx 2500 "alice",
    .transfer (nameLiteral "alice") (nameLiteral "bob") ⟨500000, sampleSymbol "AB"⟩ [])
  obtain ⟨w, token, s', sent, hw, htoken, hsupply, hfee1, -, -, hbalances, hclaim⟩ :=
    exists_of_sampleHoldings (show (play (stepWith sampleEnv) sampleWorld
        (sampleLedPool ++ [gift])).map (fun r => sampleHoldings r.2.state) =
      some (some (([1000000, 15, 0], true), [500000, 500000], true)) by decide +kernel)
  have hmem : ∀ k ∈ holders w.state (sampleSymbol "AB").code, k.2.amount.toInt = 500000 := by
    intro k hk
    have hk' := List.mem_map_of_mem (f := fun k : Name × Asset => k.2.amount.toInt) hk
    rw [hbalances] at hk'
    simpa using hk'
  have hfair := hall sampleEnv _ w s' "AB".toList _ token 1 0 sent hw (by decide +kernel) htoken
    (by rw [hsupply]; decide) (fun k hk => by rw [hmem k hk]; decide)
    (by rw [hbalances, hsupply]; rfl) hclaim
  have hlength : 0 < (holders w.state (sampleSymbol "AB").code).length := by
    rw [← List.length_map (fun k : Name × Asset => k.2.amount.toInt), hbalances]
    decide
  obtain ⟨k, hk⟩ := List.exists_mem_of_length_pos hlength
  have hpaid := hfair.holder k hk (by rw [hmem k hk]; decide)
  rw [holderPaid_of_clmpoolreward_iff (by decide +kernel) htoken hclaim hk
    (by rw [hmem k hk]; decide) (by rw [hmem k hk, hsupply]; decide)] at hpaid
  obtain ⟨-, hmet⟩ := hpaid true
  have hfee : (token.fee true).quantity.amount.toInt = 15 := hfee1
  rw [hmem k hk, hsupply, hfee] at hmet
  rcases hmet with hlt | ⟨heq, -⟩
  · exact absurd hlt (by decide)
  · exact absurd heq (by decide)

end Samples

end Lemonade
