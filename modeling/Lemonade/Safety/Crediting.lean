import Lemonade.Contract.Frames
import Mathlib.Tactic

/-!
# What a transfer is credited for

The memo of a transfer to the contract names one of four operations, and each has its
own way to credit the sender (`CreditedTransfer`).  The handler does nothing about an exchange
memo with fewer than three fields, and keeps what was transferred.
-/

namespace Lemonade

open Kernel

section Credits

/-- The memo names an operation of the contract. -/
def NamesOperation (memo : Text) : Prop :=
  Operation memo "stake" ∨ Operation memo "bet" ∨ Operation memo "deposit" ∨
    Operation memo "exchange"

/-- The operation that the memo names has credited the transfer to its sender. -/
inductive CreditedTransfer [Doubles] (s : State) (source : Name) (incoming : ExtendedAsset)
    (memo : Text) (s' : State) (sent : List Inline) : Prop
  /-- a row of the sender has grown by the quantity -/
  | staked {i : Nat} {row : Staking} (operation : Operation memo "stake")
      (row_eq : s'.stakings.find? (source, i) = some row)
      (symbol : row.balance.symbol = incoming.quantity.symbol)
      (grown : row.balance.amount.toInt =
        s.stakings.weight (fun _ row => row.balance.amount.toInt) (source, i) +
          incoming.quantity.amount.toInt)
  /-- the sender is recorded with the quantity on one side of a game -/
  | betted {betId : Nat} {game game' : Betting} {side : Position}
      (operation : Operation memo "bet") (before : s.bettings.find? betId = some game)
      (after : s'.bettings.find? betId = some game')
      (recorded : game'.betters side = game.betters side ++ [(source, incoming.quantity)])
  /-- the deposit of the sender has grown by the quantity -/
  | deposited {i : Nat} {balance : ExtendedAsset} (operation : Operation memo "deposit")
      (row_eq : s'.dexacnts.find? (source, i) = some balance)
      (symbol : balance.extendedSymbol = incoming.extendedSymbol)
      (grown : balance.quantity.amount.toInt =
        s.dexacnts.weight (fun _ balance => balance.quantity.amount.toInt) (source, i) +
          incoming.quantity.amount.toInt)
  /-- the output of a swap is sent to the sender -/
  | swapped {pairToken : SymbolCode} {minExpected : Asset} {net out : ExtendedAsset}
      {text : Text} (operation : Operation memo "exchange")
      (swap : Swapped s pairToken incoming minExpected net out s')
      (sent_eq : sent = [.transfer out.contract source out.quantity text])

variable {env : Env} {ctx : Ctx} {s s' : State} {sent : List Inline}
variable {firstReceiver source dest : Name} {quantity : Asset} {memo : Text}

theorem credited_of_stake [Doubles]
    {productName : Name} {pricePrediction : Option Name} (hop : Operation memo "stake")
    (h : stake env ctx s source quantity productName pricePrediction = .ok (s', sent)) :
    CreditedTransfer s source ⟨quantity, firstReceiver⟩ memo s' sent := by
  obtain ⟨_, _, _, _, -, hvalid, -, -, -, -, hcase⟩ := stake_eq_ok h
  rcases hcase with ⟨-, -, hnew⟩ | ⟨key, row, hrow, hmore⟩
  · obtain ⟨_, _, i, _, -, -, hfresh, -, rfl⟩ := stakeNew_eq_ok hnew
    refine .staked hop (Table.find?_put_self _ _ _) rfl ?_
    rw [Table.weight_of_find?_none hfresh, zero_add]
    rfl
  · obtain ⟨_, _, _, hbalance, -, rfl⟩ := stakeMore_tables hmore
    obtain ⟨hfind, rfl, -⟩ := findStaking_eq_some hrow
    obtain ⟨hsymbol, hrange, rfl⟩ := Asset.add_eq_ok_iff.mp hbalance
    refine .staked hop (Table.find?_put_self _ _ _) hsymbol.symm ?_
    rw [Table.weight_of_find? hfind]
    exact toInt_add_of_inRange_right hvalid.1 hrange

theorem credited_of_bet [Doubles]
    {betId : Nat} {position : Text} (hop : Operation memo "bet")
    (h : bet ctx s source quantity betId position = .ok s') :
    CreditedTransfer s source ⟨quantity, firstReceiver⟩ memo s' sent := by
  obtain ⟨game, side, game', -, hgame, -, -, -, hplace, rfl⟩ := bet_eq_ok h
  obtain ⟨-, hbetters, -⟩ := placeBet_eq_ok hplace
  exact .betted hop hgame (Table.find?_put_self _ _ _) hbetters

theorem credited_of_deposit [Doubles]
    (hop : Operation memo "deposit")
    (h : addSignedExtBalance s source ⟨quantity, firstReceiver⟩ = .ok s') :
    CreditedTransfer s source ⟨quantity, firstReceiver⟩ memo s' sent := by
  obtain ⟨hvalid, ⟨i, -, -, hfresh, rfl⟩ | ⟨key, balance, balance', hrow, hadd, -, rfl⟩⟩ :=
    addSignedExtBalance_eq_ok h
  · refine .deposited hop (Table.find?_put_self _ _ _) rfl ?_
    rw [Table.weight_of_find?_none hfresh, zero_add]
  · obtain ⟨hfind, rfl, -⟩ := findDexacnt_eq_some hrow
    obtain ⟨hsymbol, hrange, rfl⟩ := ExtendedAsset.add_eq_ok_iff.mp hadd
    refine .deposited hop (Table.find?_put_self _ _ _) hsymbol.symm ?_
    rw [Table.weight_of_find? hfind]
    exact toInt_add_of_inRange_right hvalid.1 hrange

/-- An exchange memo without a second and a third field is accepted, to no effect. -/
theorem transferEvent_of_short_exchange [Doubles]
    (hopen : env.isDexOpen = true) (hin : Incoming env source dest)
    (hop : Operation memo "exchange") (hlen : ¬ 3 ≤ (memoParser memo).length) :
    transferEvent env ctx s firstReceiver source dest quantity memo = .ok (s, []) := by
  have hstake : "exchange".toList ≠ "stake".toList := by decide
  have hbet : "exchange".toList ≠ "bet".toList := by decide
  have hdeposit : "exchange".toList ≠ "deposit".toList := by decide
  unfold transferEvent
  rw [if_neg (not_not.mpr hin.1), if_neg hin.2]
  simp only [bind_eq_ok_iff]
  refine ⟨_, hop, ?_⟩
  rw [if_neg hstake, if_neg hbet, if_neg hdeposit, if_pos rfl]
  simp only [bind_eq_ok_iff, check_eq_ok_iff]
  refine ⟨⟨⟩, hopen, ?_⟩
  rw [if_neg hlen]
  rfl

/-- Every accepted transfer that names an operation is credited to its sender, exactly if
the memo is not that of an exchange with fewer than three fields. -/
theorem transfer_credited_iff [Doubles]
    (hopen : env.isDexOpen = true) (hin : Incoming env source dest)
    (hop : NamesOperation memo) :
    (∀ s' sent, transferEvent env ctx s firstReceiver source dest quantity memo =
        .ok (s', sent) → CreditedTransfer s source ⟨quantity, firstReceiver⟩ memo s' sent) ↔
      (Operation memo "exchange" → 3 ≤ (memoParser memo).length) := by
  constructor
  · intro hall hexchange
    by_contra hlen
    have hkept := hall s [] (transferEvent_of_short_exchange hopen hin hexchange hlen)
    cases hkept with
    | staked hstake => exact absurd (hexchange.unique hstake) (by decide)
    | betted hbet => exact absurd (hexchange.unique hbet) (by decide)
    | deposited hdeposit => exact absurd (hexchange.unique hdeposit) (by decide)
    | swapped _ _ hsent => cases hsent
  · intro hlen s' sent h
    rcases transferEvent_eq_ok h with ⟨-, -, hidle⟩ | ⟨-, ⟨_, _, hop', -, hok⟩ |
      ⟨_, _, hop', -, -, hok⟩ | ⟨hop', -, hok⟩ | ⟨_, _, hop', -, hok⟩⟩
    · refine absurd ⟨hin, ?_⟩ hidle
      rcases hop with hstake | hbet | hdeposit | hexchange
      · exact Or.inl hstake
      · exact Or.inr (Or.inl hbet)
      · exact Or.inr (Or.inr (Or.inl hdeposit))
      · exact Or.inr (Or.inr (Or.inr ⟨hexchange, hlen hexchange⟩))
    · exact credited_of_stake hop' hok
    · exact credited_of_bet hop' hok
    · exact credited_of_deposit hop' hok
    · obtain ⟨_, _, _, -, hswap, hsent⟩ := memoexchange_eq_ok hok
      exact .swapped hop' hswap hsent

open Binary64

/-- A swap by memo pays alice for one AAA. -/
theorem transfer_credited_iff_sample :
    ∃ w e w', Reaches sampleEnv w ∧ Step sampleEnv w e w' ∧
      e.action = samplePayment "alice" (sampleA 10000) "exchange/AB/0.0001 BBB" ∧
      CreditedTransfer w.state (nameLiteral "alice") (sampleA 10000) "exchange/AB/0.0001 BBB".toList
        w'.state e.sent := by
  let payment : Ctx × Action :=
    (sampleCtx 1000 "alice", samplePayment "alice" (sampleA 10000) "exchange/AB/0.0001 BBB")
  obtain ⟨⟨tr, w⟩, hopening, hobs⟩ := Option.bind_eq_some_iff.mp
    (show ((play (stepWith sampleEnv) sampleWorld samplePool).bind fun r =>
        (stepWith sampleEnv r.2 payment).map fun x => x.1.sent.length) = some 1 by
      decide +kernel)
  obtain ⟨⟨e, w'⟩, hpayment, -⟩ := Option.map_eq_some_iff.mp hobs
  have hstep := step_of_stepWith _ _ _ _ _ hpayment
  have haction : e.action = payment.2 := congrArg Prod.snd (input_of_stepWith _ _ _ _ _ hpayment)
  refine ⟨w, e, w', reaches_of_play sampleWorld_genesis hopening, hstep, haction, ?_⟩
  obtain ⟨-, hexec, -⟩ := hstep
  rw [haction] at hexec
  refine (transfer_credited_iff rfl (by decide +kernel) ?_).mpr (fun _ => by decide +kernel)
    w'.state e.sent hexec
  exact Or.inr (Or.inr (Or.inr (by decide +kernel)))

/-- A transfer with the memo "exchange" is kept. -/
theorem transfer_not_credited_by_short_exchange :
    ¬ ∀ (env : Env) (w w' : World) (e : Event) (firstReceiver source dest : Name)
        (quantity : Asset) (memo : Text), env.isDexOpen = true → Reaches env w →
      Step env w e w' → e.action = .notify firstReceiver source dest quantity memo →
      Incoming env source dest → NamesOperation memo →
      CreditedTransfer w.state source ⟨quantity, firstReceiver⟩ memo w'.state e.sent := by
  intro hall
  let payment : Ctx × Action :=
    (sampleCtx 1000 "alice", sampleTransfer "alice" 10000 "exchange")
  obtain ⟨⟨e, w'⟩, hpayment, hsent⟩ := Option.map_eq_some_iff.mp
    (show (stepWith sampleEnv sampleWorld payment).map (fun x => x.1.sent.length) = some 0 by
      decide +kernel)
  have haction : e.action = payment.2 := congrArg Prod.snd (input_of_stepWith _ _ _ _ _ hpayment)
  have hop : Operation "exchange".toList "exchange" := by decide +kernel
  have hcredited := hall sampleEnv sampleWorld w' e _ _ _ _ _ rfl
    (Reachable.of_init sampleWorld_genesis) (step_of_stepWith _ _ _ _ _ hpayment) haction
    (by decide +kernel) (Or.inr (Or.inr (Or.inr hop)))
  cases hcredited with
  | staked hstake => exact absurd (hop.unique hstake) (by decide)
  | betted hbet => exact absurd (hop.unique hbet) (by decide)
  | deposited hdeposit => exact absurd (hop.unique hdeposit) (by decide)
  | swapped _ _ hsent' =>
      rw [hsent'] at hsent
      cases hsent

end Credits

end Lemonade
