import Lemonade.Kernel.Trace
import Lemonade.Contract.Betting
import Lemonade.Contract.Memo
import Lemonade.Contract.Pools
import Lemonade.Contract.Staking
import Mathlib.Tactic

/-!
# Actions and runs

The entry points of the contract and the transition system they span.  One step
is one action that succeeds; it is labelled with the action, with what the action
sees of the chain, and with the inline actions it sends.  Time does not go back.

A failed action leaves no trace, so runs of successful actions are all runs.
Inline actions are part of the label only: whether led.token accepts them is left
open, which admits at least the runs of the real chain.
-/

namespace Lemonade

open Kernel

section Notification

/-- `event[i]` -/
def field (event : List Text) (i : Nat) : Result Text := demandSome event[i]? .outOfBounds

/-- The third field of a `stake` memo, if there is one -/
def predictionField (event : List Text) : Result Text :=
  if 3 ≤ event.length then field event 2 else .ok "none".toList

/-- The second field of a `stake` memo -/
def stakeProduct (event : List Text) : Result Name := do
  let productName ← field event 1
  Name.ofText productName

/-- Second and third field of a `bet` memo -/
def betTarget (event : List Text) : Result (Nat × Text) := do
  let betId ← field event 1
  let betId ← stoull betId
  let position ← field event 2
  return (betId, position)

/-- `transfer_event`.  A memo names at most one of the four operations. -/
def transferEvent [Doubles] (env : Env) (ctx : Ctx) (s : State) (firstReceiver source dest : Name)
    (quantity : Asset) (memo : Text) : Result (State × List Inline) := do
  if dest ≠ env.self then
    return (s, [])
  else if source = env.self then
    return (s, [])
  else
    let incoming : ExtendedAsset := ⟨quantity, firstReceiver⟩
    let event := memoParser memo
    let operation ← field event 0
    if operation = "stake".toList then
      let position ← predictionField event
      let position ← Name.ofText position
      let productName ← stakeProduct event
      stake env ctx s source quantity productName (some position)
    else if operation = "bet".toList then
      let (betId, position) ← betTarget event
      let s ← bet ctx s source quantity betId position
      return (s, [])
    else if operation = "deposit".toList then
      check (env.isDexOpen = true) "DEX is not open"
      let s ← addSignedExtBalance s source incoming
      return (s, [])
    else if operation = "exchange".toList then
      check (env.isDexOpen = true) "DEX is not open"
      if 3 ≤ event.length then
        let pairToken ← field event 1
        let pairToken ← SymbolCode.ofText pairToken
        let minExpected ← field event 2
        let minExpected ← assetFromString minExpected
        memoexchange env s source incoming pairToken minExpected
      else
        return (s, [])
    else
      return (s, [])

/-- The transfers that the handler looks at: those that others make to the contract. -/
def Incoming (env : Env) (source dest : Name) : Prop := dest = env.self ∧ source ≠ env.self

instance (env : Env) (source dest : Name) : Decidable (Incoming env source dest) :=
  inferInstanceAs (Decidable (_ ∧ _))

/-- The first field of a memo. -/
def Operation (memo : Text) (operation : String) : Prop :=
  field (memoParser memo) 0 = .ok operation.toList

instance (memo : Text) (operation : String) : Decidable (Operation memo operation) :=
  inferInstanceAs (Decidable (_ = _))

/-- A memo names one operation. -/
theorem Operation.unique
    {memo : Text} {a b : String}
    (ha : Operation memo a) (hb : Operation memo b) : a.toList = b.toList :=
  Except.ok.inj (ha.symm.trans hb)

/-- What a notification can do: nothing, or one of the four operations. -/
theorem transferEvent_eq_ok [Doubles]
    {env : Env} {ctx : Ctx} {s s' : State} {firstReceiver source dest : Name}
    {quantity : Asset} {memo : Text} {sent : List Inline}
    (h : transferEvent env ctx s firstReceiver source dest quantity memo = .ok (s', sent)) :
    s' = s ∧ sent = [] ∧
        ¬ (Incoming env source dest ∧ (Operation memo "stake" ∨ Operation memo "bet" ∨
          Operation memo "deposit" ∨
          Operation memo "exchange" ∧ 3 ≤ (memoParser memo).length)) ∨
      Incoming env source dest ∧
        ((∃ productName pricePrediction, Operation memo "stake" ∧
            stakeProduct (memoParser memo) = .ok productName ∧
            stake env ctx s source quantity productName pricePrediction = .ok (s', sent)) ∨
          (∃ betId position, Operation memo "bet" ∧
            betTarget (memoParser memo) = .ok (betId, position) ∧ sent = [] ∧
            bet ctx s source quantity betId position = .ok s') ∨
          (Operation memo "deposit" ∧ sent = [] ∧
            addSignedExtBalance s source ⟨quantity, firstReceiver⟩ = .ok s') ∨
          ∃ pairToken minExpected, Operation memo "exchange" ∧
            3 ≤ (memoParser memo).length ∧
            memoexchange env s source ⟨quantity, firstReceiver⟩ pairToken minExpected =
              .ok (s', sent)) := by
  unfold transferEvent at h
  split_ifs at h with hdest hsource
  · simp only [pure_eq_ok_iff, Prod.mk.injEq] at h
    obtain ⟨rfl, rfl⟩ := h
    exact Or.inl ⟨rfl, rfl, fun hin => hdest hin.1.1⟩
  · simp only [pure_eq_ok_iff, Prod.mk.injEq] at h
    obtain ⟨rfl, rfl⟩ := h
    exact Or.inl ⟨rfl, rfl, fun hin => hin.1.2 hsource⟩
  · have hin : Incoming env source dest := ⟨not_not.mp hdest, hsource⟩
    simp only [bind_eq_ok_iff] at h
    obtain ⟨operation, hop, h⟩ := h
    split_ifs at h with hstake hbet hdeposit hexchange hlen
    · subst hstake
      simp only [bind_eq_ok_iff] at h
      obtain ⟨_, -, position, -, productName, hproduct, h⟩ := h
      exact Or.inr ⟨hin, Or.inl ⟨productName, some position, hop, hproduct, h⟩⟩
    · subst hbet
      simp only [bind_eq_ok_iff, pure_eq_ok_iff, Prod.mk.injEq] at h
      obtain ⟨⟨betId, position⟩, htarget, _, h, rfl, rfl⟩ := h
      exact Or.inr ⟨hin, Or.inr (Or.inl ⟨betId, position, hop, htarget, rfl, h⟩)⟩
    · subst hdeposit
      simp only [bind_eq_ok_iff, pure_eq_ok_iff, Prod.mk.injEq] at h
      obtain ⟨_, -, _, h, rfl, rfl⟩ := h
      exact Or.inr ⟨hin, Or.inr (Or.inr (Or.inl ⟨hop, rfl, h⟩))⟩
    · subst hexchange
      simp only [bind_eq_ok_iff] at h
      obtain ⟨_, -, _, -, pairToken, -, _, -, minExpected, -, h⟩ := h
      exact Or.inr ⟨hin, Or.inr (Or.inr (Or.inr ⟨pairToken, minExpected, hop, hlen, h⟩))⟩
    · subst hexchange
      simp only [bind_eq_ok_iff, pure_eq_ok_iff, Prod.mk.injEq] at h
      obtain ⟨_, -, rfl, rfl⟩ := h
      refine Or.inl ⟨rfl, rfl, ?_⟩
      simp [Operation, hop, hlen]
    · simp only [pure_eq_ok_iff, Prod.mk.injEq] at h
      obtain ⟨rfl, rfl⟩ := h
      refine Or.inl ⟨rfl, rfl, ?_⟩
      simp only [Operation, hop, Except.ok.injEq, hstake, hbet, hdeposit, hexchange, false_and,
        or_self, and_false, not_false_eq_true]

end Notification

section Dispatch

/-- The actions of the contract with their arguments; `notify` is the notification
of a transfer by the contract `firstReceiver`. -/
inductive Action where
  | init
  | issuelem
  | setbtcprice (price : ℚ)
  | setledprice (price : ℚ)
  | addproduct (productName : Name) (minimumYield maximumYield : ℚ)
      (hasLemRewards hasPrediction : Bool) (amountPerAccount : Asset)
      (maximumAmountLimit : Option Asset) (duration : Option UInt32)
  | rmproduct (productName : Name)
  | unstake (owner productName : Name)
  | claimled (owner productName : Name)
  | claimlem (owner productName : Name)
  | changeyield (owner productName : Name) (yield : ℚ)
  | createbet (startedAt bettingEndedAt endedAt : UInt32)
  | setbet (betId : Nat) (status : UInt8)
  | rmbet (betId : Nat)
  | claimbet (betId : Nat)
  | transfer (source dest : Name) (quantity : Asset) (memo : Text)
  | tokenOpen (owner : Name) (symbol : Symbol) (ramPayer : Name)
  | tokenClose (owner : Name) (symbol : Symbol)
  | freeze (account : Name)
  | unfreeze (account : Name)
  | openext (user : Name) (extSymbol : ExtendedSymbol)
  | closeext (user dest : Name) (extSymbol : ExtendedSymbol) (memo : Text)
  | withdraw (user dest : Name) (toWithdraw : ExtendedAsset) (memo : Text)
  | addliquidity (user : Name) (toBuy maxAsset1 maxAsset2 : Asset)
  | rmliquidity (user : Name) (toSell minAsset1 minAsset2 : Asset)
  | exchange (user : Name) (pairToken : SymbolCode) (extAssetIn : ExtendedAsset)
      (minExpected : Asset)
  | exchangeall (user : Name) (pairToken : SymbolCode) (assetIn : ExtendedSymbol)
  | inittoken (user : Name) (newSymbol : Symbol) (initialPool1 initialPool2 : ExtendedAsset)
  | indexpair (user : Name) (lpSymbol : Symbol)
  | rmpool (user : Name) (lpSymbol : Symbol)
  | clmpoolreward (pairTokenSymbol : Text) (total pool : ℚ)
  | notify (firstReceiver source dest : Name) (quantity : Asset) (memo : Text)

/-- An action that sends nothing. -/
def silent (r : Result State) : Result (State × List Inline) := do
  let s ← r
  return (s, [])

@[simp] theorem silent_eq_ok_iff
    {r : Result State} {s' : State} {sent : List Inline} :
    silent r = .ok (s', sent) ↔ r = .ok s' ∧ sent = [] := by
  simp only [silent, bind_eq_ok_iff, pure_eq_ok_iff, Prod.mk.injEq]
  constructor
  · rintro ⟨s, hr, rfl, rfl⟩
    exact ⟨hr, rfl⟩
  · rintro ⟨hr, rfl⟩
    exact ⟨s', hr, rfl, rfl⟩

/-- Run an action. -/
def exec [Doubles] (env : Env) (ctx : Ctx) (s : State) : Action → Result (State × List Inline)
  | .init => silent (init env ctx s)
  | .issuelem => issuelem env ctx s
  | .setbtcprice price => silent (setbtcprice env ctx s price)
  | .setledprice price => silent (setledprice env ctx s price)
  | .addproduct productName minimumYield maximumYield hasLemRewards hasPrediction
      amountPerAccount maximumAmountLimit duration =>
      silent (addproduct env ctx s productName minimumYield maximumYield hasLemRewards
        hasPrediction amountPerAccount maximumAmountLimit duration)
  | .rmproduct productName => silent (rmproduct env ctx s productName)
  | .unstake owner productName => unstake env ctx s owner productName
  | .claimled owner productName => claimled ctx s owner productName
  | .claimlem owner productName => claimlem env ctx s owner productName
  | .changeyield owner productName yield => silent (changeyield env ctx s owner productName yield)
  | .createbet startedAt bettingEndedAt endedAt =>
      silent (createbet env ctx s startedAt bettingEndedAt endedAt)
  | .setbet betId status => setbet env ctx s betId status
  | .rmbet betId => silent (rmbet env ctx s betId)
  | .claimbet betId => claimbet env ctx s betId
  | .transfer source dest quantity memo => silent (transfer ctx s source dest quantity memo)
  | .tokenOpen owner symbol ramPayer => silent (tokenOpen ctx s owner symbol ramPayer)
  | .tokenClose owner symbol => silent (tokenClose ctx s owner symbol)
  | .freeze account => silent (freeze env ctx s account)
  | .unfreeze account => silent (unfreeze env ctx s account)
  | .openext user extSymbol => silent (openext env ctx s user extSymbol)
  | .closeext user dest extSymbol memo => closeext env ctx s user dest extSymbol memo
  | .withdraw user dest toWithdraw memo => withdraw env ctx s user dest toWithdraw memo
  | .addliquidity user toBuy maxAsset1 maxAsset2 =>
      silent (addliquidity env ctx s user toBuy maxAsset1 maxAsset2)
  | .rmliquidity user toSell minAsset1 minAsset2 =>
      silent (rmliquidity env ctx s user toSell minAsset1 minAsset2)
  | .exchange user pairToken extAssetIn minExpected =>
      silent (exchange env ctx s user pairToken extAssetIn minExpected)
  | .exchangeall user pairToken assetIn =>
      silent (exchangeall env ctx s user pairToken assetIn)
  | .inittoken user newSymbol initialPool1 initialPool2 =>
      silent (inittoken env ctx s user newSymbol initialPool1 initialPool2)
  | .indexpair _ lpSymbol => silent (indexpair env s lpSymbol)
  | .rmpool user lpSymbol => silent (rmpool env ctx s user lpSymbol)
  | .clmpoolreward pairTokenSymbol total pool =>
      clmpoolreward env ctx s pairTokenSymbol total pool
  | .notify firstReceiver source dest quantity memo =>
      transferEvent env ctx s firstReceiver source dest quantity memo

end Dispatch

section Runs

/-- The contract's tables and the time of the last action. -/
structure World where
  state : State
  time : UInt32

/-- The contract before its first action. -/
def World.Genesis (w : World) : Prop := w.state = State.empty

/-- What is visible of a step: its action, its view of the chain, what it sent. -/
structure Event where
  ctx : Ctx
  action : Action
  sent : List Inline

/-- One successful action. -/
def Step [Doubles] (env : Env) (w : World) (e : Event) (w' : World) : Prop :=
  w.time ≤ e.ctx.now ∧
    exec env e.ctx w.state e.action = .ok (w'.state, e.sent) ∧
    w'.time = e.ctx.now

/-- Runs of the contract, each step recorded with the state it started from. -/
abbrev History := List (World × Event)

/-- States of the contract that can come about. -/
abbrev Reaches [Doubles] (env : Env) (w : World) : Prop := Reachable (Step env) World.Genesis w

/-- Execute one action. -/
def stepWith [Doubles] (env : Env) (w : World) (i : Ctx × Action) : Option (Event × World) :=
  if w.time ≤ i.1.now then
    match exec env i.1 w.state i.2 with
    | .ok (s, sent) => some (⟨i.1, i.2, sent⟩, ⟨s, i.1.now⟩)
    | .error _ => none
  else none

theorem step_of_stepWith [Doubles]
    (env : Env) (w : World) (i : Ctx × Action) (e : Event) (w' : World)
    (h : stepWith env w i = some (e, w')) : Step env w e w' := by
  unfold stepWith at h
  split_ifs at h with htime
  cases hexec : exec env i.1 w.state i.2 with
  | error err => simp [hexec] at h
  | ok r =>
      obtain ⟨s, sent⟩ := r
      simp only [hexec, Option.some.injEq, Prod.mk.injEq] at h
      obtain ⟨rfl, rfl⟩ := h
      exact ⟨htime, hexec, rfl⟩

theorem input_of_stepWith [Doubles]
    (env : Env) (w : World) (i : Ctx × Action) (e : Event) (w' : World)
    (h : stepWith env w i = some (e, w')) : (e.ctx, e.action) = i := by
  unfold stepWith at h
  split_ifs at h
  cases hexec : exec env i.1 w.state i.2 with
  | error err => simp [hexec] at h
  | ok r =>
      simp only [hexec, Option.some.injEq, Prod.mk.injEq] at h
      obtain ⟨rfl, rfl⟩ := h
      rfl

theorem reaches_of_play [Doubles]
    {env : Env} {w w' : World} {is : List (Ctx × Action)} {h : History}
    (hw : w.Genesis) (hplay : play (stepWith env) w is = some (h, w')) : Reaches env w' :=
  ⟨w, h, hw, run_of_play (step_of_stepWith env) is hplay⟩

/-- The events of an execution have the executed inputs. -/
theorem input_mem_of_play [Doubles]
    {env : Env} {w w' : World} {is : List (Ctx × Action)} {h : History}
    (hplay : play (stepWith env) w is = some (h, w')) {p : World × Event} (hp : p ∈ h) :
    (p.2.ctx, p.2.action) ∈ is := by
  rw [← map_of_play (input_of_stepWith env) is hplay]
  exact List.mem_map.mpr ⟨p, hp, rfl⟩

end Runs

section Samples

/-- The root of `n` that extends `r` by bits below the given one. -/
def rootBits : Nat → Nat → Nat → Nat
  | 0, _, r => r
  | k + 1, n, r =>
      if (r + 2 ^ k) * (r + 2 ^ k) ≤ n then rootBits k n (r + 2 ^ k) else rootBits k n r

theorem rootBits_bounds
    (k n r : Nat) : r ≤ rootBits k n r ∧ rootBits k n r < r + 2 ^ k := by
  induction k generalizing r with
  | zero => simp [rootBits]
  | succ k ih =>
      have h1 := ih r
      have h2 := ih (r + 2 ^ k)
      have hpow : 2 ^ (k + 1) = 2 ^ k + 2 ^ k := by ring
      unfold rootBits
      split_ifs <;> omega

theorem one_le_rootBits
    {k n : Nat} (hk : 0 < k) (hn : 1 ≤ n) (r : Nat) : 1 ≤ rootBits k n r := by
  induction k generalizing r with
  | zero => exact absurd hk (lt_irrefl 0)
  | succ k ih =>
      unfold rootBits
      cases k with
      | zero =>
          cases r with
          | zero => simp [rootBits, hn]
          | succ r => split_ifs <;> simp [rootBits]
      | succ k =>
          split_ifs
          · exact ih (Nat.succ_pos k) _
          · exact ih (Nat.succ_pos k) _

/-- The contract under its usual account, with the exchange open, and with the mean
cut off to an integer. -/
def sampleEnv : Env where
  self := nameLiteral "lemonade.c"
  isDexOpen := true
  geometricMean := fun a b => Int64.ofNat (rootBits 62 (a.toInt * b.toInt).toNat 0)
  geometricMean_pos := by
    intro a b ha hb
    have ha' : 0 < a.toInt := Int64.lt_iff_toInt_lt.mp ha
    have hb' : 0 < b.toInt := Int64.lt_iff_toInt_lt.mp hb
    have hprod := mul_pos ha' hb'
    have hlow := one_le_rootBits (show 0 < 62 by decide)
      (show 1 ≤ (a.toInt * b.toInt).toNat by omega) 0
    have hhigh := (rootBits_bounds 62 (a.toInt * b.toInt).toNat 0).2
    rw [Int64.toInt_ofNat_of_lt (by omega)]
    omega

/-- A block at second `now`, an action authorised by one account, and no LEM so far. -/
def sampleCtx (now : ℕ) (account : String) : Ctx where
  now := UInt32.ofNat (now % 2000000000)
  now_le := by
    have hlt := Nat.mod_lt now (show 2000000000 > 0 by decide)
    simp only [UInt32.toNat_ofNat', lastBlockSecond]
    omega
  auths := [nameLiteral account]
  isAccount := fun _ => true
  lemStat := some ⟨zeroLem, nameLiteral "lemonade.c"⟩

def sampleWorld : World := ⟨State.empty, 0⟩

theorem sampleWorld_genesis : sampleWorld.Genesis := rfl

/-- `init`, and a product without term and with yields from one to two. -/
def sampleOpening : List (Ctx × Action) :=
  [(sampleCtx 1000 "lemonade.c", .init),
    (sampleCtx 1000 "lemonade.c",
      .addproduct (nameLiteral "basic") 1 2 false false zeroLed none none)]

/-- A transfer of LED by led.token to the contract. -/
def sampleTransfer (source : String) (amount : Int64) (memo : String) : Action :=
  .notify ledTokenContract (nameLiteral source) (nameLiteral "lemonade.c")
    ⟨amount, ledSymbol⟩ memo.toList

/-- A symbol with four decimals. -/
def sampleSymbol (code : String) : Symbol := Symbol.ofCode ⟨UInt64.ofNat (packCode code.toList)⟩ 4

/-- An amount of the token AAA of the contract tokena. -/
def sampleA (amount : Int64) : ExtendedAsset := ⟨⟨amount, sampleSymbol "AAA"⟩, nameLiteral "tokena"⟩

/-- An amount of the token BBB of the contract tokenb. -/
def sampleB (amount : Int64) : ExtendedAsset := ⟨⟨amount, sampleSymbol "BBB"⟩, nameLiteral "tokenb"⟩

/-- The notification of a transfer to the contract. -/
def samplePayment (source : String) (payment : ExtendedAsset) (memo : String) : Action :=
  .notify payment.contract (nameLiteral source) (nameLiteral "lemonade.c") payment.quantity
    memo.toList

/-- Deposits of alice, and a pool with the LP token AB that she creates from half of them. -/
def samplePool : List (Ctx × Action) :=
  [(sampleCtx 1000 "alice", samplePayment "alice" createPoolFee "deposit"),
    (sampleCtx 1000 "alice", samplePayment "alice" (sampleA 2000000) "deposit"),
    (sampleCtx 1000 "alice", samplePayment "alice" (sampleB 2000000) "deposit"),
    (sampleCtx 1000 "alice", .inittoken (nameLiteral "alice") (sampleSymbol "AB")
      (sampleA 1000000) (sampleB 1000000))]

end Samples

end Lemonade
