import Lemonade.Contract.Tables
import Mathlib.Data.List.FinRange
import Mathlib.Tactic

/-!
# Initialisation, prices, LEM issuance

`init`, the price setters and `issue_lem`.  Issuance is counted per era: the
table of halving times cuts time into three eras, and a second of era `i` is
worth a second divided by `2 ^ i`.  All counting is in 32 bits, as in the source.
-/

namespace Lemonade

open Kernel

section Admin

/-- The row that `init` stores if there is none. -/
def initialConfig (current : UInt32) : Config where
  lastLemBucketFill := current
  lastHalfLifeUpdated :=
    ![current, current + secondsPerYear * 2, current + secondsPerYear * 4,
      current + secondsPerYear * 6]
  halfLifeCount := 0
  btcPrice := 0

/-- `init` -/
def init (env : Env) (ctx : Ctx) (s : State) : Result State := do
  requireAuth ctx env.self
  let config := s.config.getD (initialConfig ctx.now)
  let config2 := s.config2.getD { price := 0 }
  return { s with config := some config, config2 := some config2 }

/-- `setbtcprice` -/
def setbtcprice (env : Env) (ctx : Ctx) (s : State) (price : ℚ) : Result State := do
  requireAuth ctx env.self
  let config ← require s.config "contract not initialized"
  return { s with config := some { config with btcPrice := price } }

/-- `setledprice` -/
def setledprice (env : Env) (ctx : Ctx) (s : State) (price : ℚ) : Result State := do
  requireAuth ctx env.self
  let _ ← require s.config2 "led price not exist"
  return { s with config2 := some { price := price } }

theorem init_eq_ok
    {env : Env} {ctx : Ctx} {s s' : State}
    (h : init env ctx s = .ok s') :
    ∃ config2, s' = { s with
      config := some (s.config.getD (initialConfig ctx.now))
      config2 := config2 } := by
  simp only [init, bind_eq_ok_iff, pure_eq_ok_iff] at h
  obtain ⟨_, -, rfl⟩ := h
  exact ⟨_, rfl⟩

theorem setbtcprice_eq_ok
    {env : Env} {ctx : Ctx} {s s' : State} {price : ℚ}
    (h : setbtcprice env ctx s price = .ok s') :
    ∃ config, s.config = some config ∧
      s' = { s with config := some { config with btcPrice := price } } := by
  simp only [setbtcprice, bind_eq_ok_iff, require_eq_ok_iff, pure_eq_ok_iff] at h
  obtain ⟨_, -, config, hconfig, rfl⟩ := h
  exact ⟨config, hconfig, rfl⟩

theorem setledprice_eq_ok
    {env : Env} {ctx : Ctx} {s s' : State} {price : ℚ}
    (h : setledprice env ctx s price = .ok s') :
    ∃ config2, s' = { s with config2 := config2 } := by
  simp only [setledprice, bind_eq_ok_iff, require_eq_ok_iff, pure_eq_ok_iff] at h
  obtain ⟨_, -, _, -, rfl⟩ := h
  exact ⟨_, rfl⟩

end Admin

section Issuance

/-- `(uint32_t)pow(2, i)` -/
def halvings (i : Nat) : UInt32 := UInt32.ofNat (2 ^ i)

/-- The variables of the loop of `issue_lem`. -/
structure Fill where
  secsSinceLastFill : UInt32
  lastIssued : UInt32
  halfLife : Nat

/-- One round of the loop of `issue_lem`. -/
def fillStep (h : Fin 4 → UInt32) (current : UInt32) (f : Fill) (i : Fin 3) : Fill :=
  if h i.castSucc ≤ current ∧ current < h i.succ then
    { f with
      secsSinceLastFill := f.secsSinceLastFill + (current - f.lastIssued) / halvings i
      halfLife := i }
  else if h i.succ ≤ current then
    { secsSinceLastFill := f.secsSinceLastFill + (h i.succ - f.lastIssued) / halvings i
      lastIssued := h i.succ
      halfLife := i + 1 }
  else f

/-- The loop of `issue_lem`. -/
def fillLoop (config : Config) (current : UInt32) : Fill :=
  ((List.finRange 3).filter fun i => config.halfLifeCount ≤ i.val).foldl
    (fillStep config.lastHalfLifeUpdated current)
    ⟨0, config.lastLemBucketFill, config.halfLifeCount⟩

/-- `secs_since_last_fill * 2'0000`, in 32 bits -/
def scaledFill (secs : UInt32) : Int64 := Int64.ofNat (secs * 20000).toNat

/-- The amount that `issue_lem` issues, cut off at `LEM_MAX`. -/
def newToken (env : Env) (ctx : Ctx) (secs : UInt32) : Result Asset := do
  let token ← Asset.make (scaledFill secs) lemSymbol
  let stats ← require (ctx.lemStat.filter fun stat => stat.issuer = env.self)
    "lem token not created"
  if lemMax < token.amount + stats.supply.amount then
    Asset.make (lemMax - stats.supply.amount) lemSymbol
  else
    return token

/-- A transfer from led.token that is sent if its amount is positive. -/
def sendPositive (dest : Name) (quantity : Asset) (memo : String) : List Inline :=
  if 0 < quantity.amount then [.transfer ledTokenContract dest quantity memo.toList] else []

/-- The shares of new LEM that are sent on by `issue_lem`. -/
def distribute [Doubles] (env : Env) (token : Asset) : Result (List Inline) := do
  let share := fun (rate : ℚ) => do
    let amount ← toInt64 (rnd (rnd token.amount.toInt * rnd rate))
    Asset.make amount lemSymbol
  let toLending ← share (3 / 10)
  let toMarketing ← share (1 / 10)
  let toTeam ← share (5 / 100)
  let toReserve ← share (5 / 100)
  return .issue ledTokenContract env.self token "issue".toList ::
    (sendPositive lendingRewardAccount toLending "fill bucket to rc reward" ++
      sendPositive marketingAccount toMarketing "fill bucket to marketing" ++
      sendPositive teamAccount toTeam "fill bucket to team" ++
      sendPositive reservedAccount toReserve "fill bucket to reserve")

/-- `issue_lem` -/
def issueLem [Doubles] (env : Env) (ctx : Ctx) (s : State) : Result (State × List Inline) := do
  let config ← require s.config "contract not initialized"
  if config.halfLifeCount = 3 then
    return (s, [])
  else
    let fill := fillLoop config ctx.now
    let token ← newToken env ctx fill.secsSinceLastFill
    if 0 < token.amount then
      let sent ← distribute env token
      let config := { config with
        halfLifeCount := fill.halfLife
        lastLemBucketFill := ctx.now }
      return ({ s with config := some config }, sent)
    else
      return (s, [])

/-- `issuelem` -/
def issuelem [Doubles] (env : Env) (ctx : Ctx) (s : State) : Result (State × List Inline) := do
  requireAuth ctx env.self
  issueLem env ctx s

/-- Nothing but transfers is sent. -/
def OnlyTransfers (sent : List Inline) : Prop :=
  ∀ x ∈ sent, ∃ contract dest quantity memo, x = .transfer contract dest quantity memo

theorem onlyTransfers_nil : OnlyTransfers [] := fun _ hx => by cases hx

theorem OnlyTransfers.cons
    {contract dest : Name} {quantity : Asset} {memo : Text} {sent : List Inline}
    (h : OnlyTransfers sent) :
    OnlyTransfers (.transfer contract dest quantity memo :: sent) := by
  intro x hx
  rcases List.mem_cons.mp hx with rfl | hx
  · exact ⟨contract, dest, quantity, memo, rfl⟩
  · exact h x hx

theorem OnlyTransfers.append
    {sent sent' : List Inline} (h : OnlyTransfers sent) (h' : OnlyTransfers sent') :
    OnlyTransfers (sent ++ sent') := by
  intro x hx
  rcases List.mem_append.mp hx with hx | hx
  · exact h x hx
  · exact h' x hx

theorem onlyTransfers_sendPositive
    (dest : Name) (quantity : Asset) (memo : String) :
    OnlyTransfers (sendPositive dest quantity memo) := by
  unfold sendPositive
  split_ifs
  · exact onlyTransfers_nil.cons
  · exact onlyTransfers_nil

theorem distribute_eq_ok [Doubles]
    {env : Env} {token : Asset} {sent : List Inline}
    (h : distribute env token = .ok sent) :
    ∃ shares, OnlyTransfers shares ∧
      sent = .issue ledTokenContract env.self token "issue".toList :: shares := by
  simp only [distribute, bind_eq_ok_iff, pure_eq_ok_iff] at h
  obtain ⟨toLending, -, toMarketing, -, toTeam, -, toReserve, -, rfl⟩ := h
  refine ⟨_, ?_, rfl⟩
  exact (((onlyTransfers_sendPositive _ _ _).append (onlyTransfers_sendPositive _ _ _)).append
    (onlyTransfers_sendPositive _ _ _)).append (onlyTransfers_sendPositive _ _ _)

theorem newToken_eq_ok
    {env : Env} {ctx : Ctx} {secs : UInt32} {token : Asset}
    (h : newToken env ctx secs = .ok token) :
    ∃ stat, ctx.lemStat = some stat ∧ token.symbol = lemSymbol ∧
      token.amount = if lemMax < scaledFill secs + stat.supply.amount then
        lemMax - stat.supply.amount else scaledFill secs := by
  simp only [newToken, bind_eq_ok_iff, Asset.make_eq_ok_iff, require_eq_ok_iff,
    Option.filter_eq_some_iff] at h
  obtain ⟨_, ⟨-, -, rfl⟩, stat, ⟨hstat, -⟩, h⟩ := h
  refine ⟨stat, hstat, ?_⟩
  split_ifs at h ⊢
  · obtain ⟨-, -, rfl⟩ := Asset.make_eq_ok_iff.mp h
    exact ⟨rfl, rfl⟩
  · obtain rfl := pure_eq_ok_iff.mp h
    exact ⟨rfl, rfl⟩

theorem issueLem_eq_ok [Doubles]
    {env : Env} {ctx : Ctx} {s s' : State} {sent : List Inline}
    (h : issueLem env ctx s = .ok (s', sent)) :
    ∃ config, s.config = some config ∧
      (config.halfLifeCount = 3 ∧ s' = s ∧ sent = [] ∨
        ∃ token, config.halfLifeCount ≠ 3 ∧
          newToken env ctx (fillLoop config ctx.now).secsSinceLastFill = .ok token ∧
          (¬ 0 < token.amount ∧ s' = s ∧ sent = [] ∨
            0 < token.amount ∧ distribute env token = .ok sent ∧
            s' = { s with config := some { config with
              halfLifeCount := (fillLoop config ctx.now).halfLife
              lastLemBucketFill := ctx.now } })) := by
  simp only [issueLem, bind_eq_ok_iff, require_eq_ok_iff] at h
  obtain ⟨config, hconfig, h⟩ := h
  refine ⟨config, hconfig, ?_⟩
  split_ifs at h with hover
  · simp only [pure_eq_ok_iff, Prod.mk.injEq] at h
    obtain ⟨rfl, rfl⟩ := h
    exact Or.inl ⟨hover, rfl, rfl⟩
  · simp only [bind_eq_ok_iff] at h
    obtain ⟨token, htoken, h⟩ := h
    refine Or.inr ⟨token, hover, htoken, ?_⟩
    split_ifs at h with hpos
    · simp only [bind_eq_ok_iff, pure_eq_ok_iff, Prod.mk.injEq] at h
      obtain ⟨_, hsent, rfl, rfl⟩ := h
      exact Or.inr ⟨hpos, hsent, rfl⟩
    · simp only [pure_eq_ok_iff, Prod.mk.injEq] at h
      obtain ⟨rfl, rfl⟩ := h
      exact Or.inl ⟨hpos, rfl, rfl⟩

/-- Everything that `issue_lem` can do to the state: it may move the fill time and
the era, and changes neither the halving times nor another table. -/
theorem issueLem_frame [Doubles]
    {env : Env} {ctx : Ctx} {s s' : State} {sent : List Inline}
    (h : issueLem env ctx s = .ok (s', sent)) :
    ∃ config config', s.config = some config ∧
      s' = { s with config := some config' } ∧
      config'.lastHalfLifeUpdated = config.lastHalfLifeUpdated ∧
      config'.btcPrice = config.btcPrice := by
  obtain ⟨config, hconfig, h⟩ := issueLem_eq_ok h
  have hsame : ({ s with config := some config } : State) = s := by
    rw [← hconfig]
  rcases h with ⟨-, rfl, -⟩ | ⟨token, -, -, ⟨-, rfl, -⟩ | ⟨-, -, rfl⟩⟩
  · exact ⟨config, config, hconfig, hsame.symm, rfl, rfl⟩
  · exact ⟨config, config, hconfig, hsame.symm, rfl, rfl⟩
  · exact ⟨config, _, hconfig, rfl, rfl, rfl⟩

end Issuance

end Lemonade
