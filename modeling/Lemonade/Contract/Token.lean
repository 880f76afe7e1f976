import Lemonade.Contract.Tables
import Mathlib.Tactic

/-!
# LP tokens

The LP tokens of the pools, as token.cpp keeps them.  A balance is stored twice,
in the table `accounts` scoped by its owner and in the table `userinfo` scoped by
its symbol code; `open` and `close` only touch the first of the two.
-/

namespace Lemonade

open Kernel

/-- A row after `value` has been credited: a new row holds just that. -/
def creditRow (row : Option Asset) (value : Asset) : Result Asset :=
  match row with
  | none => return value
  | some balance => balance.add value

/-- `add_balance` -/
def addBalance (s : State) (owner : Name) (value : Asset) : Result State := do
  let code := value.symbol.code
  let balance ← creditRow (s.accounts.find? (owner, code)) value
  let info ← creditRow (s.userinfo.find? (code, owner)) value
  return { s with
    accounts := s.accounts.put (owner, code) balance
    userinfo := s.userinfo.put (code, owner) info }

/-- `sub_balance` -/
def subBalance (s : State) (owner : Name) (value : Asset) : Result State := do
  let code := value.symbol.code
  let balance ← require (s.accounts.find? (owner, code)) "no balance object found"
  check (value.amount ≤ balance.amount) "overdrawn balance"
  let info ← require (s.userinfo.find? (code, owner)) "user does not exist"
  check (value.amount ≤ info.amount) "overdrawn balance"
  let balance ← balance.sub value
  let info ← info.sub value
  return { s with
    accounts := s.accounts.put (owner, code) balance
    userinfo := s.userinfo.put (code, owner) info }

theorem addBalance_eq_ok
    {s s' : State} {owner : Name} {value : Asset}
    (h : addBalance s owner value = .ok s') :
    ∃ balance info,
      creditRow (s.accounts.find? (owner, value.symbol.code)) value = .ok balance ∧
      creditRow (s.userinfo.find? (value.symbol.code, owner)) value = .ok info ∧
      s' = { s with
        accounts := s.accounts.put (owner, value.symbol.code) balance
        userinfo := s.userinfo.put (value.symbol.code, owner) info } := by
  simp only [addBalance, bind_eq_ok_iff, pure_eq_ok_iff] at h
  obtain ⟨balance, hbalance, info, hinfo, rfl⟩ := h
  exact ⟨balance, info, hbalance, hinfo, rfl⟩

theorem subBalance_eq_ok
    {s s' : State} {owner : Name} {value : Asset}
    (h : subBalance s owner value = .ok s') :
    ∃ balance info balance' info',
      s.accounts.find? (owner, value.symbol.code) = some balance ∧
      s.userinfo.find? (value.symbol.code, owner) = some info ∧
      value.amount ≤ balance.amount ∧ value.amount ≤ info.amount ∧
      balance.sub value = .ok balance' ∧ info.sub value = .ok info' ∧
      s' = { s with
        accounts := s.accounts.put (owner, value.symbol.code) balance'
        userinfo := s.userinfo.put (value.symbol.code, owner) info' } := by
  simp only [subBalance, bind_eq_ok_iff, check_eq_ok_iff, require_eq_ok_iff,
    pure_eq_ok_iff] at h
  obtain ⟨balance, hbalance, _, hle, info, hinfo, _, hle', balance', hsub, info', hsub',
    rfl⟩ := h
  exact ⟨balance, info, balance', info', hbalance, hinfo, hle, hle', hsub, hsub', rfl⟩

/-- `check_frozen` -/
def checkFrozen (s : State) (account : Name) : Result PUnit :=
  check (s.frozens.find? account = none) "account is frozen"

@[simp] theorem checkFrozen_eq_ok_iff
    {s : State} {account : Name} {x : PUnit} :
    checkFrozen s account = .ok x ↔ s.frozens.find? account = none :=
  check_eq_ok_iff

/-- `transfer` -/
def transfer (ctx : Ctx) (s : State) (source dest : Name) (quantity : Asset) (memo : Text) :
    Result State := do
  check (source ≠ dest) "cannot transfer to self"
  requireAuth ctx source
  checkFrozen s source
  check (ctx.isAccount dest = true) "to account does not exist"
  let stats ← require (s.stats.find? quantity.symbol.code) "unable to find key"
  check quantity.IsValid "invalid quantity"
  check (0 < quantity.amount) "must transfer positive quantity"
  check (quantity.symbol = stats.supply.symbol) "symbol precision mismatch"
  check (memo.length ≤ 256) "memo has more than 256 bytes"
  let s ← subBalance s source quantity
  addBalance s dest quantity

theorem transfer_eq_ok
    {ctx : Ctx} {s s' : State} {source dest : Name} {quantity : Asset} {memo : Text}
    (h : transfer ctx s source dest quantity memo = .ok s') :
    ∃ stats s₁,
      source ≠ dest ∧ source ∈ ctx.auths ∧
      s.stats.find? quantity.symbol.code = some stats ∧
      quantity.IsValid ∧ 0 < quantity.amount ∧
      subBalance s source quantity = .ok s₁ ∧ addBalance s₁ dest quantity = .ok s' := by
  simp only [transfer, bind_eq_ok_iff, requireAuth_eq_ok_iff, check_eq_ok_iff,
    require_eq_ok_iff] at h
  obtain ⟨_, hne, _, hauth, _, -, _, -, stats, hstats, _, hvalid, _, hpos, _, -, _, -, s₁,
    hsub, hadd⟩ := h
  exact ⟨stats, s₁, hne, hauth, hstats, hvalid, hpos, hsub, hadd⟩

/-- The action `open` -/
def tokenOpen (ctx : Ctx) (s : State) (owner : Name) (symbol : Symbol) (ramPayer : Name) :
    Result State := do
  requireAuth ctx ramPayer
  check (ctx.isAccount owner = true) "owner account does not exist"
  let stats ← require (s.stats.find? symbol.code) "symbol does not exist"
  check (stats.supply.symbol = symbol) "symbol precision mismatch"
  match s.accounts.find? (owner, symbol.code) with
  | some _ => return s
  | none => do
      let zero ← Asset.make 0 symbol
      return { s with accounts := s.accounts.put (owner, symbol.code) zero }

theorem tokenOpen_eq_ok
    {ctx : Ctx} {s s' : State} {owner : Name} {symbol : Symbol} {ramPayer : Name}
    (h : tokenOpen ctx s owner symbol ramPayer = .ok s') :
    s' = s ∨
      s.accounts.find? (owner, symbol.code) = none ∧
        s' = { s with accounts := s.accounts.put (owner, symbol.code) ⟨0, symbol⟩ } := by
  simp only [tokenOpen, bind_eq_ok_iff, requireAuth_eq_ok_iff, check_eq_ok_iff,
    require_eq_ok_iff] at h
  obtain ⟨_, -, _, -, stats, -, _, -, h⟩ := h
  cases hrow : s.accounts.find? (owner, symbol.code) with
  | some row =>
      simp only [hrow, pure_eq_ok_iff] at h
      exact Or.inl h
  | none =>
      simp only [hrow, bind_eq_ok_iff, Asset.make_eq_ok_iff, pure_eq_ok_iff] at h
      obtain ⟨_, ⟨-, -, rfl⟩, rfl⟩ := h
      exact Or.inr ⟨rfl, rfl⟩

/-- The action `close` -/
def tokenClose (ctx : Ctx) (s : State) (owner : Name) (symbol : Symbol) : Result State := do
  requireAuth ctx owner
  let balance ← require (s.accounts.find? (owner, symbol.code))
    "Balance row already deleted or never existed. Action won't have any effect."
  check (balance.amount = 0) "Cannot close because the balance is not zero."
  return { s with accounts := s.accounts.erase (owner, symbol.code) }

theorem tokenClose_eq_ok
    {ctx : Ctx} {s s' : State} {owner : Name} {symbol : Symbol}
    (h : tokenClose ctx s owner symbol = .ok s') :
    ∃ balance,
      owner ∈ ctx.auths ∧
      s.accounts.find? (owner, symbol.code) = some balance ∧ balance.amount = 0 ∧
      s' = { s with accounts := s.accounts.erase (owner, symbol.code) } := by
  simp only [tokenClose, bind_eq_ok_iff, requireAuth_eq_ok_iff, check_eq_ok_iff,
    require_eq_ok_iff, pure_eq_ok_iff] at h
  obtain ⟨_, hauth, balance, hrow, _, hzero, rfl⟩ := h
  exact ⟨balance, hauth, hrow, hzero, rfl⟩

/-- `freeze` -/
def freeze (env : Env) (ctx : Ctx) (s : State) (account : Name) : Result State := do
  requireAuth ctx env.self
  check (s.frozens.find? account = none) "account is already frozen"
  return { s with frozens := s.frozens.put account () }

/-- `unfreeze` -/
def unfreeze (env : Env) (ctx : Ctx) (s : State) (account : Name) : Result State := do
  requireAuth ctx env.self
  check (s.frozens.find? account ≠ none) "account is not frozen"
  return { s with frozens := s.frozens.erase account }

theorem freeze_eq_ok
    {env : Env} {ctx : Ctx} {s s' : State} {account : Name}
    (h : freeze env ctx s account = .ok s') :
    ∃ frozens, s' = { s with frozens := frozens } := by
  simp only [freeze, bind_eq_ok_iff, pure_eq_ok_iff] at h
  obtain ⟨_, -, _, -, rfl⟩ := h
  exact ⟨_, rfl⟩

theorem unfreeze_eq_ok
    {env : Env} {ctx : Ctx} {s s' : State} {account : Name}
    (h : unfreeze env ctx s account = .ok s') :
    ∃ frozens, s' = { s with frozens := frozens } := by
  simp only [unfreeze, bind_eq_ok_iff, pure_eq_ok_iff] at h
  obtain ⟨_, -, _, -, rfl⟩ := h
  exact ⟨_, rfl⟩

end Lemonade
