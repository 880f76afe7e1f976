import Lemonade.Safety.SwapChecks
import Mathlib.Tactic

/-!
# The ways to swap

`exchange` charges the deposit of the sender, `exchangeall` is meant to be `exchange` of a whole
deposit, and `memoexchange` swaps an incoming transfer.  They share the fee and the swap, and
differ in what they expect and in what they charge.
-/

namespace Lemonade

open Kernel

section WholeBalance

variable {env : Env} {ctx : Ctx} {s s₁ s' : State} {user : Name} {pairToken : SymbolCode}
variable {token : CurrencyStats} {first : Bool} {key : Name × Nat}
variable {input net out balance : ExtendedAsset} {minExpected : Asset}

theorem TokensValid.reserve
    (valid : TokensValid s) (htoken : s.stats.find? pairToken = some token) (first : Bool) :
    (token.reserve first).quantity.symbol.isValid = true := by
  obtain ⟨hleft, hright⟩ := valid _ _ _ (poolTokens_of_find? htoken)
  cases first with
  | true => exact hleft
  | false => exact hright

theorem PoolOk.reserve_ne
    (ok : PoolOk token) (first : Bool) :
    (token.reserve first).extendedSymbol ≠ (token.reserve !first).extendedSymbol := by
  intro heq
  have hside := ok.side_unique heq
  cases first <;> cases hside

/-- The output of a pool of valid tokens is a valid asset. -/
theorem TokensValid.output [Doubles]
    {amount : ℤ} (valid : TokensValid s) (ok : PoolOk token)
    (htoken : s.stats.find? pairToken = some token) (hamount : 0 ≤ amount)
    (hout : out.quantity.amount.toInt = token.output first amount)
    (houtSym : out.extendedSymbol = (token.reserve !first).extendedSymbol) :
    out.quantity.IsValid := by
  refine ⟨?_, ?_⟩
  · have hlow := ok.output_nonneg first hamount
    have hhigh := ok.output_lt first hamount
    have hmax := (ok.reserve_inRange !first).2
    unfold AmountInRange maxAmount at *
    omega
  · rw [show out.quantity.symbol = _ from congrArg ExtendedSymbol.sym houtSym]
    exact valid.reserve htoken !first

/-- After a swap of at most the deposit, the deposit pays the net input, and the output can be
credited iff it could be before. -/
theorem Swapped.settle [Doubles]
    (inv : LpLedger s) (valid : TokensValid s) (htoken : s.stats.find? pairToken = some token)
    (hsym : input.extendedSymbol = (token.reserve first).extendedSymbol)
    (hpos : 0 < input.quantity.amount.toInt)
    (hrow : findDexacnt s user (token.reserve first).extendedSymbol = some (key, balance))
    (hle : input.quantity.amount.toInt ≤ balance.quantity.amount.toInt)
    (h : Swapped s pairToken input minExpected net out s₁) :
    ∃ s₂, addSignedExtBalance s₁ user net.neg = .ok s₂ ∧
      (Succeeds (addSignedExtBalance s₂ user out) ↔
        CreditFits s user (token.reserve !first).extendedSymbol
          (token.output first input.quantity.amount.toInt)) := by
  have ok := inv.pools _ token htoken
  obtain ⟨-, hnet, hout, houtSym, -⟩ := h.fits inv.pools htoken hsym hpos
  obtain ⟨_, token', _, -, -, -, rfl⟩ := h.update inv.pools
  obtain ⟨_, _, -, -, hnetIn, -⟩ := h
  have hnetSym := (netInput_eq_ok hnetIn).2.trans hsym
  let s₁ : State := { s with stats := s.stats.put pairToken token' }
  have hlt := netOf_lt hpos
  have hrow₁ : findDexacnt s₁ user net.extendedSymbol = some (key, balance) := by
    rw [hnetSym]
    exact hrow
  have hnetValid : net.quantity.symbol.isValid = true := by
    rw [show net.quantity.symbol = _ from congrArg ExtendedSymbol.sym hnetSym]
    exact valid.reserve htoken first
  have hnonneg : 0 ≤ net.quantity.amount.toInt := by
    rw [hnet]
    exact netOf_nonneg hpos.le
  have deposits : DepositsOk s₁.dexacnts := inv.deposits
  obtain ⟨balance', hsym', hcharge⟩ :=
    addSignedExtBalance_of_debit deposits hrow₁ hnetValid hnonneg (by omega)
  refine ⟨_, hcharge, ?_⟩
  have houtValid := valid.output ok htoken hpos.le hout houtSym
  have houtNonneg : 0 ≤ out.quantity.amount.toInt := by
    rw [hout]
    exact ok.output_nonneg first hpos.le
  obtain ⟨hkey, -, hbalance⟩ := findDexacnt_eq_some hrow₁
  have hne : balance.extendedSymbol ≠ (token.reserve !first).extendedSymbol := by
    rw [hbalance, hnetSym]
    exact ok.reserve_ne first
  have hne' : balance'.extendedSymbol ≠ (token.reserve !first).extendedSymbol := by
    rw [hsym', hnetSym]
    exact ok.reserve_ne first
  rw [succeeds_credit_iff (deposits.add hcharge) houtValid houtNonneg, hout, houtSym]
  unfold CreditFits
  rw [findDexacnt_put hkey hne hne', dexacntIds_put hkey]
  exact Iff.rfl

/-- An exchange of at most a whole deposit succeeds iff it fits the pool and its output fits the
deposit of the other token. -/
theorem succeeds_exchange_iff [Doubles]
    (inv : LpLedger s) (valid : TokensValid s) (hopen : env.isDexOpen = true)
    (htoken : s.stats.find? pairToken = some token)
    (hsym : input.extendedSymbol = (token.reserve first).extendedSymbol)
    (hpos : 0 < input.quantity.amount.toInt)
    (hrow : findDexacnt s user (token.reserve first).extendedSymbol = some (key, balance))
    (hle : input.quantity.amount.toInt ≤ balance.quantity.amount.toInt)
    (hexpected : minExpected.symbol = (token.reserve !first).quantity.symbol)
    (hmin : 0 ≤ minExpected.amount.toInt) :
    Succeeds (exchange env ctx s user pairToken input minExpected) ↔
      user ∈ ctx.auths ∧
      SwapFits token first input.quantity.amount.toInt minExpected.amount.toInt ∧
      CreditFits s user (token.reserve !first).extendedSymbol
        (token.output first input.quantity.amount.toInt) := by
  have ok := inv.pools _ token htoken
  constructor
  · rintro ⟨s', h⟩
    obtain ⟨net, out, s₁, s₂, hauth, -, hswap, hpay, hget⟩ := exchange_eq_ok h
    obtain ⟨s₂', hpay', hcredit⟩ := hswap.settle inv valid htoken hsym hpos hrow hle
    obtain rfl := Except.ok.inj (hpay.symm.trans hpay')
    exact ⟨hauth, (hswap.fits inv.pools htoken hsym hpos).1, hcredit.mp ⟨s', hget⟩⟩
  · rintro ⟨hauth, fits, credit⟩
    obtain ⟨net, out, s₁, hswap⟩ :=
      exists_swapped ok (valid.reserve htoken !first) htoken hsym hexpected hpos fits
    obtain ⟨s₂, hpay, hcredit⟩ := hswap.settle inv valid htoken hsym hpos hrow hle
    have hsign : 0 < input.quantity.amount ∧ 0 ≤ minExpected.amount := by
      rw [Int64.lt_iff_toInt_lt, Int64.le_iff_toInt_le, Int64.toInt_zero]
      exact ⟨hpos, hmin⟩
    obtain ⟨token₀, tokenFee, htoken₀, hfee, hnet, hexch⟩ := hswap
    simp only [exchange, succeeds_bind_iff, check_eq_ok_iff, requireAuth_eq_ok_iff,
      require_eq_ok_iff]
    exact ⟨⟨⟩, hopen, ⟨⟩, hauth, token₀, htoken₀, ⟨⟩, Or.inl hsign, tokenFee, hfee, net, hnet,
      (s₁, out), hexch, s₂, hpay, hcredit.mpr credit⟩

/-- `exchangeall` expects the whole second reserve: of the first token no input buys that, and
for the second token it is the token that is paid. -/
theorem exchangeall_ne_ok [Doubles]
    (inv : LpLedger s) (htoken : s.stats.find? pairToken = some token)
    (hrow : findDexacnt s user (token.reserve first).extendedSymbol = some (key, balance))
    (hpos : 0 < balance.quantity.amount.toInt) :
    exchangeall env ctx s user pairToken (token.reserve first).extendedSymbol ≠ .ok s' := by
  intro h
  obtain ⟨token', key', balance', htoken', hrow', hall⟩ := exchangeall_eq_ok h
  obtain rfl := Option.some.inj (htoken.symm.trans htoken')
  obtain ⟨rfl, rfl⟩ := Prod.mk.inj (Option.some.inj (hrow.symm.trans hrow'))
  obtain ⟨_, _, _, _, -, -, hswap, -, -⟩ := exchange_eq_ok hall
  have ok := inv.pools _ token htoken
  have hsym := (findDexacnt_eq_some hrow).2.2
  obtain ⟨fits, -, -, -, hexpected⟩ := hswap.fits inv.pools htoken hsym hpos
  cases first with
  | true =>
      have hlt := ok.output_lt true hpos.le
      exact absurd fits.enough (not_le.mpr hlt)
  | false => exact ok.codes_ne (congrArg Symbol.code hexpected).symm

variable {w : World}

/-- `exchangeall` of a positive deposit agrees with `exchange` of that deposit exactly where the
latter fails. -/
theorem exchangeall_eq_exchange_iff [Doubles]
    (hw : Reaches env w) (hopen : env.isDexOpen = true)
    (htoken : w.state.stats.find? pairToken = some token)
    (hrow : findDexacnt w.state user (token.reserve first).extendedSymbol = some (key, balance))
    (hpos : 0 < balance.quantity.amount) :
    (∀ s', exchangeall env ctx w.state user pairToken (token.reserve first).extendedSymbol =
          .ok s' ↔
        exchange env ctx w.state user pairToken balance
          ⟨0, (token.reserve !first).quantity.symbol⟩ = .ok s') ↔
      ¬ (user ∈ ctx.auths ∧ SwapFits token first balance.quantity.amount.toInt 0 ∧
        CreditFits w.state user (token.reserve !first).extendedSymbol
          (token.output first balance.quantity.amount.toInt)) := by
  have inv := lpLedger_of_reaches hw
  have hpos' : 0 < balance.quantity.amount.toInt := by
    rw [Int64.lt_iff_toInt_lt, Int64.toInt_zero] at hpos
    exact hpos
  have hall : ∀ s', exchangeall env ctx w.state user pairToken
      (token.reserve first).extendedSymbol ≠ .ok s' :=
    fun s' => exchangeall_ne_ok inv htoken hrow hpos'
  have hsym := (findDexacnt_eq_some hrow).2.2
  have hiff : Succeeds (exchange env ctx w.state user pairToken balance
      ⟨0, (token.reserve !first).quantity.symbol⟩) ↔ _ :=
    succeeds_exchange_iff inv (registered_of_reaches hw).2 hopen htoken hsym hpos' hrow
      (le_refl _) rfl (le_refl _)
  rw [Int64.toInt_zero] at hiff
  rw [← hiff]
  constructor
  · rintro h ⟨s', hs'⟩
    exact hall s' ((h s').mpr hs')
  · intro h s'
    exact ⟨fun hs' => absurd hs' (hall s'), fun hs' => absurd ⟨s', hs'⟩ h⟩

open Binary64

/-- Of a deposit of one unit nothing is left after the fee, and both actions refuse it. -/
theorem exchangeall_eq_exchange_iff_sample :
    ∃ w key, Reaches sampleEnv w ∧
      findDexacnt w.state (nameLiteral "alice") (sampleA 1).extendedSymbol =
        some (key, sampleA 1) ∧
      ∀ ctx s', exchangeall sampleEnv ctx w.state (nameLiteral "alice") (sampleSymbol "AB").code
          (sampleA 1).extendedSymbol = .ok s' ↔
        exchange sampleEnv ctx w.state (nameLiteral "alice") (sampleSymbol "AB").code
          (sampleA 1) (sampleB 0).quantity = .ok s' := by
  obtain ⟨h, w, hplay, hobs⟩ := exists_of_play
    (show (play (stepWith sampleEnv) sampleWorld
        [(sampleCtx 1000 "alice", samplePayment "alice" createPoolFee "deposit"),
          (sampleCtx 1000 "alice", samplePayment "alice" (sampleA 1000001) "deposit"),
          (sampleCtx 1000 "alice", samplePayment "alice" (sampleB 1000000) "deposit"),
          (sampleCtx 1000 "alice", .inittoken (nameLiteral "alice") (sampleSymbol "AB")
            (sampleA 1000000) (sampleB 1000000))]).map
        (fun r => (poolTokens r.2.state (sampleSymbol "AB").code,
          (findDexacnt r.2.state (nameLiteral "alice") (sampleA 1).extendedSymbol).map Prod.snd)) =
      some (some ((sampleA 0).extendedSymbol, (sampleB 0).extendedSymbol), some (sampleA 1))
      by decide +kernel)
  have hw := reaches_of_play sampleWorld_genesis hplay
  obtain ⟨htokens, hdeposit⟩ := Prod.mk.inj hobs
  obtain ⟨token, htoken, hsides⟩ := Option.map_eq_some_iff.mp htokens
  obtain ⟨⟨key, _⟩, hrow, rfl⟩ := Option.map_eq_some_iff.mp hdeposit
  obtain ⟨hleft, hright⟩ := Prod.mk.inj hsides
  refine ⟨w, key, hw, hrow, ?_⟩
  intro ctx
  have hside : (token.reserve true).extendedSymbol = (sampleA 1).extendedSymbol := hleft
  have hother : (token.reserve false).quantity.symbol = (sampleB 0).quantity.symbol :=
    congrArg ExtendedSymbol.sym hright
  rw [← hside, show (sampleB 0).quantity = ⟨0, (token.reserve !true).quantity.symbol⟩ from by
    rw [Bool.not_true, hother]; rfl]
  refine (exchangeall_eq_exchange_iff hw rfl htoken (by rw [hside]; exact hrow) (by decide)).mpr ?_
  rintro ⟨-, fits, -⟩
  have hone : (sampleA 1).quantity.amount.toInt = 1 := by decide
  have hlt := netOf_lt (show 0 < (sampleA 1).quantity.amount.toInt by decide)
  have hnet := fits.net
  omega

/-- After the creation of her pool alice can exchange the million of AAA that she has left, but
not with `exchangeall`. -/
theorem exchangeall_fails_on_sound_exchange :
    ¬ ∀ (env : Env) (ctx : Ctx) (w : World) (user : Name) (pairToken : SymbolCode)
        (token : CurrencyStats) (first : Bool) (key : Name × Nat) (balance : ExtendedAsset),
      Reaches env w → env.isDexOpen = true → w.state.stats.find? pairToken = some token →
      findDexacnt w.state user (token.reserve first).extendedSymbol = some (key, balance) →
      0 < balance.quantity.amount →
      ∀ s', exchangeall env ctx w.state user pairToken (token.reserve first).extendedSymbol =
          .ok s' ↔
        exchange env ctx w.state user pairToken balance
          ⟨0, (token.reserve !first).quantity.symbol⟩ = .ok s' := by
  intro hall
  obtain ⟨h, w, hplay, hobs⟩ := exists_of_play
    (show (play (stepWith sampleEnv) sampleWorld samplePool).map
        (fun r => (poolTokens r.2.state (sampleSymbol "AB").code,
          (findDexacnt r.2.state (nameLiteral "alice") (sampleA 0).extendedSymbol).map Prod.snd,
          (exchange sampleEnv (sampleCtx 2000 "alice") r.2.state (nameLiteral "alice")
            (sampleSymbol "AB").code (sampleA 1000000) (sampleB 0).quantity).isOk,
          (exchangeall sampleEnv (sampleCtx 2000 "alice") r.2.state (nameLiteral "alice")
            (sampleSymbol "AB").code (sampleA 0).extendedSymbol).isOk)) =
      some (some ((sampleA 0).extendedSymbol, (sampleB 0).extendedSymbol),
        some (sampleA 1000000), true, false) by decide +kernel)
  have hw := reaches_of_play sampleWorld_genesis hplay
  simp only [Prod.mk.injEq] at hobs
  obtain ⟨htokens, hdeposit, hexchange, hexchangeall⟩ := hobs
  obtain ⟨token, htoken, hsides⟩ := Option.map_eq_some_iff.mp htokens
  obtain ⟨⟨key, _⟩, hrow, rfl⟩ := Option.map_eq_some_iff.mp hdeposit
  obtain ⟨hleft, hright⟩ := Prod.mk.inj hsides
  have hside : (token.reserve true).extendedSymbol = (sampleA 0).extendedSymbol := hleft
  have hother : (token.reserve false).quantity.symbol = (sampleB 0).quantity.symbol :=
    congrArg ExtendedSymbol.sym hright
  have hsame := hall sampleEnv (sampleCtx 2000 "alice") w (nameLiteral "alice")
    (sampleSymbol "AB").code token true key (sampleA 1000000) hw rfl htoken
    (by rw [hside]; exact hrow) (by decide)
  rw [hside, Bool.not_true, hother] at hsame
  obtain ⟨s', hs'⟩ := succeeds_iff_isOk.mpr hexchange
  have hall' := succeeds_iff_isOk.mp ⟨s', (hsame s').mpr hs'⟩
  rw [hexchangeall] at hall'
  cases hall'

end WholeBalance

section TwoPaths

/-- The deposit of a user in a token. -/
def depositOf (s : State) (user : Name) (sym : ExtendedSymbol) : ℤ :=
  deposited (fun u x => u = user ∧ x = sym) s.dexacnts

/-- A swap of an incoming transfer, which sends `out` to the user. -/
def MemoSwap [Doubles] (env : Env) (s : State) (user : Name) (input : ExtendedAsset)
    (pairToken : SymbolCode) (minExpected : Asset) (out : ExtendedAsset) (s' : State) : Prop :=
  ∃ text, memoexchange env s user input pairToken minExpected =
    .ok (s', [.transfer out.contract user out.quantity text])

/-- The same swap by way of the deposits: the input is deposited, exchanged, and what the other
reserve has lost is withdrawn. -/
def LedgerSwap [Doubles] (env : Env) (ctx : Ctx) (s : State) (user : Name) (input : ExtendedAsset)
    (pairToken : SymbolCode) (minExpected : Asset) (out : ExtendedAsset) (s' : State) : Prop :=
  ∃ s₁ s₂ token token' first memo,
    addSignedExtBalance s user input = .ok s₁ ∧
    exchange env ctx s₁ user pairToken input minExpected = .ok s₂ ∧
    s₁.stats.find? pairToken = some token ∧
    s₂.stats.find? pairToken = some token' ∧
    input.extendedSymbol = (token.reserve first).extendedSymbol ∧
    out.extendedSymbol = (token.reserve !first).extendedSymbol ∧
    out.quantity.amount.toInt = (token.reserve !first).quantity.amount.toInt -
      (token'.reserve !first).quantity.amount.toInt ∧
    withdraw env ctx s₂ user user out memo =
      .ok (s', [.transfer out.contract user out.quantity memo])

/-- A swap has left the deposits of the user as they were. -/
def DepositsKept (user : Name) (s s' : State) : Prop :=
  ∀ sym, depositOf s' user sym = depositOf s user sym

/-- Both paths swap in the same cases and with the same output, leave the same pool, and leave
the deposits of the user as they were. -/
structure SwapPathsAgree [Doubles] (env : Env) (ctx : Ctx) (s : State) (user : Name)
    (input : ExtendedAsset) (pairToken : SymbolCode) (minExpected : Asset) : Prop where
  ledger_of_memo : ∀ out s', MemoSwap env s user input pairToken minExpected out s' →
    0 < out.quantity.amount → DepositsKept user s s' ∧
      ∃ s'', LedgerSwap env ctx s user input pairToken minExpected out s'' ∧
        s''.stats.find? pairToken = s'.stats.find? pairToken ∧ DepositsKept user s s''
  memo_of_ledger : ∀ out s'', LedgerSwap env ctx s user input pairToken minExpected out s'' →
    0 < out.quantity.amount → ∃ s', MemoSwap env s user input pairToken minExpected out s'

variable {env : Env} {ctx : Ctx} {s s' s'' : State} {user : Name} {pairToken : SymbolCode}
variable {token : CurrencyStats} {first : Bool}
variable {input net out : ExtendedAsset} {minExpected : Asset}

theorem depositOf_credit
    {toAdd : ExtendedAsset} (sym : ExtendedSymbol) (ok : DepositsOk s.dexacnts)
    (h : addSignedExtBalance s user toAdd = .ok s') :
    depositOf s' user sym = depositOf s user sym +
      if toAdd.extendedSymbol = sym then toAdd.quantity.amount.toInt else 0 := by
  have hadd := deposited_add (fun u x => u = user ∧ x = sym) ok h
  simp only [true_and] at hadd
  exact hadd

theorem depositOf_debit
    {charge : ExtendedAsset} (sym : ExtendedSymbol) (ok : DepositsOk s.dexacnts)
    (h : addSignedExtBalance s user charge.neg = .ok s') :
    depositOf s' user sym = depositOf s user sym -
      if charge.extendedSymbol = sym then charge.quantity.amount.toInt else 0 := by
  have hrange := amountInRange_of_neg (addSignedExtBalance_eq_ok h).1.1
  rw [depositOf_credit sym ok h]
  simp only [ExtendedAsset.neg_extendedSymbol, ExtendedAsset.neg_quantity, Asset.neg_amount,
    toInt_neg_of_inRange hrange]
  split_ifs
  · ring
  · ring

/-- The swap by way of the deposits goes through only if it fits the pool, and it leaves the fee
in the deposit that has paid the input. -/
theorem LedgerSwap.refund [Doubles]
    (inv : LpLedger s) (htoken : s.stats.find? pairToken = some token)
    (hsym : input.extendedSymbol = (token.reserve first).extendedSymbol)
    (hpos : 0 < input.quantity.amount.toInt)
    (h : LedgerSwap env ctx s user input pairToken minExpected out s') :
    SwapFits token first input.quantity.amount.toInt minExpected.amount.toInt ∧
      out.quantity.amount.toInt = token.output first input.quantity.amount.toInt ∧
      depositOf s' user input.extendedSymbol = depositOf s user input.extendedSymbol +
        (input.quantity.amount.toInt - netOf input.quantity.amount.toInt) := by
  obtain ⟨s₁, s₂, token₁, token', first', memo, hdeposit, hexchange, htoken₁, htoken', hsym₁,
    houtSym, hout, hwithdraw⟩ := h
  have ok := inv.pools _ token htoken
  have inv₁ := inv.deposit hdeposit
  rw [(addSignedExtBalance_keepsShares hdeposit).stats] at htoken₁
  obtain rfl := Option.some.inj (htoken.symm.trans htoken₁)
  obtain rfl := ok.side_unique (hsym.symm.trans hsym₁)
  have htoken₁ : s₁.stats.find? pairToken = some token := by
    rw [(addSignedExtBalance_keepsShares hdeposit).stats]
    exact htoken
  obtain ⟨net, given, s₃, s₄, -, -, hswap, hpay, hget⟩ := exchange_eq_ok hexchange
  obtain ⟨fits, hnet, hgiven, hgivenSym, -⟩ := hswap.fits inv₁.pools htoken₁ hsym hpos
  have inv₃ := inv₁.swap hswap
  obtain ⟨_, swapped, side, htoken₂, update, -, rfl⟩ := hswap.update inv₁.pools
  obtain rfl := Option.some.inj (htoken₁.symm.trans htoken₂)
  obtain rfl := ok.side_unique (hsym.symm.trans update.inputSymbol)
  have inv₄ := inv₃.deposit hpay
  have inv₂ := inv₄.deposit hget
  have hrow : s₂.stats.find? pairToken = some swapped := by
    rw [(addSignedExtBalance_keepsShares hget).stats,
      (addSignedExtBalance_keepsShares hpay).stats]
    exact Table.find?_put_self _ _ _
  obtain rfl := Option.some.inj (htoken'.symm.trans hrow)
  refine ⟨fits, ?_, ?_⟩
  · rw [hout, update.outReserve, ← hgiven]
    ring
  · obtain ⟨-, -, hdraw, -⟩ := withdraw_eq_ok hwithdraw
    have hother := (ok.reserve_ne first).symm
    rw [depositOf_debit _ inv₂.deposits hdraw, depositOf_credit _ inv₄.deposits hget,
      depositOf_debit _ inv₃.deposits hpay, hsym, houtSym, hgivenSym, update.netSymbol,
      if_neg hother, if_pos rfl, if_neg hother, hnet]
    have hpaid := depositOf_credit (token.reserve first).extendedSymbol inv.deposits hdeposit
    rw [hsym, if_pos rfl] at hpaid
    unfold depositOf at *
    linarith

theorem MemoSwap.fits [Doubles]
    (inv : LpLedger s) (htoken : s.stats.find? pairToken = some token)
    (hsym : input.extendedSymbol = (token.reserve first).extendedSymbol)
    (hpos : 0 < input.quantity.amount.toInt)
    (h : MemoSwap env s user input pairToken minExpected out s') :
    SwapFits token first input.quantity.amount.toInt minExpected.amount.toInt ∧
      out.quantity.amount.toInt = token.output first input.quantity.amount.toInt := by
  obtain ⟨text, h⟩ := h
  obtain ⟨net, given, _, -, hswap, hsent⟩ := memoexchange_eq_ok h
  obtain ⟨fits, -, hgiven, -, -⟩ := hswap.fits inv.pools htoken hsym hpos
  simp only [List.cons.injEq, Inline.transfer.injEq, and_true] at hsent
  obtain ⟨-, -, hquantity, -⟩ := hsent
  rw [hquantity]
  exact ⟨fits, hgiven⟩

theorem exists_memoSwap [Doubles]
    (user : Name) (inv : LpLedger s) (valid : TokensValid s) (hopen : env.isDexOpen = true)
    (htoken : s.stats.find? pairToken = some token)
    (hsym : input.extendedSymbol = (token.reserve first).extendedSymbol)
    (hpos : 0 < input.quantity.amount.toInt)
    (hexpected : minExpected.symbol = (token.reserve !first).quantity.symbol)
    (hmin : 0 ≤ minExpected.amount)
    (fits : SwapFits token first input.quantity.amount.toInt minExpected.amount.toInt) :
    ∃ out s', MemoSwap env s user input pairToken minExpected out s' := by
  obtain ⟨net, out, s', token₀, tokenFee, htoken₀, hfee, hnet, hexch⟩ :=
    exists_swapped (inv.pools _ token htoken) (valid.reserve htoken !first) htoken hsym hexpected
      hpos fits
  refine ⟨out, s', "exchange ".toList ++ net.quantity.writeAsString ++ " to ".toList ++
    out.quantity.writeAsString, ?_⟩
  simp only [memoexchange, bind_eq_ok_iff, check_eq_ok_iff, require_eq_ok_iff, pure_eq_ok_iff]
  exact ⟨⟨⟩, hopen, ⟨⟩, hmin, token₀, htoken₀, tokenFee, hfee, net, hnet, (s', out), hexch, rfl⟩

variable {w : World}

/-- The two paths agree exactly where neither swaps anything: the swap of a deposit gives the
fee back. -/
theorem swap_paths_agree_iff [Doubles]
    (hw : Reaches env w) (hopen : env.isDexOpen = true)
    (htoken : w.state.stats.find? pairToken = some token)
    (hsym : input.extendedSymbol = (token.reserve first).extendedSymbol)
    (hpos : 0 < input.quantity.amount)
    (hexpected : minExpected.symbol = (token.reserve !first).quantity.symbol)
    (hmin : 0 ≤ minExpected.amount) :
    SwapPathsAgree env ctx w.state user input pairToken minExpected ↔
      ¬ (SwapFits token first input.quantity.amount.toInt minExpected.amount.toInt ∧
        0 < token.output first input.quantity.amount.toInt) := by
  have inv := lpLedger_of_reaches hw
  have hpos' : 0 < input.quantity.amount.toInt := by
    rw [Int64.lt_iff_toInt_lt, Int64.toInt_zero] at hpos
    exact hpos
  have hpositive : ∀ out : ExtendedAsset, 0 < out.quantity.amount ↔
      0 < out.quantity.amount.toInt := by
    intro out
    rw [Int64.lt_iff_toInt_lt, Int64.toInt_zero]
  constructor
  · rintro agree ⟨fits, hout⟩
    obtain ⟨out, s', hmemo⟩ := exists_memoSwap user inv (registered_of_reaches hw).2 hopen htoken
      hsym hpos' hexpected hmin fits
    have hsent := (hmemo.fits inv htoken hsym hpos').2
    obtain ⟨-, s'', hledger, -, hkept⟩ :=
      agree.ledger_of_memo out s' hmemo ((hpositive out).mpr (hsent ▸ hout))
    have hrefund := (hledger.refund inv htoken hsym hpos').2.2
    have hlt := netOf_lt hpos'
    have hsame := hkept input.extendedSymbol
    omega
  · intro hno
    refine ⟨?_, ?_⟩
    · intro out s' hmemo hout
      obtain ⟨fits, hsent⟩ := hmemo.fits inv htoken hsym hpos'
      rw [hpositive, hsent] at hout
      exact absurd ⟨fits, hout⟩ hno
    · intro out s'' hledger hout
      obtain ⟨fits, hsent, -⟩ := hledger.refund inv htoken hsym hpos'
      rw [hpositive, hsent] at hout
      exact absurd ⟨fits, hout⟩ hno

open Binary64

/-- No swap of one unit goes through: nothing is left of it after the fee. -/
theorem swap_paths_agree_iff_sample :
    ∃ w, Reaches sampleEnv w ∧ ∀ ctx,
      SwapPathsAgree sampleEnv ctx w.state (nameLiteral "bob") (sampleA 1)
        (sampleSymbol "AB").code (sampleB 0).quantity := by
  obtain ⟨h, w, hplay, hobs⟩ := exists_of_play
    (show (play (stepWith sampleEnv) sampleWorld samplePool).map
        (fun r => poolTokens r.2.state (sampleSymbol "AB").code) =
      some (some ((sampleA 0).extendedSymbol, (sampleB 0).extendedSymbol)) by decide +kernel)
  have hw := reaches_of_play sampleWorld_genesis hplay
  obtain ⟨token, htoken, hsides⟩ := Option.map_eq_some_iff.mp hobs
  obtain ⟨hleft, hright⟩ := Prod.mk.inj hsides
  refine ⟨w, hw, fun ctx => ?_⟩
  have hside : (sampleA 1).extendedSymbol = (token.reserve true).extendedSymbol := hleft.symm
  have hother : (sampleB 0).quantity.symbol = (token.reserve false).quantity.symbol :=
    (congrArg ExtendedSymbol.sym hright).symm
  refine (swap_paths_agree_iff hw rfl htoken hside (by decide) hother (by decide)).mpr ?_
  rintro ⟨fits, -⟩
  have hone : (sampleA 1).quantity.amount.toInt = 1 := by decide
  have hlt := netOf_lt (show 0 < (sampleA 1).quantity.amount.toInt by decide)
  have hnet := fits.net
  omega

/-- Alice swaps 10000 of AAA against BBB by way of her deposits, and has the fee left there. -/
theorem swap_paths_differ_by_refunded_fee :
    ¬ ∀ (env : Env) (ctx : Ctx) (w : World) (user : Name) (pairToken : SymbolCode)
        (token : CurrencyStats) (first : Bool) (input : ExtendedAsset) (minExpected : Asset),
      Reaches env w → env.isDexOpen = true → user ∈ ctx.auths →
      w.state.stats.find? pairToken = some token →
      input.extendedSymbol = (token.reserve first).extendedSymbol →
      0 < input.quantity.amount →
      minExpected.symbol = (token.reserve !first).quantity.symbol → 0 ≤ minExpected.amount →
      SwapPathsAgree env ctx w.state user input pairToken minExpected := by
  intro hall
  obtain ⟨h, w, hplay, hobs⟩ := exists_of_play
    (show (play (stepWith sampleEnv) sampleWorld samplePool).map
        (fun r => (poolTokens r.2.state (sampleSymbol "AB").code,
          (memoexchange sampleEnv r.2.state (nameLiteral "alice") (sampleA 10000)
            (sampleSymbol "AB").code (sampleB 1).quantity).isOk)) =
      some (some ((sampleA 0).extendedSymbol, (sampleB 0).extendedSymbol), true)
      by decide +kernel)
  have hw := reaches_of_play sampleWorld_genesis hplay
  obtain ⟨htokens, hswapped⟩ := Prod.mk.inj hobs
  obtain ⟨token, htoken, hsides⟩ := Option.map_eq_some_iff.mp htokens
  obtain ⟨hleft, hright⟩ := Prod.mk.inj hsides
  have hside : (sampleA 10000).extendedSymbol = (token.reserve true).extendedSymbol := hleft.symm
  have hother : (sampleB 1).quantity.symbol = (token.reserve false).quantity.symbol :=
    (congrArg ExtendedSymbol.sym hright).symm
  have hpos : 0 < (sampleA 10000).quantity.amount.toInt := by decide
  have inv := lpLedger_of_reaches hw
  obtain ⟨⟨s', sent⟩, hrun⟩ := succeeds_iff_isOk.mpr hswapped
  obtain ⟨_, out, text, -, -, rfl⟩ := memoexchange_eq_ok hrun
  have hmemo : MemoSwap sampleEnv w.state (nameLiteral "alice") (sampleA 10000)
      (sampleSymbol "AB").code (sampleB 1).quantity out s' := ⟨text, hrun⟩
  obtain ⟨fits, hsent⟩ := hmemo.fits inv htoken hside hpos
  have hout : 0 < out.quantity.amount := by
    have hone : (sampleB 1).quantity.amount.toInt = 1 := by decide
    have henough := fits.enough
    rw [Int64.lt_iff_toInt_lt, Int64.toInt_zero]
    omega
  obtain ⟨-, s'', hledger, -, hkept⟩ :=
    (hall sampleEnv (sampleCtx 2000 "alice") w (nameLiteral "alice") (sampleSymbol "AB").code token
      true (sampleA 10000) (sampleB 1).quantity hw rfl (List.mem_singleton.mpr rfl) htoken hside
      (by decide) hother (by decide)).ledger_of_memo out s' hmemo hout
  have hrefund := (hledger.refund inv htoken hside hpos).2.2
  have hlt := netOf_lt hpos
  have hsame := hkept (sampleA 10000).extendedSymbol
  omega

end TwoPaths

end Lemonade
