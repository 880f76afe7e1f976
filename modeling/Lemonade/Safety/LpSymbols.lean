import Lemonade.Safety.LpLedger
import Mathlib.Tactic

/-!
# The symbols of LP tokens

The symbol of an LP token, with its precision, is that of the supply of its pool.  The
rows of `userinfo` all carry it; the rows of `accounts` carry it wherever there is a row
in `userinfo`, but a row that is left over from a removed pool may not.
-/

namespace Lemonade

open Kernel

section Symbols

variable {env : Env} {ctx : Ctx} {s s' : State} {owner user : Name} {code : SymbolCode}

/-- The symbol of the LP tokens of a pool. -/
def lpSymbol (s : State) (code : SymbolCode) : Option Symbol :=
  (s.stats.find? code).map fun token => token.supply.symbol

/-- Shares are held in the symbol of their supply. -/
structure SymbolsAgree (s : State) : Prop where
  valid : ∀ code symbol, lpSymbol s code = some symbol → symbol.isValid = true
  info : ∀ code owner info, s.userinfo.find? (code, owner) = some info →
    lpSymbol s code = some info.symbol
  account : ∀ code owner info balance, s.userinfo.find? (code, owner) = some info →
    s.accounts.find? (owner, code) = some balance → balance.symbol = info.symbol

theorem SymbolsAgree.of_same
    (h : SymbolsAgree s) (haccounts : s'.accounts = s.accounts)
    (huserinfo : s'.userinfo = s.userinfo) (hsymbol : ∀ code, lpSymbol s' code = lpSymbol s code) :
    SymbolsAgree s' where
  valid := by
    intro code symbol
    rw [hsymbol]
    exact h.valid code symbol
  info := by
    intro code owner info hinfo
    rw [hsymbol]
    rw [huserinfo] at hinfo
    exact h.info code owner info hinfo
  account := by
    intro code owner info balance hinfo hbalance
    rw [huserinfo] at hinfo
    rw [haccounts] at hbalance
    exact h.account code owner info balance hinfo hbalance

theorem lpSymbol_of_stats (h : s'.stats = s.stats) (code : SymbolCode) :
    lpSymbol s' code = lpSymbol s code := by
  rw [lpSymbol, h, lpSymbol]

theorem lpSymbol_put
    {token token' : CurrencyStats} (htoken : s.stats.find? code = some token)
    (hsymbol : token'.supply.symbol = token.supply.symbol)
    (hstats : s'.stats = s.stats.put code token') (c : SymbolCode) :
    lpSymbol s' c = lpSymbol s c := by
  rw [lpSymbol, hstats, lpSymbol]
  refine Table.map_find?_put _ _ ?_ c
  rw [htoken, Option.map_some, hsymbol]

theorem SymbolsAgree.of_keepsShares (h : SymbolsAgree s) (hkeep : KeepsShares s s') :
    SymbolsAgree s' :=
  h.of_same hkeep.accounts hkeep.userinfo (lpSymbol_of_stats hkeep.stats)

/-- Both rows of an owner are written with the symbol of the pool. -/
theorem SymbolsAgree.of_put
    {balance info : Asset} (h : SymbolsAgree s)
    (haccounts : s'.accounts = s.accounts.put (owner, code) balance)
    (huserinfo : s'.userinfo = s.userinfo.put (code, owner) info) (hstats : s'.stats = s.stats)
    (hinfo : lpSymbol s code = some info.symbol) (hbalance : balance.symbol = info.symbol) :
    SymbolsAgree s' where
  valid := by
    intro c symbol
    rw [lpSymbol_of_stats hstats]
    exact h.valid c symbol
  info := by
    intro c o i hi
    rw [lpSymbol_of_stats hstats]
    rw [huserinfo, Table.find?_put] at hi
    split_ifs at hi with hkey
    · obtain ⟨rfl, rfl⟩ := Prod.mk.inj hkey
      obtain rfl := Option.some.inj hi
      exact hinfo
    · exact h.info c o i hi
  account := by
    intro c o i b hi hb
    rw [huserinfo, Table.find?_put] at hi
    rw [haccounts, Table.find?_put] at hb
    by_cases hkey : code = c ∧ owner = o
    · obtain ⟨rfl, rfl⟩ := hkey
      rw [if_pos rfl] at hi hb
      obtain rfl := Option.some.inj hi
      obtain rfl := Option.some.inj hb
      exact hbalance
    · rw [if_neg fun he => hkey (Prod.mk.inj he)] at hi
      rw [if_neg fun he => hkey (Prod.mk.inj he).symm] at hb
      exact h.account c o i b hi hb

theorem symbol_creditRow
    {row : Option Asset} {value balance : Asset} (h : creditRow row value = .ok balance) :
    balance.symbol = value.symbol := by
  cases row with
  | none =>
      obtain rfl := pure_eq_ok_iff.mp h
      rfl
  | some b =>
      obtain ⟨hsym, -, rfl⟩ := Asset.add_eq_ok_iff.mp h
      exact hsym.symm

theorem SymbolsAgree.addBalance
    {value : Asset} (h : SymbolsAgree s) (hadd : addBalance s owner value = .ok s')
    (hvalue : lpSymbol s value.symbol.code = some value.symbol) : SymbolsAgree s' := by
  obtain ⟨balance, info, hbalance, hinfo, rfl⟩ := addBalance_eq_ok hadd
  have hsym := symbol_creditRow hbalance
  have hsym' := symbol_creditRow hinfo
  refine h.of_put rfl rfl rfl ?_ (hsym.trans hsym'.symm)
  rw [hvalue, hsym']

theorem SymbolsAgree.subBalance
    {value : Asset} (h : SymbolsAgree s) (hsub : subBalance s owner value = .ok s')
    (hvalue : lpSymbol s value.symbol.code = some value.symbol) : SymbolsAgree s' := by
  obtain ⟨row, info, row', info', -, -, -, -, hrow, hinfo, rfl⟩ := subBalance_eq_ok hsub
  obtain ⟨hsym, -, rfl⟩ := Asset.sub_eq_ok_iff.mp hrow
  obtain ⟨hsym', -, rfl⟩ := Asset.sub_eq_ok_iff.mp hinfo
  refine h.of_put rfl rfl rfl ?_ ?_
  · rw [hvalue]
    exact congrArg some hsym'
  · exact hsym.symm.trans hsym'

theorem SymbolsAgree.addSignedExtBalance
    {toAdd : ExtendedAsset} (h : SymbolsAgree s)
    (hadd : addSignedExtBalance s user toAdd = .ok s') : SymbolsAgree s' :=
  h.of_keepsShares (addSignedExtBalance_keepsShares hadd)

/-- Shares are bought and sold in the symbol of the supply, which they are added to. -/
theorem SymbolsAgree.addSignedLiq
    {toAdd maxAsset1 maxAsset2 : Asset} (h : SymbolsAgree s)
    (hadd : addSignedLiq s user toAdd maxAsset1 maxAsset2 = .ok s') : SymbolsAgree s' := by
  obtain ⟨token, _, _, s₁, s₂, s₃, _, _, _, -, htoken, -, -, h1, h2, h3, hsupply, -, -, -, rfl⟩ :=
    addSignedLiq_eq_ok hadd
  obtain ⟨hsymbol, -, rfl⟩ := Asset.add_eq_ok_iff.mp hsupply
  have hpaid := (h.addSignedExtBalance h1).addSignedExtBalance h2
  have hstats : s₂.stats = s.stats :=
    (addSignedExtBalance_keepsShares h2).stats.trans (addSignedExtBalance_keepsShares h1).stats
  have hvalue : lpSymbol s₂ toAdd.symbol.code = some toAdd.symbol := by
    rw [lpSymbol_of_stats hstats, lpSymbol, htoken, hsymbol]
    rfl
  have hmoved : SymbolsAgree s₃ ∧ s₃.stats = s₂.stats := by
    unfold moveShares at h3
    split_ifs at h3
    · refine ⟨hpaid.addBalance h3 hvalue, ?_⟩
      obtain ⟨_, _, -, -, rfl⟩ := addBalance_eq_ok h3
      rfl
    · refine ⟨hpaid.subBalance h3 hvalue, ?_⟩
      obtain ⟨_, _, _, _, -, -, -, -, -, -, rfl⟩ := subBalance_eq_ok h3
      rfl
  obtain ⟨hagree, hkept⟩ := hmoved
  have hbefore : s₃.stats.find? toAdd.symbol.code = some token := by rw [hkept, hstats, htoken]
  exact hagree.of_same rfl rfl (lpSymbol_put hbefore (by rfl) rfl)

theorem SymbolsAgree.swapped [Doubles]
    {pairToken : SymbolCode} {extAssetIn net out : ExtendedAsset} {minExpected : Asset}
    (h : SymbolsAgree s) (hswap : Swapped s pairToken extAssetIn minExpected net out s') :
    SymbolsAgree s' := by
  obtain ⟨token, token', htoken, hfee, -, hswap⟩ := hswap
  obtain ⟨_, _, rfl, -⟩ := takeFee_eq_ok hfee
  obtain ⟨token₁, _, _, _, _, htoken₁, -, -, -, -, -, -, rfl, -⟩ := processExch_eq_ok hswap
  simp only [Table.find?_put_self, Option.some.injEq] at htoken₁
  subst htoken₁
  refine h.of_same rfl rfl (lpSymbol_put htoken ?_ (Table.put_put _ _ _ _))
  rfl

theorem SymbolsAgree.exchange [Doubles]
    {pairToken : SymbolCode} {extAssetIn : ExtendedAsset} {minExpected : Asset}
    (h : SymbolsAgree s)
    (hex : exchange env ctx s user pairToken extAssetIn minExpected = .ok s') :
    SymbolsAgree s' := by
  obtain ⟨_, _, _, _, -, -, hswap, hpay, hget⟩ := exchange_eq_ok hex
  exact ((h.swapped hswap).addSignedExtBalance hpay).addSignedExtBalance hget

/-- No row of `userinfo` is left of a token without a pool. -/
theorem SymbolsAgree.userinfo_eq_none
    (h : SymbolsAgree s) (hnone : s.stats.find? code = none) (owner : Name) :
    s.userinfo.find? (code, owner) = none := by
  by_contra hrow
  obtain ⟨info, hinfo⟩ := Option.ne_none_iff_exists'.mp hrow
  have hsymbol := h.info code owner info hinfo
  rw [lpSymbol, hnone] at hsymbol
  cases hsymbol

theorem SymbolsAgree.inittoken
    {newSymbol : Symbol} {initialPool1 initialPool2 : ExtendedAsset} (h : SymbolsAgree s)
    (hinit : inittoken env ctx s user newSymbol initialPool1 initialPool2 = .ok s') :
    SymbolsAgree s' := by
  have hvalid : newSymbol.isValid = true := by
    simp only [Lemonade.inittoken, bind_eq_ok_iff, Asset.make_eq_ok_iff] at hinit
    obtain ⟨_, -, _, -, _, -, _, -, _, -, _, ⟨-, hvalid, -⟩, -⟩ := hinit
    exact hvalid
  obtain ⟨newToken, s₁, _, _, _, s₂, _, -, -, -, -, -, hsymbol, -, -, -, hfee, hfresh, hshares,
    h1, h2⟩ := inittoken_eq_ok hinit
  have hpaid := h.of_keepsShares (payPoolFee_keepsShares hfee)
  have hother : ∀ c, c ≠ newSymbol.code → ∀ token,
      lpSymbol { s₁ with stats := s₁.stats.put newSymbol.code token } c = lpSymbol s₁ c := by
    intro c hc token
    rw [lpSymbol, Table.find?_put_of_ne _ _ hc.symm, lpSymbol]
  have hissued : SymbolsAgree s₂ := by
    refine SymbolsAgree.addBalance ⟨?_, ?_, ?_⟩ hshares ?_
    · intro c symbol hc
      rw [lpSymbol, Table.find?_put] at hc
      split_ifs at hc
      · rw [Option.map_some] at hc
        rw [← Option.some.inj hc, ← hvalid, ← hsymbol]
        rfl
      · exact hpaid.valid c symbol hc
    · intro c o i hi
      have hc : c ≠ newSymbol.code := by
        rintro rfl
        simp only [hpaid.userinfo_eq_none hfresh o] at hi
        cases hi
      rw [← hpaid.info c o i hi]
      exact hother c hc _
    · exact hpaid.account
    · rw [lpSymbol, hsymbol, Table.find?_put_self, Option.map_some, ← hsymbol]
      rfl
  exact (hissued.addSignedExtBalance h1).addSignedExtBalance h2

theorem SymbolsAgree.rmpool
    {symbol : Symbol} (h : SymbolsAgree s) (hrm : rmpool env ctx s user symbol = .ok s') :
    SymbolsAgree s' := by
  obtain ⟨_, _, _, _, accounts, -, -, haccounts, rfl⟩ := rmpool_eq_ok hrm
  have hkept : ∀ c o i,
      (s.userinfo.eraseWhere fun k _ => decide (k.1 = symbol.code)).find? (c, o) = some i →
      c ≠ symbol.code ∧ s.userinfo.find? (c, o) = some i := by
    intro c o i hi
    rw [find?_eraseInfos] at hi
    split_ifs at hi with hc
    exact ⟨hc, hi⟩
  refine ⟨?_, ?_, ?_⟩
  · intro c p hc
    rw [lpSymbol, Table.find?_erase] at hc
    split_ifs at hc
    · cases hc
    · exact h.valid c p hc
  · intro c o i hi
    obtain ⟨hc, hi⟩ := hkept c o i hi
    rw [← h.info c o i hi, lpSymbol, lpSymbol, Table.find?_erase_of_ne _ (Ne.symm hc)]
  · intro c o i b hi hb
    obtain ⟨hc, hi⟩ := hkept c o i hi
    refine h.account c o i b hi ?_
    rw [← hb]
    refine (find?_eraseAccounts_holders haccounts _).trans ?_ |>.symm
    exact if_neg fun hcode => hc hcode.1

/-- A row is opened in the symbol of the supply. -/
theorem SymbolsAgree.tokenOpen
    {ramPayer : Name} {symbol : Symbol} (h : SymbolsAgree s)
    (hopen : tokenOpen ctx s owner symbol ramPayer = .ok s') : SymbolsAgree s' := by
  have hsupply : lpSymbol s symbol.code = some symbol := by
    simp only [Lemonade.tokenOpen, bind_eq_ok_iff, check_eq_ok_iff, require_eq_ok_iff] at hopen
    obtain ⟨_, -, _, -, stats, hstats, _, hsymbol, -⟩ := hopen
    rw [lpSymbol, hstats, ← hsymbol]
    rfl
  rcases tokenOpen_eq_ok hopen with rfl | ⟨-, rfl⟩
  · exact h
  · refine ⟨h.valid, h.info, ?_⟩
    intro c o i b hi hb
    rw [Table.find?_put] at hb
    split_ifs at hb with hkey
    · obtain ⟨-, rfl⟩ := Prod.mk.inj hkey
      obtain rfl := Option.some.inj hb
      exact Option.some.inj (hsupply.symm.trans (h.info _ o i hi))
    · exact h.account c o i b hi hb

theorem SymbolsAgree.tokenClose
    {symbol : Symbol} (h : SymbolsAgree s) (hclose : tokenClose ctx s owner symbol = .ok s') :
    SymbolsAgree s' := by
  obtain ⟨_, -, -, -, rfl⟩ := tokenClose_eq_ok hclose
  refine ⟨h.valid, h.info, ?_⟩
  intro c o i b hi hb
  rw [Table.find?_erase] at hb
  split_ifs at hb
  exact h.account c o i b hi hb

theorem SymbolsAgree.transfer
    {source dest : Name} {quantity : Asset} {memo : Text} (h : SymbolsAgree s)
    (ht : transfer ctx s source dest quantity memo = .ok s') : SymbolsAgree s' := by
  have hquantity : lpSymbol s quantity.symbol.code = some quantity.symbol := by
    simp only [Lemonade.transfer, bind_eq_ok_iff, check_eq_ok_iff, require_eq_ok_iff] at ht
    obtain ⟨_, -, _, -, _, -, _, -, stats, hstats, _, -, _, -, _, hsymbol, -⟩ := ht
    rw [lpSymbol, hstats, hsymbol]
    rfl
  obtain ⟨_, s₁, -, -, -, -, -, hsub, hadd⟩ := transfer_eq_ok ht
  refine (h.subBalance hsub hquantity).addBalance hadd ?_
  obtain ⟨_, _, _, _, -, -, -, -, -, -, rfl⟩ := subBalance_eq_ok hsub
  exact hquantity

theorem SymbolsAgree.move [Doubles]
    {a : Action} {sent : List Inline} (h : SymbolsAgree s) (hmove : DexMove env ctx s a s' sent) :
    SymbolsAgree s' := by
  cases hmove with
  | transfer ht => exact h.transfer ht
  | tokenOpen hopen => exact h.tokenOpen hopen
  | tokenClose hclose => exact h.tokenClose hclose
  | openext hopen =>
      rcases openext_eq_ok hopen with rfl | ⟨_, -, -, rfl⟩
      · exact h
      · exact h.of_same rfl rfl (lpSymbol_of_stats rfl)
  | closeext hclose =>
      obtain ⟨_, _, -, -, rfl, -⟩ := closeext_eq_ok hclose
      exact h.of_same rfl rfl (lpSymbol_of_stats rfl)
  | withdraw hw =>
      obtain ⟨-, -, hadd, -⟩ := withdraw_eq_ok hw
      exact h.addSignedExtBalance hadd
  | addliquidity hadd => exact h.addSignedLiq (addliquidity_eq_ok hadd).2.2
  | rmliquidity hrm => exact h.addSignedLiq (rmliquidity_eq_ok hrm).2.2
  | exchange hex => exact h.exchange hex
  | exchangeall hall =>
      obtain ⟨_, _, _, -, -, hex⟩ := exchangeall_eq_ok hall
      exact h.exchange hex
  | inittoken hinit => exact h.inittoken hinit
  | rmpool hrm => exact h.rmpool hrm
  | clmpoolreward hclaim =>
      obtain ⟨_, _, _, _, _, _, -, htoken, -, -, -, rfl⟩ := clmpoolreward_eq_ok hclaim
      refine h.of_same rfl rfl (lpSymbol_put htoken ?_ rfl)
      rfl
  | deposit _ _ hadd => exact h.addSignedExtBalance hadd
  | memoexchange _ _ _ hswap =>
      obtain ⟨_, _, _, -, hswap, -⟩ := memoexchange_eq_ok hswap
      exact h.swapped hswap

theorem SymbolsAgree.exec [Doubles]
    {a : Action} {sent : List Inline} (h : SymbolsAgree s)
    (hexec : exec env ctx s a = .ok (s', sent)) : SymbolsAgree s' := by
  have hidle : KeepsDex s s' → SymbolsAgree s' :=
    fun same => h.of_same same.1 same.2.1 (lpSymbol_of_stats same.2.2.1)
  cases exec_area hexec with
  | stakes _ dex => exact hidle dex
  | games _ dex => exact hidle dex
  | dex move => exact h.move move
  | idle _ dex => exact hidle dex

theorem symbolsAgree_of_reaches [Doubles]
    {w : World} (hw : Reaches env w) : SymbolsAgree w.state := by
  refine hw.invariant (fun w => SymbolsAgree w.state) ?_ ?_
  · intro w hgenesis
    rw [hgenesis]
    refine ⟨?_, ?_, ?_⟩
    · intro c symbol hc
      cases hc
    · intro c o i hi
      cases hi
    · intro c o i b hi
      cases hi
  · intro w e w' h hstep
    exact h.exec hstep.2.1

end Symbols

end Lemonade
