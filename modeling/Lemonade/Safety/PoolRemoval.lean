import Lemonade.Safety.PoolRegistry
import Lemonade.Safety.Deposits
import Mathlib.Tactic

/-!
# The removal of a pool

`rmpool` walks `userinfo` and deletes rows of `accounts`, so it goes through and leaves
nothing behind iff the same accounts have a row of the LP token in both tables.  Balances are
always written to both; only `open` and `close` touch one of them.
-/

namespace Lemonade

open Kernel

section Rows

/-- The accounts with a row of a token in `accounts` are those with one in `userinfo`. -/
def RowsMatch (s : State) (code : SymbolCode) : Prop :=
  ∀ account,
    s.accounts.find? (account, code) ≠ none ↔ s.userinfo.find? (code, account) ≠ none

variable {s s' t : State} {code : SymbolCode}

theorem RowsMatch.of_same
    (h : RowsMatch s code) (haccounts : s'.accounts = s.accounts)
    (huserinfo : s'.userinfo = s.userinfo) : RowsMatch s' code := by
  intro account
  rw [haccounts, huserinfo]
  exact h account

/-- A balance is written to both tables. -/
theorem RowsMatch.of_put
    {owner : Name} {c : SymbolCode} {balance info : Asset} (h : RowsMatch s code)
    (haccounts : s'.accounts = s.accounts.put (owner, c) balance)
    (huserinfo : s'.userinfo = s.userinfo.put (c, owner) info) : RowsMatch s' code := by
  intro account
  rw [haccounts, huserinfo, Table.find?_put, Table.find?_put]
  by_cases hkey : owner = account ∧ c = code
  · obtain ⟨rfl, rfl⟩ := hkey
    simp
  · have haccount : (owner, c) ≠ (account, code) := fun he => hkey (Prod.mk.inj he)
    have hinfo : (c, owner) ≠ (code, account) := fun he => hkey (Prod.mk.inj he).symm
    rw [if_neg haccount, if_neg hinfo]
    exact h account

theorem RowsMatch.addBalance
    {owner : Name} {value : Asset} (h : RowsMatch s code)
    (hadd : addBalance s owner value = .ok s') : RowsMatch s' code := by
  obtain ⟨_, _, -, -, rfl⟩ := addBalance_eq_ok hadd
  exact h.of_put rfl rfl

theorem RowsMatch.subBalance
    {owner : Name} {value : Asset} (h : RowsMatch s code)
    (hsub : subBalance s owner value = .ok s') : RowsMatch s' code := by
  obtain ⟨_, _, _, _, -, -, -, -, -, -, rfl⟩ := subBalance_eq_ok hsub
  exact h.of_put rfl rfl

theorem RowsMatch.addSignedExtBalance
    {user : Name} {toAdd : ExtendedAsset} (h : RowsMatch s code)
    (hadd : addSignedExtBalance s user toAdd = .ok s') : RowsMatch s' code :=
  have hkept := addSignedExtBalance_keepsShares hadd
  h.of_same hkept.accounts hkept.userinfo

theorem RowsMatch.addSignedLiq
    {user : Name} {toAdd maxAsset1 maxAsset2 : Asset} (h : RowsMatch s code)
    (hadd : addSignedLiq s user toAdd maxAsset1 maxAsset2 = .ok s') : RowsMatch s' code := by
  obtain ⟨_, _, _, s₁, s₂, s₃, _, _, _, -, -, -, -, h1, h2, h3, -, -, -, -, rfl⟩ :=
    addSignedLiq_eq_ok hadd
  have hpaid := (h.addSignedExtBalance h1).addSignedExtBalance h2
  have hmoved : RowsMatch s₃ code := by
    unfold moveShares at h3
    split_ifs at h3
    · exact hpaid.addBalance h3
    · exact hpaid.subBalance h3
  exact hmoved.of_same rfl rfl

theorem RowsMatch.swapped [Doubles]
    {pairToken : SymbolCode} {extAssetIn net out : ExtendedAsset} {minExpected : Asset}
    (h : RowsMatch s code) (hswap : Swapped s pairToken extAssetIn minExpected net out s') :
    RowsMatch s' code := by
  obtain ⟨_, _, -, -, -, hswap⟩ := hswap
  obtain ⟨_, _, _, _, _, -, -, -, -, -, -, -, rfl, -⟩ := processExch_eq_ok hswap
  exact h.of_same rfl rfl

theorem RowsMatch.exchange [Doubles]
    {env : Env} {ctx : Ctx} {user : Name} {pairToken : SymbolCode} {extAssetIn : ExtendedAsset}
    {minExpected : Asset} (h : RowsMatch s code)
    (hex : exchange env ctx s user pairToken extAssetIn minExpected = .ok s') :
    RowsMatch s' code := by
  obtain ⟨_, _, _, _, -, -, hswap, hpay, hget⟩ := exchange_eq_ok hex
  exact ((h.swapped hswap).addSignedExtBalance hpay).addSignedExtBalance hget

theorem RowsMatch.inittoken
    {env : Env} {ctx : Ctx} {user : Name} {newSymbol : Symbol}
    {initialPool1 initialPool2 : ExtendedAsset} (h : RowsMatch s code)
    (hinit : inittoken env ctx s user newSymbol initialPool1 initialPool2 = .ok s') :
    RowsMatch s' code := by
  obtain ⟨_, s₁, _, _, _, s₂, _, -, -, -, -, -, -, -, -, -, hfee, -, hshares, h1, h2⟩ :=
    inittoken_eq_ok hinit
  have hpaid := payPoolFee_keepsShares hfee
  have hmatch : RowsMatch s₁ code := h.of_same hpaid.accounts hpaid.userinfo
  have hissued : RowsMatch s₂ code := by
    refine RowsMatch.addBalance ?_ hshares
    exact hmatch.of_same rfl rfl
  exact (hissued.addSignedExtBalance h1).addSignedExtBalance h2

end Rows

section Removal

variable {env : Env} {ctx : Ctx} {s s' : State} {user : Name} {lpSymbol : Symbol}
  {code : SymbolCode} {token : CurrencyStats}

/-- The loop of `rmpool` goes through iff every holder has a row in `accounts`. -/
theorem succeeds_eraseAccounts_iff
    {l : List (Name × Asset)} {accounts : Table (Name × SymbolCode) Asset}
    (hnodup : (l.map Prod.fst).Nodup) :
    Succeeds (eraseAccounts code l accounts) ↔
      ∀ k ∈ l, accounts.find? (k.1, code) ≠ none := by
  induction l generalizing accounts with
  | nil => simp [eraseAccounts]
  | cons e rest ih =>
      rw [List.map_cons, List.nodup_cons] at hnodup
      obtain ⟨hfresh, hrest⟩ := hnodup
      -- the rows of the later holders are still there
      have hkept : ∀ k ∈ rest,
          (accounts.erase (e.1, code)).find? (k.1, code) = accounts.find? (k.1, code) := by
        intro k hk
        refine Table.find?_erase_of_ne _ ?_
        intro he
        rw [(Prod.mk.inj he).1] at hfresh
        exact hfresh (List.mem_map_of_mem hk)
      have hlater : (∀ k ∈ rest, (accounts.erase (e.1, code)).find? (k.1, code) ≠ none) ↔
          ∀ k ∈ rest, accounts.find? (k.1, code) ≠ none := by
        refine forall₂_congr ?_
        intro k hk
        rw [hkept k hk]
      simp only [eraseAccounts, succeeds_bind_iff, require_eq_ok_iff, ih hrest, hlater,
        List.forall_mem_cons, exists_and_right]
      rw [← Option.ne_none_iff_exists']

/-- Nothing of the pool with the tokens `x` and `y` is left. -/
structure PoolGone (s : State) (code : SymbolCode) (x y : ExtendedSymbol) : Prop where
  stats : s.stats.find? code = none
  poollists : s.poollists.find? code = none
  lemindexes : s.lemindexes.find? code = none
  forward : s.swaplists.find? (x.sym.code, y.sym.code) = none
  backward : s.swaplists.find? (y.sym.code, x.sym.code) = none
  userinfo : ∀ account, s.userinfo.find? (code, account) = none
  accounts : ∀ account, s.accounts.find? (account, code) = none

/-- `rmpool` goes through and leaves nothing of the pool. -/
def RemovesPool (env : Env) (ctx : Ctx) (s : State) (user : Name) (lpSymbol : Symbol)
    (token : CurrencyStats) : Prop :=
  ∃ s', rmpool env ctx s user lpSymbol = .ok s' ∧
    PoolGone s' lpSymbol.code token.pool1.extendedSymbol token.pool2.extendedSymbol

/-- The entries of a registered pool are found, so only the loop over holders can fail. -/
theorem rmpool_eq_ok_iff
    (inv : Registered s) (hopen : env.isDexOpen = true) (hauth : user ∈ ctx.auths)
    (htoken : s.stats.find? lpSymbol.code = some token) :
    rmpool env ctx s user lpSymbol = .ok s' ↔
      ∃ accounts, eraseAccounts lpSymbol.code (holders s lpSymbol.code) s.accounts =
          .ok accounts ∧
        s' = { s with
          stats := s.stats.erase lpSymbol.code
          poollists := s.poollists.erase lpSymbol.code
          lemindexes := s.lemindexes.erase lpSymbol.code
          swaplists := (s.swaplists.erase (token.pool1.quantity.symbol.code,
            token.pool2.quantity.symbol.code)).erase
              (token.pool2.quantity.symbol.code, token.pool1.quantity.symbol.code)
          accounts := accounts
          userinfo := s.userinfo.eraseWhere fun k _ => decide (k.1 = lpSymbol.code) } := by
  have hlisted := inv.listed _ _ _ (poolTokens_of_find? htoken)
  obtain ⟨listRow, hlist, -⟩ := hlisted.poollist
  obtain ⟨indexRow, hindex, -⟩ := hlisted.index
  have hforward : s.swaplists.find? (token.pool1.quantity.symbol.code,
      token.pool2.quantity.symbol.code) = some token.pool2.quantity.symbol := hlisted.forward
  have hbackward : s.swaplists.find? (token.pool2.quantity.symbol.code,
      token.pool1.quantity.symbol.code) = some token.pool1.quantity.symbol := hlisted.backward
  constructor
  · intro h
    simp only [rmpool, bind_eq_ok_iff, require_eq_ok_iff, htoken, Option.some.injEq,
      pure_eq_ok_iff] at h
    obtain ⟨_, -, _, -, _, rfl, _, -, _, -, _, -, _, -, accounts, haccounts, rfl⟩ := h
    exact ⟨accounts, haccounts, rfl⟩
  · rintro ⟨accounts, haccounts, rfl⟩
    simp only [rmpool, bind_eq_ok_iff, check_eq_ok_iff, requireAuth_eq_ok_iff, require_eq_ok_iff,
      pure_eq_ok_iff]
    exact ⟨(), hopen, (), hauth, token, htoken, _, hlist, _, hindex, _, hforward, _, hbackward,
      accounts, haccounts, rfl⟩

/-- `rmpool` works as intended iff the two tables of rows match. -/
theorem removesPool_iff_rowsMatch
    (inv : Registered s) (hopen : env.isDexOpen = true) (hauth : user ∈ ctx.auths)
    (htoken : s.stats.find? lpSymbol.code = some token) :
    RemovesPool env ctx s user lpSymbol token ↔ RowsMatch s lpSymbol.code := by
  have hholders : Succeeds (eraseAccounts lpSymbol.code (holders s lpSymbol.code) s.accounts) ↔
      ∀ k ∈ holders s lpSymbol.code, s.accounts.find? (k.1, lpSymbol.code) ≠ none :=
    succeeds_eraseAccounts_iff (holders_nodup s lpSymbol.code)
  constructor
  · rintro ⟨s', hrm, hgone⟩ account
    obtain ⟨accounts, haccounts, rfl⟩ := (rmpool_eq_ok_iff inv hopen hauth htoken).mp hrm
    have hleft := hgone.accounts account
    simp only at hleft
    rw [find?_eraseAccounts_holders haccounts] at hleft
    constructor
    · intro hrow hinfo
      rw [if_neg fun h => h.2 hinfo] at hleft
      exact hrow hleft
    · intro hinfo
      obtain ⟨info, hinfo⟩ := Option.ne_none_iff_exists'.mp hinfo
      exact hholders.mp ⟨accounts, haccounts⟩ _ (mem_holders_iff.mpr hinfo)
  · intro hmatch
    obtain ⟨accounts, haccounts⟩ := hholders.mpr (by
      rintro ⟨account, info⟩ hinfo
      refine (hmatch account).mpr ?_
      rw [mem_holders_iff.mp hinfo]
      simp)
    refine ⟨_, (rmpool_eq_ok_iff inv hopen hauth htoken).mpr ⟨accounts, haccounts, rfl⟩, ?_⟩
    refine ⟨Table.find?_erase_self _ _, Table.find?_erase_self _ _, Table.find?_erase_self _ _,
      ?_, Table.find?_erase_self _ _, ?_, ?_⟩
    · simp only [ExtendedAsset.extendedSymbol]
      rw [Table.find?_erase, Table.find?_erase_self]
      simp
    · intro account
      exact (find?_eraseInfos s lpSymbol.code _).trans (if_pos rfl)
    · intro account
      simp only
      rw [find?_eraseAccounts_holders haccounts]
      by_cases hinfo : s.userinfo.find? (lpSymbol.code, account) = none
      · rw [if_neg fun h => h.2 hinfo]
        by_contra hrow
        exact (hmatch account).mp hrow hinfo
      · rw [if_pos ⟨rfl, hinfo⟩]

end Removal

section Runs

variable {env : Env} {ctx : Ctx} {s s' : State} {code : SymbolCode}

/-- The action does not open a row of the token for an account without one in `userinfo`, nor
close a row of an account with one. -/
def KeepsPairs (code : SymbolCode) (s : State) (a : Action) : Prop :=
  match a with
  | .tokenOpen owner symbol _ => symbol.code = code → s.userinfo.find? (code, owner) ≠ none
  | .tokenClose owner symbol => symbol.code = code → s.userinfo.find? (code, owner) = none
  | _ => True

theorem RowsMatch.rmpool
    {user : Name} {lpSymbol : Symbol} (h : RowsMatch s code)
    (hrm : rmpool env ctx s user lpSymbol = .ok s') : RowsMatch s' code := by
  obtain ⟨_, _, _, _, accounts, -, -, haccounts, rfl⟩ := rmpool_eq_ok hrm
  intro account
  simp only [find?_eraseAccounts_holders haccounts, find?_eraseInfos]
  by_cases hcode : code = lpSymbol.code
  · subst hcode
    by_cases hinfo : s.userinfo.find? (lpSymbol.code, account) = none
    · have hrow : s.accounts.find? (account, lpSymbol.code) = none := by
        by_contra hrow
        exact (h account).mp hrow hinfo
      simp [hinfo, hrow]
    · simp [hinfo]
  · simp only [hcode, false_and, if_false]
    exact h account

/-- A row is only opened where it is there already. -/
theorem RowsMatch.tokenOpen
    {owner ramPayer : Name} {symbol : Symbol} (h : RowsMatch s code)
    (hopen : tokenOpen ctx s owner symbol ramPayer = .ok s')
    (hkeeps : symbol.code = code → s.userinfo.find? (code, owner) ≠ none) :
    RowsMatch s' code := by
  rcases tokenOpen_eq_ok hopen with rfl | ⟨hnone, rfl⟩
  · exact h
  · intro account
    have hne : (owner, symbol.code) ≠ (account, code) := by
      intro he
      obtain ⟨rfl, rfl⟩ := Prod.mk.inj he
      exact (h owner).mpr (hkeeps rfl) hnone
    simp only
    rw [Table.find?_put_of_ne _ _ hne]
    exact h account

/-- A row of the token is not closed at all. -/
theorem RowsMatch.tokenClose
    {owner : Name} {symbol : Symbol} (h : RowsMatch s code)
    (hclose : tokenClose ctx s owner symbol = .ok s')
    (hkeeps : symbol.code = code → s.userinfo.find? (code, owner) = none) :
    RowsMatch s' code := by
  obtain ⟨balance, -, hrow, -, rfl⟩ := tokenClose_eq_ok hclose
  intro account
  have hne : (owner, symbol.code) ≠ (account, code) := by
    intro he
    obtain ⟨rfl, rfl⟩ := Prod.mk.inj he
    refine (h owner).mp ?_ (hkeeps rfl)
    rw [hrow]
    simp
  simp only
  rw [Table.find?_erase_of_ne _ hne]
  exact h account

theorem RowsMatch.move [Doubles]
    {a : Action} {sent : List Inline} (h : RowsMatch s code)
    (hmove : DexMove env ctx s a s' sent) (hkeeps : KeepsPairs code s a) :
    RowsMatch s' code := by
  cases hmove with
  | transfer ht =>
      obtain ⟨_, _, -, -, -, -, -, hsub, hadd⟩ := transfer_eq_ok ht
      exact (h.subBalance hsub).addBalance hadd
  | tokenOpen hopen => exact h.tokenOpen hopen hkeeps
  | tokenClose hclose => exact h.tokenClose hclose hkeeps
  | openext hopen =>
      rcases openext_eq_ok hopen with rfl | ⟨_, -, -, rfl⟩
      · exact h
      · exact h.of_same rfl rfl
  | closeext hclose =>
      obtain ⟨_, _, -, -, rfl, -⟩ := closeext_eq_ok hclose
      exact h.of_same rfl rfl
  | withdraw hw =>
      obtain ⟨-, -, hadd, -⟩ := withdraw_eq_ok hw
      exact h.addSignedExtBalance hadd
  | addliquidity hadd => exact h.addSignedLiq (addliquidity_eq_ok hadd).2.2
  | rmliquidity hrm => exact h.addSignedLiq (rmliquidity_eq_ok hrm).2.2
  | exchange hex => exact h.exchange hex
  | exchangeall hall =>
      obtain ⟨_, _, _, -, -, hex⟩ := exchangeall_eq_ok hall
      exact h.exchange hex
  | inittoken hinit => exact h.inittoken hinit
  | rmpool hrm => exact h.rmpool hrm
  | clmpoolreward hclaim =>
      obtain ⟨_, _, _, _, _, _, -, -, -, -, -, rfl⟩ := clmpoolreward_eq_ok hclaim
      exact h.of_same rfl rfl
  | deposit _ _ hadd => exact h.addSignedExtBalance hadd
  | memoexchange _ _ _ hswap =>
      obtain ⟨_, _, _, -, hswap, -⟩ := memoexchange_eq_ok hswap
      exact h.swapped hswap

theorem RowsMatch.exec [Doubles]
    {a : Action} {sent : List Inline} (h : RowsMatch s code)
    (hexec : exec env ctx s a = .ok (s', sent)) (hkeeps : KeepsPairs code s a) :
    RowsMatch s' code := by
  cases exec_area hexec with
  | stakes _ dex => exact h.of_same dex.1 dex.2.1
  | games _ dex => exact h.of_same dex.1 dex.2.1
  | dex move => exact h.move move hkeeps
  | idle _ dex => exact h.of_same dex.1 dex.2.1

variable {w w' : World} {h : List (World × Event)}

theorem rowsMatch_of_run [Doubles]
    (hw : w.Genesis) (run : Run (Step env) w h w')
    (hkeeps : ∀ p ∈ h, KeepsPairs code p.1.state p.2.action) : RowsMatch w'.state code := by
  refine run.invariant_of_forall (fun p => KeepsPairs code p.1.state p.2.action)
    (fun w => RowsMatch w.state code) ?_ hkeeps ?_
  · intro u e v hC hmatch hstep
    exact hmatch.exec hstep.2.1 hC
  · rw [hw]
    intro account
    exact Iff.rfl

/-- `rmpool` removes a pool with all its rows iff the two tables of LP rows match, and they do
as long as no row is opened or closed apart from `userinfo`. -/
theorem rmpool_removes_pool_iff [Doubles]
    (hw : w.Genesis) (run : Run (Step env) w h w') (hopen : env.isDexOpen = true)
    {user : Name} {lpSymbol : Symbol} {token : CurrencyStats} (hauth : user ∈ ctx.auths)
    (htoken : w'.state.stats.find? lpSymbol.code = some token) :
    (RemovesPool env ctx w'.state user lpSymbol token ↔ RowsMatch w'.state lpSymbol.code) ∧
    ((∀ p ∈ h, KeepsPairs lpSymbol.code p.1.state p.2.action) →
      RemovesPool env ctx w'.state user lpSymbol token) := by
  have inv := (registered_of_reaches ⟨w, h, hw, run⟩).1
  have hiff := removesPool_iff_rowsMatch inv hopen hauth htoken
  exact ⟨hiff, fun hkeeps => hiff.mpr (rowsMatch_of_run hw run hkeeps)⟩

open Binary64

/-- Alice removes her pool after a transfer to bob. -/
theorem rmpool_removes_pool_iff_sample :
    ∃ w token, Reaches sampleEnv w ∧
      w.state.stats.find? (sampleSymbol "AB").code = some token ∧
      RemovesPool sampleEnv (sampleCtx 3000 "alice") w.state (nameLiteral "alice")
        (sampleSymbol "AB") token := by
  let inputs : List (Ctx × Action) := samplePool ++
    [(sampleCtx 2000 "alice", .transfer (nameLiteral "alice") (nameLiteral "bob")
      ⟨1000, sampleSymbol "AB"⟩ [])]
  obtain ⟨h, w, hplay, hobs⟩ := exists_of_play
    (show (play (stepWith sampleEnv) sampleWorld inputs).map (fun r =>
        (r.2.state.stats.find? (sampleSymbol "AB").code).isSome) = some true by decide +kernel)
  obtain ⟨token, htoken⟩ := Option.isSome_iff_exists.mp hobs
  have hrun := run_of_play (step_of_stepWith sampleEnv) _ hplay
  refine ⟨w, token, ⟨_, h, sampleWorld_genesis, hrun⟩, htoken, ?_⟩
  refine (rmpool_removes_pool_iff sampleWorld_genesis hrun rfl (List.mem_singleton_self _)
    htoken).2 ?_
  rintro ⟨u, ctx, a, sent⟩ hp
  have hmem := input_mem_of_play hplay hp
  simp only [inputs, samplePool, samplePayment, List.cons_append, List.nil_append,
    List.mem_cons, Prod.mk.injEq, List.not_mem_nil, or_false] at hmem
  rcases hmem with ⟨-, rfl⟩ | ⟨-, rfl⟩ | ⟨-, rfl⟩ | ⟨-, rfl⟩ | ⟨-, rfl⟩
  all_goals trivial

/-- Alice gives bob all of her shares and closes her empty row, and her pool cannot be removed.
Bob opens an empty row, and it is left when alice removes her pool. -/
theorem rmpool_blocked_or_incomplete :
    (¬ ∀ (env : Env) (ctx : Ctx) (w : World) (user : Name) (lpSymbol : Symbol)
      (token : CurrencyStats), Reaches env w → env.isDexOpen = true → user ∈ ctx.auths →
      w.state.stats.find? lpSymbol.code = some token →
      Succeeds (rmpool env ctx w.state user lpSymbol)) ∧
    ¬ ∀ (env : Env) (ctx : Ctx) (w : World) (s' : State) (user : Name) (lpSymbol : Symbol)
      (token : CurrencyStats), Reaches env w → env.isDexOpen = true → user ∈ ctx.auths →
      w.state.stats.find? lpSymbol.code = some token →
      rmpool env ctx w.state user lpSymbol = .ok s' →
      PoolGone s' lpSymbol.code token.pool1.extendedSymbol token.pool2.extendedSymbol := by
  have hauth : nameLiteral "alice" ∈ (sampleCtx 3000 "alice").auths := List.mem_singleton_self _
  constructor
  · intro hall
    let inputs : List (Ctx × Action) := samplePool ++
      [(sampleCtx 2000 "alice", .transfer (nameLiteral "alice") (nameLiteral "bob")
        ⟨1000000, sampleSymbol "AB"⟩ []),
       (sampleCtx 2000 "alice", .tokenClose (nameLiteral "alice") (sampleSymbol "AB"))]
    obtain ⟨h, w, hplay, hobs⟩ := exists_of_play
      (show (play (stepWith sampleEnv) sampleWorld inputs).map (fun r =>
          ((r.2.state.stats.find? (sampleSymbol "AB").code).isSome,
            (rmpool sampleEnv (sampleCtx 3000 "alice") r.2.state (nameLiteral "alice")
              (sampleSymbol "AB")).isOk)) = some (true, false) by decide +kernel)
    obtain ⟨hstats, hfails⟩ := Prod.mk.inj hobs
    obtain ⟨token, htoken⟩ := Option.isSome_iff_exists.mp hstats
    have hw := reaches_of_play sampleWorld_genesis hplay
    have hok := succeeds_iff_isOk.mp (hall sampleEnv _ w _ _ token hw rfl hauth htoken)
    rw [hfails] at hok
    exact Bool.false_ne_true hok
  · intro hall
    let inputs : List (Ctx × Action) := samplePool ++
      [(sampleCtx 2000 "bob", .tokenOpen (nameLiteral "bob") (sampleSymbol "AB")
        (nameLiteral "bob"))]
    obtain ⟨h, w, hplay, hobs⟩ := exists_of_play
      (show (play (stepWith sampleEnv) sampleWorld inputs).map (fun r =>
          ((r.2.state.stats.find? (sampleSymbol "AB").code).isSome,
            (rmpool sampleEnv (sampleCtx 3000 "alice") r.2.state (nameLiteral "alice")
              (sampleSymbol "AB")).toOption.map fun s' =>
                (s'.accounts.find? (nameLiteral "bob", (sampleSymbol "AB").code)).isSome)) =
        some (true, some true) by decide +kernel)
    obtain ⟨hstats, hleft⟩ := Prod.mk.inj hobs
    obtain ⟨token, htoken⟩ := Option.isSome_iff_exists.mp hstats
    have hw := reaches_of_play sampleWorld_genesis hplay
    cases hrm : rmpool sampleEnv (sampleCtx 3000 "alice") w.state (nameLiteral "alice")
        (sampleSymbol "AB") with
    | error e =>
        rw [hrm] at hleft
        cases hleft
    | ok s' =>
        have hgone := hall sampleEnv _ w s' _ _ token hw rfl hauth htoken hrm
        rw [hrm] at hleft
        have hrow : (s'.accounts.find? (nameLiteral "bob",
            (sampleSymbol "AB").code)).isSome = true := Option.some.inj hleft
        rw [hgone.accounts] at hrow
        cases hrow

end Runs

end Lemonade
