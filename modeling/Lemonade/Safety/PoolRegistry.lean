import Lemonade.Contract.Frames
import Mathlib.Tactic

/-!
# The registries of pools

A pool is listed in four tables besides its own row.  `Registered` says that the tables
agree and that no two pools trade the same pair of token codes.  Only `inittoken` and
`rmpool` touch what it is about; the rows are written together and removed together.
-/

namespace Lemonade

open Kernel

section Registry

/-- The tokens of a pool. -/
def CurrencyStats.tokens (token : CurrencyStats) : ExtendedSymbol × ExtendedSymbol :=
  (token.pool1.extendedSymbol, token.pool2.extendedSymbol)

/-- The tokens of the pool with an LP code. -/
def poolTokens (s : State) (code : SymbolCode) : Option (ExtendedSymbol × ExtendedSymbol) :=
  (s.stats.find? code).map CurrencyStats.tokens

/-- The index of a pair of tokens. -/
def pairKey (x y : ExtendedSymbol) : Checksum256 :=
  make256key x.contract.value x.sym.raw y.contract.value y.sym.raw

/-- The entries of a pool with the tokens `x` and `y`. -/
structure Listed (s : State) (code : SymbolCode) (x y : ExtendedSymbol) : Prop where
  poollist : ∃ row, s.poollists.find? code = some row ∧ row.lpSymbol.code = code ∧
    row.symbol1 = x ∧ row.symbol2 = y
  index : ∃ row, s.lemindexes.find? code = some row ∧ row.lpSymbol.code = code ∧
    row.id256 = pairKey x y
  forward : s.swaplists.find? (x.sym.code, y.sym.code) = some y.sym
  backward : s.swaplists.find? (y.sym.code, x.sym.code) = some x.sym

/-- The pool trades the two token codes, in one order or the other. -/
def Trades (s : State) (code : SymbolCode) (a b : SymbolCode) : Prop :=
  ∃ x y, poolTokens s code = some (x, y) ∧
    ((a, b) = (x.sym.code, y.sym.code) ∨ (a, b) = (y.sym.code, x.sym.code))

/-- The registries agree. -/
structure Registered (s : State) : Prop where
  listed : ∀ code x y, poolTokens s code = some (x, y) → Listed s code x y
  poollists : ∀ code, s.poollists.find? code ≠ none → poolTokens s code ≠ none
  lemindexes : ∀ code, s.lemindexes.find? code ≠ none → poolTokens s code ≠ none
  swaplists : ∀ a b, s.swaplists.find? (a, b) ≠ none → ∃ code, Trades s code a b
  unique : ∀ a b code code', Trades s code a b → Trades s code' a b → code = code'

variable {s s' t : State} {code : SymbolCode} {x y : ExtendedSymbol}

theorem poolTokens_of_find?
    {token : CurrencyStats} (h : s.stats.find? code = some token) :
    poolTokens s code = some token.tokens := by
  rw [poolTokens, h]
  rfl

theorem Listed.find?_of_trades
    (h : Listed s code x y) {a b : SymbolCode}
    (hab : (a, b) = (x.sym.code, y.sym.code) ∨ (a, b) = (y.sym.code, x.sym.code)) :
    s.swaplists.find? (a, b) ≠ none := by
  rcases hab with hab | hab
  · rw [hab, h.forward]
    simp
  · rw [hab, h.backward]
    simp

/-- All that the registries are about is the same. -/
structure SameRegistry (s s' : State) : Prop where
  pools : ∀ code, poolTokens s' code = poolTokens s code
  poollists : s'.poollists = s.poollists
  lemindexes : s'.lemindexes = s.lemindexes
  swaplists : s'.swaplists = s.swaplists

theorem SameRegistry.refl (s : State) : SameRegistry s s := ⟨fun _ => rfl, rfl, rfl, rfl⟩

theorem SameRegistry.trans (h : SameRegistry s t) (h' : SameRegistry t s') :
    SameRegistry s s' where
  pools := fun code => (h'.pools code).trans (h.pools code)
  poollists := h'.poollists.trans h.poollists
  lemindexes := h'.lemindexes.trans h.lemindexes
  swaplists := h'.swaplists.trans h.swaplists

theorem SameRegistry.of_stats
    (hstats : s'.stats = s.stats) (hpoollists : s'.poollists = s.poollists)
    (hlemindexes : s'.lemindexes = s.lemindexes) (hswaplists : s'.swaplists = s.swaplists) :
    SameRegistry s s' := by
  refine ⟨?_, hpoollists, hlemindexes, hswaplists⟩
  intro code
  rw [poolTokens, poolTokens, hstats]

/-- The row of a pool is rewritten with the same tokens. -/
theorem SameRegistry.of_put
    {token token' : CurrencyStats} (htoken : s.stats.find? code = some token)
    (htokens : token'.tokens = token.tokens) (hstats : s'.stats = s.stats.put code token')
    (hpoollists : s'.poollists = s.poollists) (hlemindexes : s'.lemindexes = s.lemindexes)
    (hswaplists : s'.swaplists = s.swaplists) : SameRegistry s s' := by
  refine ⟨?_, hpoollists, hlemindexes, hswaplists⟩
  intro c
  rw [poolTokens, poolTokens, hstats, Table.find?_put]
  split_ifs with hc
  · rw [← hc, htoken]
    exact congrArg some htokens
  · rfl

theorem Registered.of_same (inv : Registered s) (h : SameRegistry s s') : Registered s' := by
  have htrades : ∀ c a b, Trades s' c a b ↔ Trades s c a b := by
    intro c a b
    unfold Trades
    rw [h.pools]
  refine ⟨?_, ?_, ?_, ?_, ?_⟩
  · intro c x y htokens
    rw [h.pools] at htokens
    obtain ⟨hlist, hindex, hforward, hbackward⟩ := inv.listed c x y htokens
    refine ⟨?_, ?_, ?_, ?_⟩
    · rw [h.poollists]
      exact hlist
    · rw [h.lemindexes]
      exact hindex
    · rw [h.swaplists]
      exact hforward
    · rw [h.swaplists]
      exact hbackward
  · intro c hc
    rw [h.poollists] at hc
    rw [h.pools]
    exact inv.poollists c hc
  · intro c hc
    rw [h.lemindexes] at hc
    rw [h.pools]
    exact inv.lemindexes c hc
  · intro a b hab
    rw [h.swaplists] at hab
    obtain ⟨c, hc⟩ := inv.swaplists a b hab
    exact ⟨c, (htrades c a b).mpr hc⟩
  · intro a b c c' hc hc'
    exact inv.unique a b c c' ((htrades c a b).mp hc) ((htrades c' a b).mp hc')

end Registry

section Writes

variable {s s' : State} {code : SymbolCode} {x y : ExtendedSymbol}

/-- A new pool is entered in all tables. -/
structure Enters (s : State) (code : SymbolCode) (x y : ExtendedSymbol) (s' : State) :
    Prop where
  fresh : poolTokens s code = none
  codes_ne : x.sym.code ≠ y.sym.code
  forward_none : s.swaplists.find? (x.sym.code, y.sym.code) = none
  backward_none : s.swaplists.find? (y.sym.code, x.sym.code) = none
  pools : ∀ c, poolTokens s' c = if code = c then some (x, y) else poolTokens s c
  poollists : ∃ row, s'.poollists = s.poollists.put code row ∧ row.lpSymbol.code = code ∧
    row.symbol1 = x ∧ row.symbol2 = y
  lemindexes : ∃ row, s'.lemindexes = s.lemindexes.put code row ∧ row.lpSymbol.code = code ∧
    row.id256 = pairKey x y
  swaplists : s'.swaplists = (s.swaplists.put (x.sym.code, y.sym.code) y.sym).put
    (y.sym.code, x.sym.code) x.sym

/-- The entries of a new pool. -/
theorem Enters.listed (h : Enters s code x y s') : Listed s' code x y := by
  obtain ⟨listRow, hlist, hlistRow⟩ := h.poollists
  obtain ⟨indexRow, hindex, hindexRow⟩ := h.lemindexes
  refine ⟨⟨listRow, ?_, hlistRow⟩, ⟨indexRow, ?_, hindexRow⟩, ?_, ?_⟩
  · rw [hlist, Table.find?_put_self]
  · rw [hindex, Table.find?_put_self]
  · have hne : (y.sym.code, x.sym.code) ≠ (x.sym.code, y.sym.code) := by
      intro he
      exact h.codes_ne (Prod.mk.inj he).2
    rw [h.swaplists, Table.find?_put_of_ne _ _ hne, Table.find?_put_self]
  · rw [h.swaplists, Table.find?_put_self]

/-- An entry of `swaplists` after a new pool. -/
theorem Enters.find?_swaplists
    (h : Enters s code x y s') {a b : SymbolCode} (hforward : (x.sym.code, y.sym.code) ≠ (a, b))
    (hbackward : (y.sym.code, x.sym.code) ≠ (a, b)) :
    s'.swaplists.find? (a, b) = s.swaplists.find? (a, b) := by
  rw [h.swaplists, Table.find?_put_of_ne _ _ hbackward, Table.find?_put_of_ne _ _ hforward]

/-- An old pool trades another pair than the new one. -/
theorem Enters.ne_of_listed
    (h : Enters s code x y s') {c : SymbolCode} {p q : ExtendedSymbol} (hold : Listed s c p q)
    {a b : SymbolCode}
    (hab : (a, b) = (p.sym.code, q.sym.code) ∨ (a, b) = (q.sym.code, p.sym.code)) :
    (x.sym.code, y.sym.code) ≠ (a, b) ∧ (y.sym.code, x.sym.code) ≠ (a, b) := by
  have hfound := hold.find?_of_trades hab
  constructor
  · intro he
    rw [← he, h.forward_none] at hfound
    exact hfound rfl
  · intro he
    rw [← he, h.backward_none] at hfound
    exact hfound rfl

theorem Enters.trades_iff
    (h : Enters s code x y s') (c a b : SymbolCode) :
    Trades s' c a b ↔ c = code ∧ ((a, b) = (x.sym.code, y.sym.code) ∨
      (a, b) = (y.sym.code, x.sym.code)) ∨ c ≠ code ∧ Trades s c a b := by
  by_cases hc : code = c
  · subst hc
    simp [Trades, h.pools]
  · have hc' : c ≠ code := fun he => hc he.symm
    simp [Trades, h.pools, hc, hc']

/-- The other pools stay listed. -/
theorem Enters.keeps_listed
    (h : Enters s code x y s') {c : SymbolCode} {p q : ExtendedSymbol} (hc : code ≠ c)
    (hlisted : Listed s c p q) : Listed s' c p q := by
  obtain ⟨hne, hne'⟩ := h.ne_of_listed hlisted (Or.inl rfl)
  obtain ⟨hne₂, hne₂'⟩ := h.ne_of_listed hlisted (Or.inr rfl)
  obtain ⟨_, hlist, -⟩ := h.poollists
  obtain ⟨_, hindex, -⟩ := h.lemindexes
  refine ⟨?_, ?_, ?_, ?_⟩
  · rw [hlist, Table.find?_put_of_ne _ _ hc]
    exact hlisted.poollist
  · rw [hindex, Table.find?_put_of_ne _ _ hc]
    exact hlisted.index
  · rw [h.find?_swaplists hne hne']
    exact hlisted.forward
  · rw [h.find?_swaplists hne₂ hne₂']
    exact hlisted.backward

/-- An old pool does not trade the pair of the new one. -/
theorem Enters.not_trades_new
    (h : Enters s code x y s') (inv : Registered s) {c a b : SymbolCode} (hold : Trades s c a b) :
    ¬ ((a, b) = (x.sym.code, y.sym.code) ∨ (a, b) = (y.sym.code, x.sym.code)) := by
  obtain ⟨p, q, htokens, hab⟩ := hold
  obtain ⟨hne, hne'⟩ := h.ne_of_listed (inv.listed c p q htokens) hab
  rintro (hpair | hpair)
  · exact hne hpair.symm
  · exact hne' hpair.symm

theorem Registered.enter (inv : Registered s) (h : Enters s code x y s') : Registered s' := by
  have hold : ∀ c, code ≠ c → poolTokens s' c = poolTokens s c := by
    intro c hc
    rw [h.pools, if_neg hc]
  have hnew : poolTokens s' code ≠ none := by
    rw [h.pools, if_pos rfl]
    simp
  refine ⟨?_, ?_, ?_, ?_, ?_⟩
  · intro c p q htokens
    by_cases hc : code = c
    · subst hc
      rw [h.pools, if_pos rfl] at htokens
      obtain ⟨rfl, rfl⟩ := Prod.mk.inj (Option.some.inj htokens)
      exact h.listed
    · rw [hold c hc] at htokens
      exact h.keeps_listed hc (inv.listed c p q htokens)
  · intro c hfound
    by_cases hc : code = c
    · rw [← hc]
      exact hnew
    · obtain ⟨_, hlist, -⟩ := h.poollists
      rw [hlist, Table.find?_put_of_ne _ _ hc] at hfound
      rw [hold c hc]
      exact inv.poollists c hfound
  · intro c hfound
    by_cases hc : code = c
    · rw [← hc]
      exact hnew
    · obtain ⟨_, hindex, -⟩ := h.lemindexes
      rw [hindex, Table.find?_put_of_ne _ _ hc] at hfound
      rw [hold c hc]
      exact inv.lemindexes c hfound
  · intro a b hfound
    by_cases hab : (a, b) = (x.sym.code, y.sym.code) ∨ (a, b) = (y.sym.code, x.sym.code)
    · exact ⟨code, (h.trades_iff code a b).mpr (Or.inl ⟨rfl, hab⟩)⟩
    · rw [not_or] at hab
      rw [h.find?_swaplists (Ne.symm hab.1) (Ne.symm hab.2)] at hfound
      obtain ⟨c, htrades⟩ := inv.swaplists a b hfound
      refine ⟨c, (h.trades_iff c a b).mpr (Or.inr ⟨?_, htrades⟩)⟩
      rintro rfl
      obtain ⟨p, q, htokens, -⟩ := htrades
      rw [h.fresh] at htokens
      cases htokens
  · intro a b c c' hc hc'
    rcases (h.trades_iff c a b).mp hc with ⟨hnew₁, hpair⟩ | ⟨-, hold₁⟩
    · rcases (h.trades_iff c' a b).mp hc' with ⟨hnew₂, -⟩ | ⟨-, hold₂⟩
      · exact hnew₁.trans hnew₂.symm
      · exact absurd hpair (h.not_trades_new inv hold₂)
    · rcases (h.trades_iff c' a b).mp hc' with ⟨-, hpair⟩ | ⟨-, hold₂⟩
      · exact absurd hpair (h.not_trades_new inv hold₁)
      · exact inv.unique a b c c' hold₁ hold₂

/-- A pool is removed from all tables. -/
structure Leaves (s : State) (code : SymbolCode) (x y : ExtendedSymbol) (s' : State) :
    Prop where
  found : poolTokens s code = some (x, y)
  pools : ∀ c, poolTokens s' c = if code = c then none else poolTokens s c
  poollists : s'.poollists = s.poollists.erase code
  lemindexes : s'.lemindexes = s.lemindexes.erase code
  swaplists : s'.swaplists =
    (s.swaplists.erase (x.sym.code, y.sym.code)).erase (y.sym.code, x.sym.code)

theorem Leaves.find?_swaplists
    (h : Leaves s code x y s') (a b : SymbolCode) :
    s'.swaplists.find? (a, b) =
      if (a, b) = (x.sym.code, y.sym.code) ∨ (a, b) = (y.sym.code, x.sym.code) then none
      else s.swaplists.find? (a, b) := by
  rw [h.swaplists, Table.find?_erase, Table.find?_erase]
  by_cases hforward : (a, b) = (x.sym.code, y.sym.code)
  · rw [if_pos (Or.inl hforward), hforward]
    simp
  · by_cases hbackward : (a, b) = (y.sym.code, x.sym.code)
    · rw [if_pos (Or.inr hbackward), if_pos hbackward.symm]
    · rw [if_neg (Ne.symm hbackward), if_neg (Ne.symm hforward),
        if_neg (not_or.mpr ⟨hforward, hbackward⟩)]

theorem Leaves.trades_iff
    (h : Leaves s code x y s') (c a b : SymbolCode) :
    Trades s' c a b ↔ c ≠ code ∧ Trades s c a b := by
  by_cases hc : code = c
  · subst hc
    simp [Trades, h.pools]
  · have hc' : c ≠ code := fun he => hc he.symm
    simp [Trades, h.pools, hc, hc']

theorem Registered.leave (inv : Registered s) (h : Leaves s code x y s') : Registered s' := by
  have hold : ∀ c, code ≠ c → poolTokens s' c = poolTokens s c := by
    intro c hc
    rw [h.pools, if_neg hc]
  have hgone : poolTokens s' code = none := by
    rw [h.pools, if_pos rfl]
  refine ⟨?_, ?_, ?_, ?_, ?_⟩
  · intro c p q htokens
    by_cases hc : code = c
    · rw [← hc, hgone] at htokens
      cases htokens
    · rw [hold c hc] at htokens
      have hlisted := inv.listed c p q htokens
      -- the entries of another pool stay, since no two pools trade one pair
      have hkept : ∀ a b, (a, b) = (p.sym.code, q.sym.code) ∨ (a, b) = (q.sym.code, p.sym.code) →
          s'.swaplists.find? (a, b) = s.swaplists.find? (a, b) := by
        intro a b hab
        rw [h.find?_swaplists, if_neg]
        intro hpair
        exact hc (inv.unique a b code c ⟨x, y, h.found, hpair⟩ ⟨p, q, htokens, hab⟩)
      refine ⟨?_, ?_, ?_, ?_⟩
      · rw [h.poollists, Table.find?_erase_of_ne _ hc]
        exact hlisted.poollist
      · rw [h.lemindexes, Table.find?_erase_of_ne _ hc]
        exact hlisted.index
      · rw [hkept _ _ (Or.inl rfl)]
        exact hlisted.forward
      · rw [hkept _ _ (Or.inr rfl)]
        exact hlisted.backward
  · intro c hfound
    rw [h.poollists, Table.find?_erase] at hfound
    split_ifs at hfound with hc
    · exact absurd rfl hfound
    · rw [hold c hc]
      exact inv.poollists c hfound
  · intro c hfound
    rw [h.lemindexes, Table.find?_erase] at hfound
    split_ifs at hfound with hc
    · exact absurd rfl hfound
    · rw [hold c hc]
      exact inv.lemindexes c hfound
  · intro a b hfound
    rw [h.find?_swaplists] at hfound
    split_ifs at hfound with hpair
    · exact absurd rfl hfound
    · obtain ⟨c, htrades⟩ := inv.swaplists a b hfound
      refine ⟨c, (h.trades_iff c a b).mpr ⟨?_, htrades⟩⟩
      rintro rfl
      obtain ⟨p, q, htokens, hab⟩ := htrades
      rw [h.found] at htokens
      obtain ⟨rfl, rfl⟩ := Prod.mk.inj (Option.some.inj htokens)
      exact hpair hab
  · intro a b c c' hc hc'
    exact inv.unique a b c c' ((h.trades_iff c a b).mp hc).2 ((h.trades_iff c' a b).mp hc').2

end Writes

section Frames

variable {env : Env} {ctx : Ctx} {s s' : State} {a : Action} {sent : List Inline}

theorem addSignedExtBalance_sameRegistry
    {user : Name} {toAdd : ExtendedAsset} (h : addSignedExtBalance s user toAdd = .ok s') :
    SameRegistry s s' := by
  obtain ⟨-, ⟨_, -, -, -, rfl⟩ | ⟨_, _, _, -, -, -, rfl⟩⟩ := addSignedExtBalance_eq_ok h
  · exact .of_stats rfl rfl rfl rfl
  · exact .of_stats rfl rfl rfl rfl

theorem addBalance_sameRegistry
    {owner : Name} {value : Asset} (h : addBalance s owner value = .ok s') :
    SameRegistry s s' := by
  obtain ⟨_, _, -, -, rfl⟩ := addBalance_eq_ok h
  exact .of_stats rfl rfl rfl rfl

theorem subBalance_sameRegistry
    {owner : Name} {value : Asset} (h : subBalance s owner value = .ok s') :
    SameRegistry s s' := by
  obtain ⟨_, _, _, _, -, -, -, -, -, -, rfl⟩ := subBalance_eq_ok h
  exact .of_stats rfl rfl rfl rfl

theorem addSignedLiq_sameRegistry
    {user : Name} {toAdd maxAsset1 maxAsset2 : Asset}
    (h : addSignedLiq s user toAdd maxAsset1 maxAsset2 = .ok s') : SameRegistry s s' := by
  obtain ⟨token, _, _, s₁, s₂, s₃, _, _, _, -, htoken, -, -, h1, h2, h3, -, hpool1, hpool2, -,
    rfl⟩ := addSignedLiq_eq_ok h
  obtain ⟨-, -, rfl⟩ := ExtendedAsset.add_eq_ok_iff.mp hpool1
  obtain ⟨-, -, rfl⟩ := ExtendedAsset.add_eq_ok_iff.mp hpool2
  have hpaid := (addSignedExtBalance_sameRegistry h1).trans (addSignedExtBalance_sameRegistry h2)
  have hmoved : SameRegistry s₂ s₃ := by
    unfold moveShares at h3
    split_ifs at h3
    · exact addBalance_sameRegistry h3
    · exact subBalance_sameRegistry h3
  have hsame := hpaid.trans hmoved
  refine hsame.trans ⟨?_, rfl, rfl, rfl⟩
  intro c
  rw [hsame.pools, poolTokens, poolTokens, Table.find?_put]
  split_ifs with hc
  · rw [← hc, htoken]
    rfl
  · have hc' := hsame.pools c
    rw [poolTokens, poolTokens] at hc'
    exact hc'

theorem Swapped.sameRegistry [Doubles]
    {pairToken : SymbolCode} {extAssetIn net out : ExtendedAsset} {minExpected : Asset}
    (h : Swapped s pairToken extAssetIn minExpected net out s') : SameRegistry s s' := by
  obtain ⟨token, token', htoken, hfee, -, hswap⟩ := h
  obtain ⟨_, _, rfl, -⟩ := takeFee_eq_ok hfee
  obtain ⟨token₁, _, _, pool1, pool2, htoken₁, -, -, -, -, hpool1, hpool2, rfl, -⟩ :=
    processExch_eq_ok hswap
  simp only [Table.find?_put_self, Option.some.injEq] at htoken₁
  subst htoken₁
  obtain ⟨-, -, rfl⟩ := ExtendedAsset.add_eq_ok_iff.mp hpool1
  obtain ⟨-, -, rfl⟩ := ExtendedAsset.add_eq_ok_iff.mp hpool2
  refine .of_put htoken ?_ (Table.put_put _ _ _ _) rfl rfl rfl
  rfl

theorem exchange_sameRegistry [Doubles]
    {user : Name} {pairToken : SymbolCode} {extAssetIn : ExtendedAsset} {minExpected : Asset}
    (h : exchange env ctx s user pairToken extAssetIn minExpected = .ok s') :
    SameRegistry s s' := by
  obtain ⟨_, _, _, _, -, -, hswap, hpay, hget⟩ := exchange_eq_ok h
  have hpaid := hswap.sameRegistry.trans (addSignedExtBalance_sameRegistry hpay)
  exact hpaid.trans (addSignedExtBalance_sameRegistry hget)

theorem stake_sameRegistry [Doubles]
    {owner : Name} {quantity : Asset} {productName : Name} {pricePrediction : Option Name}
    (h : stake env ctx s owner quantity productName pricePrediction = .ok (s', sent)) :
    SameRegistry s s' := by
  obtain ⟨_, _, _, _, -, -, -, -, -, -, hcase⟩ := stake_eq_ok h
  rcases hcase with ⟨-, -, hnew⟩ | ⟨_, _, -, hmore⟩
  · obtain ⟨_, _, _, _, -, -, -, -, rfl⟩ := stakeNew_eq_ok hnew
    exact .of_stats rfl rfl rfl rfl
  · obtain ⟨_, _, _, -, -, rfl⟩ := stakeMore_tables hmore
    exact .of_stats rfl rfl rfl rfl

theorem StakeMove.sameRegistry [Doubles]
    (h : StakeMove env ctx s a s' sent) : SameRegistry s s' := by
  cases h with
  | addproduct h =>
      obtain ⟨_, _, -, -, -, -, -, -, -, -, rfl⟩ := addproduct_eq_ok h
      exact .of_stats rfl rfl rfl rfl
  | rmproduct h =>
      obtain ⟨_, _, -, -, -, rfl⟩ := rmproduct_eq_ok h
      exact .of_stats rfl rfl rfl rfl
  | stake _ _ _ h => exact stake_sameRegistry h
  | unstake h =>
      obtain ⟨_, _, _, _, _, _, -, -, -, -, rfl⟩ := unstake_tables h
      exact .of_stats rfl rfl rfl rfl
  | claimled h =>
      obtain ⟨_, _, _, _, _, -, -, -, -, ⟨-, rfl, -⟩ | ⟨_, -, -, rfl, -⟩⟩ := claimled_eq_ok h
      · exact .of_stats rfl rfl rfl rfl
      · exact .of_stats rfl rfl rfl rfl
  | claimlem h =>
      obtain ⟨_, _, _, _, _, _, _, _, -, -, -, -, -, -, -, ⟨-, rfl, -⟩ | ⟨_, -, -, rfl, -⟩⟩ :=
        claimlem_eq_ok h
      · exact .of_stats rfl rfl rfl rfl
      · exact .of_stats rfl rfl rfl rfl
  | changeyield h =>
      obtain ⟨_, _, _, _, -, -, -, -, rfl⟩ := changeyield_eq_ok h
      exact .of_stats rfl rfl rfl rfl

theorem GameMove.sameRegistry [Doubles] (h : GameMove env ctx s a s' sent) : SameRegistry s s' := by
  cases h with
  | createbet h =>
      obtain ⟨_, _, -, -, -, -, -, rfl⟩ := createbet_eq_ok h
      exact .of_stats rfl rfl rfl rfl
  | setbet h =>
      obtain ⟨_, -, ⟨rfl, -⟩ | ⟨_, _, _, -, -, -, -, rfl, -⟩ | ⟨_, -, -, -, rfl, -⟩⟩ :=
        setbet_eq_ok h
      · exact .refl _
      · exact .of_stats rfl rfl rfl rfl
      · exact .of_stats rfl rfl rfl rfl
  | rmbet h =>
      obtain ⟨_, -, -, rfl⟩ := rmbet_eq_ok h
      exact .of_stats rfl rfl rfl rfl
  | claimbet h =>
      obtain ⟨_, -, -, -, rfl⟩ := claimbet_eq_ok h
      exact .of_stats rfl rfl rfl rfl
  | bet _ _ _ h =>
      obtain ⟨_, _, _, -, -, -, -, -, -, rfl⟩ := bet_eq_ok h
      exact .of_stats rfl rfl rfl rfl

theorem clmpoolreward_sameRegistry [Doubles]
    {pairTokenSymbol : Text} {total pool : ℚ}
    (h : clmpoolreward env ctx s pairTokenSymbol total pool = .ok (s', sent)) :
    SameRegistry s s' := by
  obtain ⟨_, _, _, _, _, _, -, htoken, -, -, -, rfl⟩ := clmpoolreward_eq_ok h
  refine .of_put htoken ?_ rfl rfl rfl rfl
  rfl

end Frames

section Steps

variable {env : Env} {ctx : Ctx} {s s' : State} {a : Action} {sent : List Inline}

theorem payPoolFee_sameRegistry
    {user : Name} (h : payPoolFee s user = .ok s') : SameRegistry s s' := by
  unfold payPoolFee at h
  split_ifs at h
  · exact addSignedExtBalance_sameRegistry h
  · cases h
    exact .refl s

theorem placeindex_writes
    {lpSymbol : Symbol} {pool1 pool2 : ExtendedAsset}
    (h : placeindex s lpSymbol pool1 pool2 = .ok s') :
    (∀ code row, s.lemindexes.find? code = some row →
      row.id256 ≠ pairKey pool1.extendedSymbol pool2.extendedSymbol) ∧
    s' = { s with
      lemindexes := s.lemindexes.put lpSymbol.code
        { lpSymbol := lpSymbol
          id256 := pairKey pool1.extendedSymbol pool2.extendedSymbol } } := by
  simp only [placeindex, bind_eq_ok_iff, check_eq_ok_iff, emplace_eq_ok_iff,
    pure_eq_ok_iff] at h
  obtain ⟨_, hnone, _, ⟨-, rfl⟩, rfl⟩ := h
  refine ⟨?_, rfl⟩
  intro code row hrow hkey
  have hmiss := Table.findBy_eq_none_iff.mp hnone code row hrow
  rw [decide_eq_false_iff_not] at hmiss
  exact hmiss hkey

/-- `inittoken` enters a pool, between payments that leave the registries alone. -/
theorem inittoken_enters
    {user : Name} {newSymbol : Symbol} {initialPool1 initialPool2 : ExtendedAsset}
    (h : inittoken env ctx s user newSymbol initialPool1 initialPool2 = .ok s') :
    ∃ s₁ s₂, SameRegistry s s₁ ∧
      Enters s₁ newSymbol.code initialPool1.extendedSymbol initialPool2.extendedSymbol s₂ ∧
      SameRegistry s₂ s' ∧
      initialPool1.quantity.symbol.isValid = true ∧
      initialPool2.quantity.symbol.isValid = true := by
  simp only [inittoken, registerPool, bind_eq_ok_iff, check_eq_ok_iff] at h
  obtain ⟨_, -, _, -, _, -, _, -, _, -, newToken, -, _, -, s₁, hfee, _, hfresh, s₂,
    ⟨_, hforward, _, hbackward, _, -, hindex⟩, s₃, hshares, s₄, hpay1, hpay2⟩ := h
  obtain ⟨-, rfl⟩ := placeindex_writes hindex
  have hpays := (addSignedExtBalance_sameRegistry hpay1).trans
    (addSignedExtBalance_sameRegistry hpay2)
  refine ⟨s₁, _, payPoolFee_sameRegistry hfee, ?_, (addBalance_sameRegistry hshares).trans hpays,
    (addSignedExtBalance_eq_ok hpay1).1.2, (addSignedExtBalance_eq_ok hpay2).1.2⟩
  rw [Table.find?_put] at hbackward
  split_ifs at hbackward with hcodes
  have hne : initialPool1.quantity.symbol.code ≠ initialPool2.quantity.symbol.code :=
    fun he => hcodes (by rw [he])
  refine ⟨?_, hne, hforward, hbackward, ?_, ⟨_, rfl, rfl, rfl, rfl⟩, ⟨_, rfl, rfl, rfl⟩, rfl⟩
  · rw [poolTokens, hfresh]
    rfl
  · intro c
    rw [poolTokens, Table.find?_put]
    split_ifs
    · rfl
    · rfl

theorem rmpool_leaves
    {user : Name} {lpSymbol : Symbol} (h : rmpool env ctx s user lpSymbol = .ok s') :
    ∃ x y, Leaves s lpSymbol.code x y s' := by
  simp only [rmpool, bind_eq_ok_iff, requireAuth_eq_ok_iff, check_eq_ok_iff,
    require_eq_ok_iff, pure_eq_ok_iff] at h
  obtain ⟨_, -, _, -, token, htoken, _, -, _, -, _, -, _, -, accounts, -, rfl⟩ := h
  refine ⟨token.pool1.extendedSymbol, token.pool2.extendedSymbol, poolTokens_of_find? htoken,
    ?_, rfl, rfl, rfl⟩
  intro c
  rw [poolTokens, poolTokens, Table.find?_erase]
  split_ifs
  · rfl
  · rfl

/-- A pool is indexed when it is created, so `indexpair` always fails. -/
theorem Registered.not_indexpair
    (inv : Registered s) (lpSymbol : Symbol) : indexpair env s lpSymbol ≠ .ok s' := by
  intro h
  simp only [indexpair, bind_eq_ok_iff, require_eq_ok_iff] at h
  obtain ⟨_, -, token, htoken, hindex⟩ := h
  obtain ⟨hmiss, -⟩ := placeindex_writes hindex
  obtain ⟨row, hrow, -, hkey⟩ := (inv.listed _ _ _ (poolTokens_of_find? htoken)).index
  exact hmiss _ row hrow hkey

/-- What a step does to the registries: nothing, or it enters a pool of valid tokens, or it
removes a pool. -/
inductive RegistryStep (s s' : State) : Prop
  | same (h : SameRegistry s s')
  | enter {s₁ s₂ : State} {code : SymbolCode} {x y : ExtendedSymbol}
      (before : SameRegistry s s₁) (h : Enters s₁ code x y s₂) (after : SameRegistry s₂ s')
      (left : x.sym.isValid = true) (right : y.sym.isValid = true)
  | leave {code : SymbolCode} {x y : ExtendedSymbol} (h : Leaves s code x y s')

theorem DexMove.registryStep [Doubles] (h : DexMove env ctx s a s' sent) : RegistryStep s s' := by
  cases h with
  | transfer h =>
      obtain ⟨_, _, -, -, -, -, -, hsub, hadd⟩ := transfer_eq_ok h
      exact .same ((subBalance_sameRegistry hsub).trans (addBalance_sameRegistry hadd))
  | tokenOpen h =>
      rcases tokenOpen_eq_ok h with rfl | ⟨-, rfl⟩
      · exact .same (.refl s')
      · exact .same (.of_stats rfl rfl rfl rfl)
  | tokenClose h =>
      obtain ⟨_, -, -, -, rfl⟩ := tokenClose_eq_ok h
      exact .same (.of_stats rfl rfl rfl rfl)
  | openext h =>
      rcases openext_eq_ok h with rfl | ⟨_, -, -, rfl⟩
      · exact .same (.refl s')
      · exact .same (.of_stats rfl rfl rfl rfl)
  | closeext h =>
      obtain ⟨_, _, -, -, rfl, -⟩ := closeext_eq_ok h
      exact .same (.of_stats rfl rfl rfl rfl)
  | withdraw h =>
      obtain ⟨-, -, hadd, -⟩ := withdraw_eq_ok h
      exact .same (addSignedExtBalance_sameRegistry hadd)
  | addliquidity h => exact .same (addSignedLiq_sameRegistry (addliquidity_eq_ok h).2.2)
  | rmliquidity h => exact .same (addSignedLiq_sameRegistry (rmliquidity_eq_ok h).2.2)
  | exchange h => exact .same (exchange_sameRegistry h)
  | exchangeall h =>
      obtain ⟨_, _, _, -, -, hall⟩ := exchangeall_eq_ok h
      exact .same (exchange_sameRegistry hall)
  | inittoken h =>
      obtain ⟨_, _, hbefore, henters, hafter, hleft, hright⟩ := inittoken_enters h
      exact .enter hbefore henters hafter hleft hright
  | rmpool h =>
      obtain ⟨_, _, hleaves⟩ := rmpool_leaves h
      exact .leave hleaves
  | clmpoolreward h => exact .same (clmpoolreward_sameRegistry h)
  | deposit _ _ h => exact .same (addSignedExtBalance_sameRegistry h)
  | memoexchange _ _ _ h =>
      obtain ⟨_, _, _, -, hswap, -⟩ := memoexchange_eq_ok h
      exact .same hswap.sameRegistry

theorem Registered.adminMove [Doubles]
    (inv : Registered s) (h : AdminMove env ctx s a s' sent) : SameRegistry s s' := by
  cases h with
  | init h =>
      obtain ⟨_, rfl⟩ := init_eq_ok h
      exact .of_stats rfl rfl rfl rfl
  | issuelem h =>
      simp only [Lemonade.issuelem, bind_eq_ok_iff] at h
      obtain ⟨_, -, hissue⟩ := h
      obtain ⟨_, _, -, rfl, -, -⟩ := issueLem_frame hissue
      exact .of_stats rfl rfl rfl rfl
  | setbtcprice h =>
      obtain ⟨_, -, rfl⟩ := setbtcprice_eq_ok h
      exact .of_stats rfl rfl rfl rfl
  | setledprice h =>
      obtain ⟨_, rfl⟩ := setledprice_eq_ok h
      exact .of_stats rfl rfl rfl rfl
  | freeze h =>
      obtain ⟨_, rfl⟩ := freeze_eq_ok h
      exact .of_stats rfl rfl rfl rfl
  | unfreeze h =>
      obtain ⟨_, rfl⟩ := unfreeze_eq_ok h
      exact .of_stats rfl rfl rfl rfl
  | indexpair h => exact absurd h (inv.not_indexpair _)
  | notify => exact .refl _

theorem Registered.registryStep [Doubles]
    (inv : Registered s) (h : exec env ctx s a = .ok (s', sent)) : RegistryStep s s' := by
  cases exec_area h with
  | stakes move => exact .same move.sameRegistry
  | games move => exact .same move.sameRegistry
  | dex move => exact move.registryStep
  | idle _ _ admin => exact .same (inv.adminMove admin)

theorem Registered.step (inv : Registered s) (h : RegistryStep s s') : Registered s' := by
  cases h with
  | same h => exact inv.of_same h
  | enter before h after => exact ((inv.of_same before).enter h).of_same after
  | leave h => exact inv.leave h

/-- The tokens of pools have valid symbols. -/
def TokensValid (s : State) : Prop :=
  ∀ code x y, poolTokens s code = some (x, y) → x.sym.isValid = true ∧ y.sym.isValid = true

theorem TokensValid.step (valid : TokensValid s) (h : RegistryStep s s') : TokensValid s' := by
  intro c p q hc
  cases h with
  | same h =>
      rw [h.pools] at hc
      exact valid c p q hc
  | enter before h after left right =>
      rw [after.pools, h.pools] at hc
      split_ifs at hc
      · obtain ⟨rfl, rfl⟩ := Prod.mk.inj (Option.some.inj hc)
        exact ⟨left, right⟩
      · rw [before.pools] at hc
        exact valid c p q hc
  | leave h =>
      rw [h.pools] at hc
      split_ifs at hc
      exact valid c p q hc

theorem registered_empty : Registered State.empty := by
  refine ⟨?_, ?_, ?_, ?_, ?_⟩
  · intro code x y h
    cases h
  · intro code h
    exact absurd rfl h
  · intro code h
    exact absurd rfl h
  · intro a b h
    exact absurd rfl h
  · rintro a b code code' ⟨_, _, h, -⟩
    cases h

theorem registered_of_reaches [Doubles]
    {w : World} (hw : Reaches env w) : Registered w.state ∧ TokensValid w.state := by
  refine hw.invariant (fun w => Registered w.state ∧ TokensValid w.state) ?_ ?_
  · intro w hgenesis
    rw [hgenesis]
    refine ⟨registered_empty, ?_⟩
    intro code x y h
    cases h
  · rintro w e w' ⟨inv, valid⟩ ⟨-, hexec, -⟩
    have hstep := inv.registryStep hexec
    exact ⟨inv.step hstep, valid.step hstep⟩

/-- In every reachable state the registries of pools agree, and no pool can be indexed a
second time. -/
theorem pool_registries_agree [Doubles]
    {w : World} (hw : Reaches env w) :
    Registered w.state ∧ ∀ lpSymbol s', indexpair env w.state lpSymbol ≠ .ok s' := by
  have inv := (registered_of_reaches hw).1
  exact ⟨inv, fun lpSymbol _ => inv.not_indexpair lpSymbol⟩

open Binary64

/-- Alice's pool is registered under its two token codes, and indexed once. -/
theorem pool_registries_agree_sample :
    ∃ w, Reaches sampleEnv w ∧ Registered w.state ∧
      Trades w.state (sampleSymbol "AB").code (sampleSymbol "BBB").code
        (sampleSymbol "AAA").code := by
  obtain ⟨h, w, hplay, hobs⟩ := exists_of_play
    (show (play (stepWith sampleEnv) sampleWorld samplePool).map (fun r =>
        poolTokens r.2.state (sampleSymbol "AB").code) =
      some (some ((sampleA 0).extendedSymbol, (sampleB 0).extendedSymbol)) by decide +kernel)
  have hw := reaches_of_play sampleWorld_genesis hplay
  exact ⟨w, hw, (pool_registries_agree hw).1, _, _, hobs, Or.inr rfl⟩

end Steps

end Lemonade
