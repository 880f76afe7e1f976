import Lemonade.Safety.Issuance
import Mathlib.Tactic

/-!
# The cap of LEM

The era counter and the fill time of `issue_lem` are kept in order by every step, and no
round of its loop subtracts below zero.  With the supply that led.token reports, the
amount cut off at `LEM_MAX` keeps the supply below the cap.
-/

namespace Lemonade

open Kernel

section Rounds

variable {bound : ℕ → ℕ} {start : ℕ} {config : Config} {time now : UInt32}

/-- The difference in 32 bits is the one over the integers. -/
def SubExact (a b : UInt32) : Prop := ((a - b).toNat : ℤ) = a.toNat - b.toNat

theorem subExact_iff_le {a b : UInt32} : SubExact a b ↔ b ≤ a := by
  have ha := a.toNat_lt
  have hb := b.toNat_lt
  unfold SubExact
  rw [UInt32.toNat_sub, UInt32.le_iff_toNat_le]
  omega

/-- The rounds of the loop of `issue_lem`. -/
def rounds (halfLifeCount : ℕ) : List (Fin 3) :=
  (List.finRange 3).filter fun i => halfLifeCount ≤ i.val

/-- The variables before the first round. -/
def Config.fill (config : Config) : Fill :=
  ⟨0, config.lastLemBucketFill, config.halfLifeCount⟩

/-- No round of the loop subtracts below zero. -/
def RoundsExact (h : Fin 4 → UInt32) (current : UInt32) : List (Fin 3) → Fill → Prop
  | [], _ => True
  | i :: rest, f =>
      (h i.castSucc ≤ current ∧ current < h i.succ → SubExact current f.lastIssued) ∧
        (h i.succ ≤ current → SubExact (h i.succ) f.lastIssued) ∧
        RoundsExact h current rest (fillStep h current f i)

theorem rounds_of_lt {m : ℕ} (h : m < 3) : rounds m = ⟨m, h⟩ :: rounds (m + 1) := by
  have hcases : m = 0 ∨ m = 1 ∨ m = 2 := by omega
  rcases hcases with rfl | rfl | rfl <;> rfl

/-- From a scan that has come to era `m` on, no round subtracts below zero. -/
theorem Fill.Counts.roundsExact
    {H : Fin 4 → UInt32} {k a : ℕ} (hH : ∀ i, (H i).toNat = bound i) (hmono : Monotone bound)
    (hera : InEra bound 3 k a) (hat : a ≤ now.toNat) (n : ℕ) :
    ∀ m fl f, m + n = 3 → k ≤ m → Fill.Counts fl f →
      Scanned bound (2 ^ ·) k a now.toNat m f → RoundsExact H now (rounds m) fl := by
  induction n with
  | zero =>
      intro m fl f hm _ _ _
      obtain rfl : m = 3 := by omega
      exact trivial
  | succ n ih =>
      intro m fl f hm hkm hcounts hscan
      have hlt : m < 3 := by omega
      let i : Fin 3 := ⟨m, hlt⟩
      have hstart : (H i.castSucc).toNat = bound m := hH i.castSucc
      have hstop : (H i.succ).toNat = bound (m + 1) := hH i.succ
      have hlast := hscan.last_le hmono hera hat hkm hlt
      rw [rounds_of_lt hlt]
      refine ⟨?_, ?_, ?_⟩
      · rintro ⟨hin, -⟩
        rw [UInt32.le_iff_toNat_le, hstart] at hin
        rw [subExact_iff_le, UInt32.le_iff_toNat_le, hcounts.last]
        exact hlast.1 hin
      · intro hpast
        rw [UInt32.le_iff_toNat_le, hstop] at hpast
        rw [subExact_iff_le, UInt32.le_iff_toNat_le, hcounts.last, hstop]
        exact hlast.2 hpast
      · exact ih (m + 1) _ _ (by omega) (by omega)
          (hcounts.step hH hmono hera hat i hkm hscan) (hscan.step hmono hera hat hkm hlt)

/-- On schedule, no call of `issue_lem` subtracts below zero. -/
theorem OnSchedule.roundsExact
    (h : OnSchedule start config time) (hnow : time ≤ now) :
    RoundsExact config.lastHalfLifeUpdated now (rounds config.halfLifeCount) config.fill := by
  have hlater := h.later hnow
  have hle := hlater.era.le
  have hat := UInt32.le_iff_toNat_le.mp hlater.fill_le
  exact Fill.Counts.roundsExact hlater.halvings (halvingTime_monotone start) hlater.era hat
    (3 - config.halfLifeCount) config.halfLifeCount config.fill
    ⟨0, config.lastLemBucketFill.toNat, config.halfLifeCount⟩ (by omega) (le_refl _)
    ⟨rfl, rfl, rfl⟩ (scanned_start hlater.era hat)

end Rounds

section Calls

variable {env : Env} {ctx : Ctx} {s s' : State} {sent : List Inline}
variable {start : ℕ} {config config' : Config} {time time' : UInt32} {w w' : World} {e : Event}

/-- What is issued fits under the cap. -/
theorem newToken_le_room
    {secs : UInt32} {token : Asset} {stat : LedTokenStat} (hstat : ctx.lemStat = some stat)
    (hcap : stat.supply.amount.toInt ≤ lemMax.toInt) (h : newToken env ctx secs = .ok token) :
    stat.supply.amount.toInt + token.amount.toInt ≤ lemMax.toInt ∧ token.symbol = lemSymbol := by
  obtain ⟨stat', hstat', hsymbol, hamount⟩ := newToken_eq_ok h
  obtain rfl := Option.some.inj (hstat.symm.trans hstat')
  have hscaled := toInt_scaledFill secs
  have hsupply := stat.supply.amount.le_toInt
  have hmax : lemMax.toInt = 2207520000000 := rfl
  have hsum := toInt_scaledFill_add hcap secs
  refine ⟨?_, hsymbol⟩
  rw [hamount]
  split_ifs with hover
  · rw [Int64.lt_iff_toInt_lt, hsum] at hover
    rw [Int64.toInt_sub, Int.bmod_def]
    split_ifs <;> omega
  · rw [Int64.not_lt, Int64.le_iff_toInt_le, hsum] at hover
    omega

/-- After a call of `issue_lem` the supply is at most the cap if it was before. -/
theorem issueLem_le_cap [Doubles]
    {seen : ℤ} (hseen : ∀ stat, ctx.lemStat = some stat → stat.supply.amount.toInt = seen)
    (hcap : seen ≤ lemMax.toInt) (h : issueLem env ctx s = .ok (s', sent)) :
    seen + lemIssued sent ≤ lemMax.toInt := by
  obtain ⟨_, -, ⟨-, -, rfl⟩ | ⟨token, -, htoken, ⟨-, -, rfl⟩ | ⟨-, hsent, -⟩⟩⟩ :=
    issueLem_eq_ok h
  · rw [lemIssued_of_onlyTransfers onlyTransfers_nil, add_zero]
    exact hcap
  · rw [lemIssued_of_onlyTransfers onlyTransfers_nil, add_zero]
    exact hcap
  · obtain ⟨stat, hstat, -, -⟩ := newToken_eq_ok htoken
    have hsupply := hseen stat hstat
    rw [← hsupply] at hcap ⊢
    obtain ⟨hle, hsymbol⟩ := newToken_le_room hstat hcap htoken
    rw [lemIssued_of_distribute hsymbol hsent]
    exact hle

theorem exec_le_cap [Doubles]
    {a : Action} {seen : ℤ}
    (hseen : ∀ stat, ctx.lemStat = some stat → stat.supply.amount.toInt = seen)
    (hcap : seen ≤ lemMax.toInt) (h : exec env ctx s a = .ok (s', sent)) :
    seen + lemIssued sent ≤ lemMax.toInt := by
  have hidle : OnlyTransfers sent → seen + lemIssued sent ≤ lemMax.toInt := by
    intro honly
    rw [lemIssued_of_onlyTransfers honly, add_zero]
    exact hcap
  cases exec_issueStep h with
  | call _ hissue _ only sent_eq =>
      rw [sent_eq, lemIssued_append, lemIssued_of_onlyTransfers only, add_zero]
      exact issueLem_le_cap hseen hcap hissue
  | init _ only _ _ => exact hidle only
  | price _ only _ _ => exact hidle only
  | keep _ only _ => exact hidle only

/-- The era of a later point is not an earlier one. -/
theorem OnSchedule.era_le
    (h : OnSchedule start config time) (h' : OnSchedule start config' time')
    (hle : config.lastLemBucketFill ≤ config'.lastLemBucketFill) :
    config.halfLifeCount ≤ config'.halfLifeCount := by
  have hfill := UInt32.le_iff_toNat_le.mp hle
  have hstart := h.era.start
  have hk := h.era.le
  by_contra hlt
  have hstop := h'.era.stop (by omega)
  have hbound := halvingTime_monotone start
    (show config'.halfLifeCount + 1 ≤ config.halfLifeCount by omega)
  omega

theorem fill_le_of_exec [Doubles]
    {a : Action} (hconfig : s.config = some config) (hfill : config.lastLemBucketFill ≤ ctx.now)
    (h : exec env ctx s a = .ok (s', sent)) :
    ∃ config', s'.config = some config' ∧
      config.lastLemBucketFill ≤ config'.lastLemBucketFill := by
  cases exec_issueStep h with
  | call _ hissue config_eq _ _ =>
      rw [config_eq]
      obtain ⟨config₁, hconfig₁, hcase⟩ := issueLem_eq_ok hissue
      obtain rfl := Option.some.inj (hconfig.symm.trans hconfig₁)
      rcases hcase with ⟨-, rfl, -⟩ | ⟨_, -, -, ⟨-, rfl, -⟩ | ⟨-, -, rfl⟩⟩
      · exact ⟨config, hconfig, UInt32.le_refl _⟩
      · exact ⟨config, hconfig, UInt32.le_refl _⟩
      · exact ⟨_, rfl, hfill⟩
  | init _ _ _ config_eq =>
      rw [hconfig] at config_eq
      exact ⟨config, config_eq, UInt32.le_refl _⟩
  | price _ _ before after =>
      obtain rfl := Option.some.inj (hconfig.symm.trans before)
      exact ⟨_, after, UInt32.le_refl _⟩
  | keep _ _ config_eq => exact ⟨config, config_eq.trans hconfig, UInt32.le_refl _⟩

/-- A contract that can come about has no row in `configs`, or is on schedule. -/
theorem initialised_of_reaches [Doubles]
    (hw : Reaches env w) (hconfig : w.state.config = some config) :
    ∃ start, Initialised start w ∧ OnSchedule start config w.time := by
  have hinv : w.state.config = none ∨ ∃ start, Initialised start w := by
    refine hw.invariant (fun w => w.state.config = none ∨ ∃ start, Initialised start w) ?_ ?_
    · intro w hgenesis
      rw [hgenesis]
      exact Or.inl rfl
    · rintro w e w' (hnone | ⟨start, inv⟩) hstep
      · have hexec := hstep.2.1
        cases exec_issueStep hexec with
        | call _ hissue _ _ _ =>
            obtain ⟨_, hsome, -⟩ := issueLem_eq_ok hissue
            cases hnone.symm.trans hsome
        | init _ _ action _ => exact Or.inr ⟨_, initialised_of_init hnone action hstep⟩
        | price _ _ before _ => cases hnone.symm.trans before
        | keep _ _ config_eq => exact Or.inl (config_eq.trans hnone)
      · exact Or.inr ⟨start, (inv.step hstep).1⟩
  rcases hinv with hnone | ⟨start, inv⟩
  · cases hnone.symm.trans hconfig
  · obtain ⟨config₁, hconfig₁, hsched⟩ := id inv
    obtain rfl := Option.some.inj (hconfig.symm.trans hconfig₁)
    exact ⟨start, inv, hsched⟩

end Calls

section Supply

variable {env : Env}

/-- The contract together with the LEM in circulation. -/
structure Chain where
  world : World
  supply : ℤ

/-- A step reads the supply off led.token, which adds what the step issues.  Between two
steps LEM may be burnt but not issued. -/
def ChainStep [Doubles] (env : Env) (c : Chain) (e : Event) (c' : Chain) : Prop :=
  Step env c.world e c'.world ∧ ∃ seen ≤ c.supply,
    (∀ stat, e.ctx.lemStat = some stat → stat.supply.amount.toInt = seen) ∧
    c'.supply = seen + lemIssued e.sent

/-- The contract before its first action, with a supply of at most `LEM_MAX`. -/
def Chain.Genesis (c : Chain) : Prop := c.world.Genesis ∧ c.supply ≤ lemMax.toInt

/-- The era counter and the fill time agree with the halving times and the clock. -/
structure Bookkept (config : Config) (time : UInt32) : Prop where
  era : ∃ k : Fin 4, config.halfLifeCount = k.val ∧
    config.lastHalfLifeUpdated k ≤ config.lastLemBucketFill
  next : ∀ k : Fin 3, config.halfLifeCount = k.val →
    config.lastLemBucketFill < config.lastHalfLifeUpdated k.succ
  fill_le : config.lastLemBucketFill ≤ time

theorem OnSchedule.bookkept
    {start : ℕ} {config : Config} {time : UInt32} (h : OnSchedule start config time) :
    Bookkept config time where
  era := by
    have hle := h.era.le
    refine ⟨⟨config.halfLifeCount, by omega⟩, rfl, ?_⟩
    rw [UInt32.le_iff_toNat_le, h.halvings]
    exact h.era.start
  next := by
    intro k hk
    have hstop := h.era.stop (by omega)
    rw [UInt32.lt_iff_toNat_lt, h.halvings, Fin.val_succ, ← hk]
    exact hstop
  fill_le := h.fill_le

theorem Chain.run_world [Doubles]
    {c c' : Chain} {h : List (Chain × Event)} (hrun : Run (ChainStep env) c h c') :
    ∃ h', Run (Step env) c.world h' c'.world := by
  induction hrun with
  | nil => exact ⟨[], .nil⟩
  | snoc _ last ih =>
      obtain ⟨h', hrun'⟩ := ih
      exact ⟨_, hrun'.snoc last.1⟩

theorem Chain.reaches_world [Doubles]
    {c : Chain} (hc : Reachable (ChainStep env) Chain.Genesis c) : Reaches env c.world := by
  obtain ⟨c₀, h, hgenesis, hrun⟩ := hc
  obtain ⟨h', hrun'⟩ := Chain.run_world hrun
  exact ⟨c₀.world, h', hgenesis.1, hrun'⟩

theorem Chain.supply_le [Doubles]
    {c : Chain} (hc : Reachable (ChainStep env) Chain.Genesis c) : c.supply ≤ lemMax.toInt := by
  refine hc.invariant (fun c => c.supply ≤ lemMax.toInt) (fun _ hgenesis => hgenesis.2) ?_
  rintro c e c' hcap ⟨⟨-, hexec, -⟩, seen, hle, hseen, hsupply⟩
  rw [hsupply]
  exact exec_le_cap hseen (hle.trans hcap) hexec

/-- Neither the era nor the fill time goes back in a run. -/
theorem bookkeeping_le_of_run [Doubles]
    {w w' : World} {h : History} {config : Config} (hw : Reaches env w)
    (hconfig : w.state.config = some config) (hrun : Run (Step env) w h w') :
    ∃ config', w'.state.config = some config' ∧
      config.halfLifeCount ≤ config'.halfLifeCount ∧
      config.lastLemBucketFill ≤ config'.lastLemBucketFill := by
  obtain ⟨start, inv, hsched⟩ := initialised_of_reaches hw hconfig
  suffices hkey : Initialised start w' ∧ ∃ config', w'.state.config = some config' ∧
      config.lastLemBucketFill ≤ config'.lastLemBucketFill by
    obtain ⟨⟨config₁, hconfig₁, hsched'⟩, config', hconfig', hfill⟩ := hkey
    obtain rfl := Option.some.inj (hconfig'.symm.trans hconfig₁)
    exact ⟨config', hconfig', hsched.era_le hsched' hfill, hfill⟩
  refine hrun.invariant (fun w' => Initialised start w' ∧ ∃ config',
    w'.state.config = some config' ∧ config.lastLemBucketFill ≤ config'.lastLemBucketFill)
    ?_ ⟨inv, config, hconfig, UInt32.le_refl _⟩
  rintro t e t' ⟨inv, config₁, hconfig₁, hle⟩ hstep
  refine ⟨(inv.step hstep).1, ?_⟩
  obtain ⟨config₂, hconfig₂, hsched₂⟩ := inv
  obtain rfl := Option.some.inj (hconfig₁.symm.trans hconfig₂)
  obtain ⟨hnow, hexec, -⟩ := hstep
  obtain ⟨config', hconfig', hle'⟩ := fill_le_of_exec hconfig₁ (hsched₂.later hnow).fill_le hexec
  exact ⟨config', hconfig', UInt32.le_trans hle hle'⟩

/-- The supply stays below the cap.  The era counter and the fill time agree with the
halving times, never go back, and no call at any later time subtracts below zero. -/
theorem issuance_bookkept_below_cap [Doubles]
    {c : Chain} (hc : Reachable (ChainStep env) Chain.Genesis c) :
    c.supply ≤ lemMax.toInt ∧
      ∀ config, c.world.state.config = some config →
        Bookkept config c.world.time ∧
        (∀ now, c.world.time ≤ now → RoundsExact config.lastHalfLifeUpdated now
          (rounds config.halfLifeCount) config.fill) ∧
        ∀ h c', Run (ChainStep env) c h c' → ∃ config', c'.world.state.config = some config' ∧
          config.halfLifeCount ≤ config'.halfLifeCount ∧
          config.lastLemBucketFill ≤ config'.lastLemBucketFill := by
  have hw := Chain.reaches_world hc
  refine ⟨Chain.supply_le hc, ?_⟩
  intro config hconfig
  obtain ⟨start, -, hsched⟩ := initialised_of_reaches hw hconfig
  refine ⟨hsched.bookkept, fun now hnow => hsched.roundsExact hnow, ?_⟩
  intro h c' hrun
  obtain ⟨h', hrun'⟩ := Chain.run_world hrun
  exact bookkeeping_le_of_run hw hconfig hrun'

open Binary64

/-- After `init` at second 1000 and a call at second 1100 the supply is 200 LEM. -/
theorem issuance_bookkept_below_cap_sample :
    ∃ c : Chain, Reachable (ChainStep sampleEnv) Chain.Genesis c ∧ c.supply = 2000000 ∧
      c.supply ≤ lemMax.toInt := by
  let call : Ctx × Action := (sampleCtx 1100 "lemonade.c", .issuelem)
  obtain ⟨⟨e₀, v⟩, hinit, hobs⟩ := Option.bind_eq_some_iff.mp
    (show ((stepWith sampleEnv sampleWorld (sampleCtx 1000 "lemonade.c", .init)).bind fun x =>
        (stepWith sampleEnv x.2 call).map fun y => [lemIssued x.1.sent, lemIssued y.1.sent]) =
      some [0, 2000000] by decide +kernel)
  obtain ⟨⟨e, w⟩, hcall, hissued⟩ := Option.map_eq_some_iff.mp hobs
  simp only [List.cons.injEq, and_true] at hissued
  obtain ⟨hnone, hissued⟩ := hissued
  have hseen : ∀ {x : World} {i : Ctx × Action} {y : Event × World} {now : ℕ} {account : String},
      i.1 = sampleCtx now account → stepWith sampleEnv x i = some y →
      ∀ stat, y.1.ctx.lemStat = some stat → stat.supply.amount.toInt = 0 := by
    intro x i y now account hi hstep stat hstat
    have hctx : y.1.ctx = i.1 := congrArg Prod.fst (input_of_stepWith _ _ _ y.1 y.2 hstep)
    rw [hctx, hi] at hstat
    obtain rfl := Option.some.inj hstat
    rfl
  have hfirst : ChainStep sampleEnv ⟨sampleWorld, 0⟩ e₀ ⟨v, 0⟩ :=
    ⟨step_of_stepWith _ _ _ _ _ hinit, 0, le_refl _, hseen rfl hinit, by rw [hnone]; rfl⟩
  have hsecond : ChainStep sampleEnv ⟨v, 0⟩ e ⟨w, 2000000⟩ :=
    ⟨step_of_stepWith _ _ _ _ _ hcall, 0, le_refl _, hseen rfl hcall, by rw [hissued]; rfl⟩
  have hc : Reachable (ChainStep sampleEnv) Chain.Genesis ⟨w, 2000000⟩ := by
    refine Reachable.succ (Reachable.succ (Reachable.of_init ?_) hfirst) hsecond
    exact ⟨sampleWorld_genesis, by decide⟩
  exact ⟨_, hc, rfl, (issuance_bookkept_below_cap hc).1⟩

end Supply

end Lemonade
