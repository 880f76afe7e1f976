import Lemonade.Safety.IssuanceCap
import Lemonade.Safety.StakingPeriod
import Mathlib.Tactic

/-!
# Time in 32 bits

Seconds are counted in 32 bits.  The end of a term can wrap for long durations.  A row
without a term has zero for its end, and the loop that weighs reward time takes that zero for
the end of the rewards.  With terms that fit (`TermFits`) no expression on times wraps, in any
state and at any later time.
-/

namespace Lemonade

open Kernel

section Rounds

variable {H : Fin 4 → UInt32} {a b : UInt32} {n : UInt32}

/-- No round of the loop that weighs reward time subtracts below zero. -/
def RewardsExact (h : Fin 4 → UInt32) (rewardsEndTime : UInt32) :
    List (Fin 3) → UInt32 × UInt32 → Prop
  | [], _ => True
  | i :: rest, acc =>
      (h i.castSucc ≤ acc.1 ∧ acc.1 < h i.succ →
        SubExact rewardsEndTime (rewardStep h rewardsEndTime acc i).1) ∧
      RewardsExact h rewardsEndTime rest (rewardStep h rewardsEndTime acc i)

/-- The start of the interval stays below its end. -/
theorem rewardStep_le
    {acc : UInt32 × UInt32} (hle : acc.1 ≤ b) (i : Fin 3) : (rewardStep H b acc i).1 ≤ b := by
  unfold rewardStep
  by_cases hround : H i.castSucc ≤ acc.1 ∧ acc.1 < H i.succ
  · rw [if_pos hround]
    dsimp only
    split_ifs with hend
    · exact UInt32.le_of_lt hend
    · exact hle
  · rw [if_neg hround]
    exact hle

theorem rewardsExact_of_le (l : List (Fin 3)) :
    ∀ acc : UInt32 × UInt32, acc.1 ≤ b → RewardsExact H b l acc := by
  induction l with
  | nil =>
      intro acc _
      exact trivial
  | cons i rest ih =>
      intro acc hle
      have hstep := rewardStep_le (H := H) hle i
      refine ⟨?_, ih _ hstep⟩
      intro _
      exact subExact_iff_le.mpr hstep

/-- After the last halving no round counts. -/
theorem rewardStep_of_past
    {acc : UInt32 × UInt32} {i : Fin 3} (h : H i.succ ≤ acc.1) : rewardStep H b acc i = acc := by
  unfold rewardStep
  rw [if_neg]
  rintro ⟨-, hlt⟩
  exact UInt32.not_lt.mpr h hlt

theorem rewardsExact_of_past
    (l : List (Fin 3)) (acc : UInt32 × UInt32) (h : ∀ i ∈ l, H i.succ ≤ acc.1) :
    RewardsExact H b l acc := by
  induction l with
  | nil => exact trivial
  | cons i rest ih =>
      have hpast := h i List.mem_cons_self
      refine ⟨?_, ?_⟩
      · rintro ⟨-, hlt⟩
        exact absurd hlt (UInt32.not_lt.mpr hpast)
      · rw [rewardStep_of_past hpast]
        exact ih fun j hj => h j (List.mem_cons_of_mem _ hj)

/-- An interval that ends at zero but starts in an era wraps. -/
theorem not_rewardsExact_zero
    (hpos : 0 < a) {k : Fin 3} (hstart : H k.castSucc ≤ a) (hstop : a < H k.succ) :
    ∀ l : List (Fin 3), k ∈ l → ¬ RewardsExact H 0 l (a, n) := by
  intro l
  induction l generalizing n with
  | nil =>
      intro hk
      cases hk
  | cons i rest ih =>
      have hnever : ∀ x : UInt32, ¬ x < 0 := fun x hx => by
        simp at hx
      have hfirst : (rewardStep H 0 (a, n) i).1 = a := by
        unfold rewardStep
        split_ifs with hround hend
        · exact absurd hend (hnever _)
        · rfl
        · rfl
      intro hk hexact
      obtain ⟨hnow, hrest⟩ := hexact
      rcases List.mem_cons.mp hk with rfl | hk'
      · have hle := subExact_iff_le.mp (hnow ⟨hstart, hstop⟩)
        rw [hfirst] at hle
        exact UInt32.not_le.mpr hpos hle
      · have hsplit : rewardStep H 0 (a, n) i = (a, (rewardStep H 0 (a, n) i).2) :=
          Prod.ext hfirst rfl
        rw [hsplit] at hrest
        exact ih hk' hrest

end Rounds

section Rows

variable {env : Env} {owner productName : Name} {id i : Nat} {p p' : Product}
variable {row row' : Staking} {u v : World} {b : Event}

/-- The product of a stake before the stake -/
theorem exists_terms_before [Doubles]
    (hu : Reaches env u) (hopen : Step env u b v) (hstakes : Stakes env owner productName b.action)
    (hin : StakeIn v.state owner productName id i p row) :
    ∃ q config, u.state.products.find? id = some q ∧ q.name = productName ∧ SameTerms q p ∧
      u.state.config = some config := by
  have inv' := stakingLedger_of_reaches (hu.succ hopen)
  obtain ⟨-, hexec, -⟩ := hopen
  obtain ⟨_, _, hstake⟩ := stake_of_exec hstakes hexec
  obtain ⟨_, _, config, _, -, -, -, -, hconfig, -, -⟩ := stake_eq_ok hstake
  obtain ⟨j, q, q', hproduct, hproducts, hterms, -⟩ := stake_products hstake
  obtain ⟨hq, hname⟩ := findProduct_eq_some hproduct
  have hq' : v.state.products.find? j = some q' := by
    rw [hproducts, Table.find?_put_self]
  obtain rfl := inv'.names id j p q' hin.product hq'
    (hin.name.trans (hname.symm.trans hterms.name.symm))
  obtain rfl := Option.some.inj (hin.product.symm.trans hq')
  exact ⟨q, config, hq, hname, hterms, hconfig⟩

/-- The end of a term is the one over the integers. -/
def TermExact (env : Env) (q : World × Event) : Prop :=
  ∀ owner productName id p, Stakes env owner productName q.2.action →
    q.1.state.products.find? id = some p → p.name = productName → p.duration ≠ 0 →
    (q.2.ctx.now + secondsPerDay * p.duration).toNat =
      q.2.ctx.now.toNat + secondsPerDay.toNat * p.duration.toNat

/-- A stake of the event is in a product whose term fits into 32 bits, or in one without a
term; with LEM rewards the latter only after the last halving. -/
def TermFits (env : Env) (q : World × Event) : Prop :=
  ∀ owner productName id p config, Stakes env owner productName q.2.action →
    q.1.state.products.find? id = some p → p.name = productName →
    q.1.state.config = some config →
    (p.duration ≠ 0 →
      q.2.ctx.now.toNat + secondsPerDay.toNat * p.duration.toNat < 2 ^ 32) ∧
    (p.hasLemRewards = true → p.duration = 0 →
      q.2.ctx.now = 0 ∨ config.lastHalfLifeUpdated 3 ≤ q.2.ctx.now)

/-- A term that fits into 32 bits does not wrap. -/
theorem toNat_termEnd
    {now days : UInt32} (h : now.toNat + secondsPerDay.toNat * days.toNat < 2 ^ 32) :
    (now + secondsPerDay * days).toNat = now.toNat + secondsPerDay.toNat * days.toNat := by
  have hmul : (secondsPerDay * days).toNat = secondsPerDay.toNat * days.toNat := by
    rw [UInt32.toNat_mul]
    exact Nat.mod_eq_of_lt (by omega)
  rw [UInt32.toNat_add, hmul, Nat.mod_eq_of_lt h]

/-- The time that LEM has been claimed up to lies in the term and in the past. -/
structure LemClaimable (row : Staking) (time : UInt32) : Prop where
  started_le : row.startedAt ≤ row.lastClaimLemReward
  le_ended : row.lastClaimLemReward ≤ row.endedAt
  le_time : row.lastClaimLemReward ≤ time

theorem le_rewardsEnd
    {x now : UInt32} (hended : x ≤ row.endedAt) (hnow : x ≤ now) : x ≤ rewardsEnd row now := by
  unfold rewardsEnd
  split_ifs
  · exact hended
  · exact hnow

theorem rewardsEnd_le (row : Staking) (now : UInt32) :
    rewardsEnd row now ≤ row.endedAt ∧ rewardsEnd row now ≤ now := by
  unfold rewardsEnd
  split_ifs with hended
  · exact ⟨UInt32.le_refl _, hended⟩
  · exact ⟨UInt32.le_of_lt (UInt32.not_le.mp hended), UInt32.le_refl _⟩

/-- Without an end of the term the rewards end at zero. -/
theorem rewardsEnd_eq_zero (hended : row.endedAt = 0) (now : UInt32) : rewardsEnd row now = 0 := by
  have hle := (rewardsEnd_le row now).1
  rw [hended] at hle
  exact UInt32.le_zero_iff.mp hle

theorem LemClaimable.step [Doubles]
    {ctx : Ctx} {s : State} {a : Action} {sent : List Inline} {time : UInt32}
    (h : LemClaimable row time) (hnow : time ≤ ctx.now)
    (hrow : RowStep ctx s owner productName p row row' a sent) : LemClaimable row' ctx.now := by
  have hlater : LemClaimable row ctx.now :=
    ⟨h.started_le, h.le_ended, UInt32.le_trans h.le_time hnow⟩
  cases hrow with
  | same eq =>
      rw [eq]
      exact ⟨hlater.started_le, hlater.le_ended, hlater.le_time⟩
  | claimled action pos h' add eq paid =>
      rw [eq]
      exact ⟨hlater.started_le, hlater.le_ended, hlater.le_time⟩
  | claimlem action config_eq pos h' add eq paid =>
      have hend := le_rewardsEnd hlater.le_ended hlater.le_time
      obtain ⟨hended, hpast⟩ := rewardsEnd_le row ctx.now
      rw [eq]
      exact ⟨UInt32.le_trans h.started_le hend, hended, hpast⟩

/-- The times of a row are in order. -/
structure Timed (w : World) (p : Product) (row : Staking) : Prop where
  noTerm : p.duration = 0 → row.endedAt = 0
  term : p.duration ≠ 0 → row.startedAt ≤ row.endedAt
  lemTerm : p.hasLemRewards = true → p.duration ≠ 0 → LemClaimable row w.time
  lemNoTerm : p.hasLemRewards = true → p.duration = 0 →
    (row.lastClaimLemReward = 0 ∨ row.lastClaimLemReward = row.startedAt) ∧
      (row.startedAt = 0 ∨
        ∃ start, Initialised start w ∧ halvingTime start 3 ≤ row.startedAt.toNat)

theorem Timed.of_fresh [Doubles]
    (hu : Reaches env u) (hopen : Step env u b v) (hstakes : Stakes env owner productName b.action)
    (hin : StakeIn v.state owner productName id i p row) (hfresh : Fresh b.ctx p row)
    (hfits : TermFits env (u, b)) : Timed v p row := by
  obtain ⟨q, config, hq, hname, hterms, hconfig⟩ := exists_terms_before hu hopen hstakes hin
  obtain ⟨hterm, hnoTerm⟩ := hfits owner productName id q config hstakes hq hname hconfig
  dsimp only at hterm hnoTerm
  rw [← hterms.duration] at hterm
  rw [← hterms.duration, ← hterms.hasLemRewards] at hnoTerm
  have htime : v.time = b.ctx.now := hopen.2.2
  have hended : p.duration ≠ 0 → row.startedAt ≤ row.endedAt := by
    intro hdur
    rw [hfresh.startedAt, hfresh.endedAt, periodEnd, if_pos hdur, UInt32.le_iff_toNat_le,
      toNat_termEnd (hterm hdur)]
    exact Nat.le_add_right _ _
  have hlast : p.hasLemRewards = true → row.lastClaimLemReward = row.startedAt := by
    intro hrewards
    rw [hfresh.lastLem, lastLemReward, if_pos hrewards, hfresh.startedAt]
  refine ⟨?_, hended, ?_, ?_⟩
  · intro hdur
    rw [hfresh.endedAt, periodEnd, if_neg (not_not.mpr hdur)]
  · intro hrewards hdur
    have hsame := hlast hrewards
    refine ⟨?_, ?_, ?_⟩
    · rw [hsame]
      exact UInt32.le_refl _
    · rw [hsame]
      exact hended hdur
    · rw [hsame, hfresh.startedAt, htime]
      exact UInt32.le_refl _
  · intro hrewards hdur
    refine ⟨Or.inr (hlast hrewards), ?_⟩
    rcases hnoTerm hrewards hdur with hzero | hpast
    · exact Or.inl (hfresh.startedAt.trans hzero)
    · obtain ⟨start, inv, hsched⟩ := initialised_of_reaches hu hconfig
      refine Or.inr ⟨start, (inv.step hopen).1, ?_⟩
      have hhalving := hsched.halvings 3
      rw [hfresh.startedAt]
      exact hhalving ▸ UInt32.le_iff_toNat_le.mp hpast

theorem Timed.step [Doubles]
    {e : Event} (h : Timed u p row) (hstep : Step env u e v) (hterms : SameTerms p p')
    (hrow : RowStep e.ctx u.state owner productName p row row' e.action e.sent) :
    Timed v p' row' := by
  have hsame := hrow.sameStake
  have htime : v.time = e.ctx.now := hstep.2.2
  obtain ⟨hnoTerm, hterm, hlemTerm, hlemNoTerm⟩ := h
  refine ⟨?_, ?_, ?_, ?_⟩
  · rw [hterms.duration, hsame.endedAt]
    exact hnoTerm
  · rw [hterms.duration, hsame.startedAt, hsame.endedAt]
    exact hterm
  · rw [hterms.hasLemRewards, hterms.duration, htime]
    intro hrewards hdur
    exact (hlemTerm hrewards hdur).step hstep.1 hrow
  · rw [hterms.hasLemRewards, hterms.duration, hsame.startedAt]
    intro hrewards hdur
    obtain ⟨hlast, hpast⟩ := hlemNoTerm hrewards hdur
    refine ⟨?_, ?_⟩
    · cases hrow with
      | same eq =>
          rw [eq]
          exact hlast
      | claimled action pos h' add eq paid =>
          rw [eq]
          exact hlast
      | claimlem action config_eq pos h' add eq paid =>
          rw [eq]
          exact Or.inl (rewardsEnd_eq_zero (hnoTerm hdur) e.ctx.now)
    · rcases hpast with hzero | ⟨start, inv, hpast⟩
      · exact Or.inl hzero
      · exact Or.inr ⟨start, (inv.step hstep).1, hpast⟩

theorem timed_of_run [Doubles]
    {w w' : World} {h : History} (hw : w.Genesis) (run : Run (Step env) w h w')
    (hfits : ∀ q ∈ h, TermFits env q) (hin : StakeIn w'.state owner productName id i p row) :
    Timed w' p row := by
  refine row_invariant (TermFits env) Timed ?_ ?_ hw run hfits hin
  · intro u b v p row hfit hu hopen hstakes hin hfresh
    exact .of_fresh hu hopen hstakes hin hfresh hfit
  · intro u e v p p' row row' _ hstep _ htimed hterms hrow
    exact htimed.step hstep hterms hrow

end Rows

section Runs

variable {env : Env} {owner productName : Name} {id i : Nat} {p : Product} {row : Staking}
variable {w w' u v : World} {h : History} {b : Event}

/-- At the time of a call no difference of times wraps: in a stake of more, in `unstake`, in
`claimled`, and in the loops that weigh the reward time of these and of `claimlem`. -/
structure TimesExact (ctx : Ctx) (s : State) (p : Product) (row : Staking) : Prop where
  started : SubExact ctx.now row.startedAt
  settled : SubExact (settlementTime ctx p row) row.startedAt
  claimed : SubExact (claimTime ctx p row) row.lastClaimLedReward
  term : row.endedAt ≠ 0 → row.startedAt ≤ row.endedAt
  lem : p.hasLemRewards = true → ∀ config, s.config = some config →
    RewardsExact config.lastHalfLifeUpdated (rewardsEnd row ctx.now) (List.finRange 3)
      (row.startedAt, 0) ∧
    RewardsExact config.lastHalfLifeUpdated (rewardsEnd row (settlementTime ctx p row))
      (List.finRange 3) (row.startedAt, 0) ∧
    RewardsExact config.lastHalfLifeUpdated (rewardsEnd row ctx.now) (List.finRange 3)
      (row.lastClaimLemReward, 0)

/-- No difference of times wraps in any later call on any row. -/
def RowsExact (w : World) : Prop :=
  ∀ owner productName id i p row, StakeIn w.state owner productName id i p row →
    ∀ ctx : Ctx, w.time ≤ ctx.now → TimesExact ctx w.state p row

/-- A claim of LED counts from the last one. -/
theorem Claimable.le_claimTime
    {ctx : Ctx} {time x : UInt32} (h : Claimable p.duration row time x)
    (hstart : row.startedAt ≤ ctx.now) (hnow : time ≤ ctx.now)
    (hterm : p.duration ≠ 0 → row.startedAt ≤ row.endedAt) : x ≤ claimTime ctx p row := by
  unfold claimTime
  rcases h with rfl | ⟨hdur, rfl, hended⟩ | ⟨-, hpast, hend⟩
  · split_ifs with hdur hended
    · exact hterm hdur
    · exact hstart
    · exact hstart
  · rw [if_pos hdur, if_pos (UInt32.le_trans hended hnow)]
    exact UInt32.le_refl _
  · split_ifs with hdur hended
    · exact hend hdur
    · exact UInt32.le_trans hpast hnow
    · exact UInt32.le_trans hpast hnow

theorem rewardsExact_finRange_of_le
    {H : Fin 4 → UInt32} {x y : UInt32} (h : x ≤ y) : RewardsExact H y (List.finRange 3) (x, 0) :=
  rewardsExact_of_le _ _ h

/-- On schedule, no round counts from a point after the last halving. -/
theorem OnSchedule.rewardsExact_of_past
    {start : ℕ} {config : Config} {time x y : UInt32} (h : OnSchedule start config time)
    (hpast : halvingTime start 3 ≤ x.toNat) :
    RewardsExact config.lastHalfLifeUpdated y (List.finRange 3) (x, 0) := by
  refine Lemonade.rewardsExact_of_past _ _ ?_
  intro k _
  rw [UInt32.le_iff_toNat_le, h.halvings]
  exact (halvingTime_monotone start (Nat.lt_succ_iff.mp k.succ.isLt)).trans hpast

theorem Timed.timesExact [Doubles]
    {ctx : Ctx} (hw : Reaches env w) (hin : StakeIn w.state owner productName id i p row)
    (h : Timed w p row) (hnow : w.time ≤ ctx.now) : TimesExact ctx w.state p row := by
  obtain ⟨_, _, hperiod⟩ := exists_period hw hin
  obtain ⟨_, _, _, -, -, -, -, -, -, acc, -⟩ := hperiod.spec hin
  have hstart := UInt32.le_trans acc.started_le hnow
  have hclaim := acc.claimable.le_claimTime hstart hnow h.term
  have hsettle : row.startedAt ≤ settlementTime ctx p row := by
    unfold settlementTime
    split_ifs with hdur
    · exact h.term hdur
    · exact hstart
  refine ⟨subExact_iff_le.mpr hstart, subExact_iff_le.mpr hsettle, subExact_iff_le.mpr hclaim,
    ?_, ?_⟩
  · intro hended
    refine h.term ?_
    intro hdur
    exact hended (h.noTerm hdur)
  · intro hrewards config hconfig
    by_cases hdur : p.duration = 0
    · obtain ⟨hlast, hpast⟩ := h.lemNoTerm hrewards hdur
      have hended := rewardsEnd_eq_zero (h.noTerm hdur)
      have hround : ∀ x : UInt32, x = 0 ∨ x = row.startedAt →
          RewardsExact config.lastHalfLifeUpdated 0 (List.finRange 3) (x, 0) := by
        rintro x hx
        rcases hpast with hzero | ⟨start, inv, hpast⟩
        · rw [hzero, or_self] at hx
          rw [hx]
          exact rewardsExact_finRange_of_le (UInt32.le_refl _)
        · obtain ⟨config₁, hconfig₁, hsched⟩ := inv
          obtain rfl := Option.some.inj (hconfig.symm.trans hconfig₁)
          rcases hx with rfl | rfl
          · exact rewardsExact_finRange_of_le (UInt32.le_refl _)
          · exact hsched.rewardsExact_of_past hpast
      rw [hended, hended]
      exact ⟨hround _ (Or.inr rfl), hround _ (Or.inr rfl), hround _ hlast⟩
    · obtain ⟨hfirst, hended, hpast⟩ := h.lemTerm hrewards hdur
      have hterm := h.term hdur
      exact ⟨rewardsExact_finRange_of_le (le_rewardsEnd hterm hstart),
        rewardsExact_finRange_of_le (le_rewardsEnd hterm hsettle),
        rewardsExact_finRange_of_le (le_rewardsEnd hended (UInt32.le_trans hpast hnow))⟩

theorem TermFits.termExact [Doubles]
    (h : TermFits env (u, b)) (hopen : Step env u b v) : TermExact env (u, b) := by
  intro owner productName id p hstakes hp hname hdur
  obtain ⟨_, _, hstake⟩ := stake_of_exec hstakes hopen.2.1
  obtain ⟨_, _, config, _, -, -, -, -, hconfig, -⟩ := stake_eq_ok hstake
  exact toNat_termEnd ((h owner productName id p config hstakes hp hname hconfig).1 hdur)

/-- A point of time between the first and the last halving time lies in an era. -/
theorem exists_era
    {start x : ℕ} (hfirst : halvingTime start 0 ≤ x) (hlast : x < halvingTime start 3) :
    ∃ k : Fin 3, halvingTime start k ≤ x ∧ x < halvingTime start (k + 1) := by
  by_cases h1 : x < halvingTime start 1
  · exact ⟨0, hfirst, h1⟩
  · by_cases h2 : x < halvingTime start 2
    · exact ⟨1, not_lt.mp h1, h2⟩
    · exact ⟨2, not_lt.mp h2, hlast⟩

/-- If a stake is entered exactly and its row counts time exactly, its term fits. -/
theorem termFits_of_exact [Doubles]
    (hu : Reaches env u) (hopen : Step env u b v) (hexact : TermExact env (u, b))
    (hrows : RowsExact v) : TermFits env (u, b) := by
  intro owner productName id p config hstakes hp hname hconfig
  refine ⟨?_, ?_⟩
  · intro hdur
    have hsum := hexact owner productName id p hstakes hp hname hdur
    rw [← hsum]
    exact UInt32.toNat_lt _
  · intro hrewards hdur
    by_contra hnot
    rw [not_or] at hnot
    obtain ⟨hnonzero, hbefore⟩ := hnot
    -- the stake starts in an era, and its row ends at zero
    obtain ⟨_, _, hstake⟩ := stake_of_exec hstakes hopen.2.1
    obtain ⟨id', i, p', row, hin, hfresh⟩ := exists_fresh_of_stake hstake
    obtain ⟨q, config₁, hq, hqname, hterms, hconfig₁⟩ :=
      exists_terms_before hu hopen hstakes hin
    obtain rfl := (stakingLedger_of_reaches hu).names id id' p q hp hq (hname.trans hqname.symm)
    obtain rfl := Option.some.inj (hp.symm.trans hq)
    obtain ⟨start, inv, hsched⟩ := initialised_of_reaches hu hconfig
    obtain ⟨config', hconfig', hsched'⟩ := (inv.step hopen).1
    have htime : v.time = b.ctx.now := hopen.2.2
    have hended : row.endedAt = 0 := by
      rw [hfresh.endedAt, periodEnd, hterms.duration, if_neg (not_not.mpr hdur)]
    have hend := rewardsEnd_eq_zero hended b.ctx.now
    have hlem := ((hrows owner productName id i p' row hin b.ctx (htime ▸ UInt32.le_refl _)).lem
      (hterms.hasLemRewards.trans hrewards) config' hconfig').1
    rw [hend, hfresh.startedAt] at hlem
    have hfill := UInt32.le_iff_toNat_le.mp (UInt32.le_trans hsched.fill_le hopen.1)
    have hafter : halvingTime start 0 ≤ b.ctx.now.toNat :=
      ((halvingTime_monotone start (Nat.zero_le _)).trans hsched.era.start).trans hfill
    have hlast := UInt32.lt_iff_toNat_lt.mp (UInt32.not_le.mp hbefore)
    rw [hsched.halvings] at hlast
    obtain ⟨k, hstart, hstop⟩ := exists_era hafter hlast
    refine not_rewardsExact_zero (k := k) ?_ ?_ ?_ _ (List.mem_finRange k) hlem
    · exact UInt32.pos_iff_ne_zero.mpr hnonzero
    · rw [UInt32.le_iff_toNat_le, hsched'.halvings]
      exact hstart
    · rw [UInt32.lt_iff_toNat_lt, hsched'.halvings]
      exact hstop

/-- In a run, every end of a term is the one over the integers, and in every state that the
run goes through no time wraps in any later call, iff every stake is in a product whose term
fits. -/
theorem times_exact_iff_terms_fit [Doubles]
    (hw : w.Genesis) (run : Run (Step env) w h w') :
    (∀ q ∈ h, TermExact env q ∧ ∀ v, Step env q.1 q.2 v → RowsExact v) ↔
      ∀ q ∈ h, TermFits env q := by
  constructor
  · rintro hexact ⟨u, b⟩ hq
    obtain ⟨pre, _, v, -, hpre, hstep, -⟩ := run.exists_of_mem hq
    obtain ⟨hterm, hrows⟩ := hexact _ hq
    exact termFits_of_exact ⟨w, pre, hw, hpre⟩ hstep hterm (hrows v hstep)
  · rintro hfits ⟨u, b⟩ hq
    obtain ⟨pre, post, v', hsplit, hpre, hstep', -⟩ := run.exists_of_mem hq
    refine ⟨(hfits _ hq).termExact hstep', ?_⟩
    intro v hstep owner productName id i p row hin ctx hnow
    have hrun := hpre.snoc hstep
    refine Timed.timesExact ⟨w, _, hw, hrun⟩ hin (timed_of_run hw hrun ?_ hin) hnow
    intro x hx
    refine hfits x ?_
    rw [hsplit]
    rcases List.mem_append.mp hx with hx | hx
    · exact List.mem_append_left _ hx
    · obtain rfl := List.mem_singleton.mp hx
      exact List.mem_append_right _ List.mem_cons_self

/-- Alice stakes in a product with LEM rewards and some duration. -/
def sampleDuration (duration : Option UInt32) : List (Ctx × Action) :=
  [(sampleCtx 1000 "lemonade.c", .init),
    (sampleCtx 1000 "lemonade.c",
      .addproduct (nameLiteral "basic") 1 2 true false zeroLed none duration),
    (sampleCtx 2000 "alice", sampleTransfer "alice" 1000000 "stake/basic")]

open Binary64

/-- Alice stakes for ten days. -/
theorem times_exact_iff_terms_fit_sample :
    ∃ h w, Run (Step sampleEnv) sampleWorld h w ∧
      (w.state.stakings.find? (nameLiteral "alice", 0)).map (fun row => row.endedAt) =
        some 866000 ∧
      ∀ q ∈ h, TermExact sampleEnv q ∧ ∀ v, Step sampleEnv q.1 q.2 v → RowsExact v := by
  obtain ⟨h, w, hplay, hobs⟩ := exists_of_play
    (show (play (stepWith sampleEnv) sampleWorld (sampleDuration (some 10))).map (fun r =>
        ((r.2.state.stakings.find? (nameLiteral "alice", 0)).map (fun row => row.endedAt),
          r.1.all fun q => (q.1.state.products.findBy fun _ p => !decide (p.duration ≠ 0 ∧
            q.2.ctx.now.toNat + secondsPerDay.toNat * p.duration.toNat < 2 ^ 32)).isNone)) =
      some (some 866000, true) by decide +kernel)
  obtain ⟨hrow, hfits⟩ := Prod.mk.inj hobs
  have hrun := run_of_play (step_of_stepWith sampleEnv) _ hplay
  refine ⟨h, w, hrun, hrow, (times_exact_iff_terms_fit sampleWorld_genesis hrun).mpr ?_⟩
  intro q hq owner productName id p config _ hp _ _
  have hnone := Option.isNone_iff_eq_none.mp (List.all_eq_true.mp hfits q hq)
  have hok := Table.findBy_eq_none_iff.mp hnone id p hp
  rw [Bool.not_eq_false', decide_eq_true_eq] at hok
  exact ⟨fun _ => hok.2, fun _ hdur => absurd hdur hok.1⟩

/-- Alice stakes without a term: the time of her LEM rewards ends at zero, before it
starts. -/
theorem times_wrap_without_term :
    ¬ ∀ (env : Env) (w : World), Reaches env w → RowsExact w := by
  intro hall
  obtain ⟨h, w, hplay, hobs⟩ := exists_of_play
    (show (play (stepWith sampleEnv) sampleWorld (sampleDuration none)).map (fun r =>
        ((r.2.state.products.find? 0).map (fun p => (p.name, p.hasLemRewards)),
          (r.2.state.stakings.find? (nameLiteral "alice", 0)).map
            (fun row => [row.productId, row.startedAt.toNat, row.endedAt.toNat]),
          r.2.state.config.map (fun config => [(config.lastHalfLifeUpdated 0).toNat,
            (config.lastHalfLifeUpdated 1).toNat, r.2.time.toNat]))) =
      some (some (nameLiteral "basic", true), some [0, 2000, 0], some [1000, 62900200, 2000]) by
        decide +kernel)
  simp only [Prod.mk.injEq, Option.map_eq_some_iff, List.cons.injEq, and_true] at hobs
  obtain ⟨⟨p, hp, hname, hrewards⟩, ⟨row, hrow, hid, hstarted, hended⟩,
    ⟨config, hconfig, hstart, hstop, htime⟩⟩ := hobs
  have hnow : w.time ≤ (sampleCtx 2000 "alice").now := UInt32.le_iff_toNat_le.mpr htime.le
  have hexact := ((hall sampleEnv w (reaches_of_play sampleWorld_genesis hplay)
    (nameLiteral "alice") (nameLiteral "basic") 0 0 p row ⟨hname, hid, hp, hrow⟩ _ hnow).lem
    hrewards config hconfig).1
  have hend : rewardsEnd row (sampleCtx 2000 "alice").now = 0 := by
    rw [rewardsEnd, UInt32.toNat_inj.mp (hended.trans (show 0 = (0 : UInt32).toNat from rfl))]
    rfl
  rw [hend] at hexact
  refine not_rewardsExact_zero (k := 0) ?_ ?_ ?_ _ (List.mem_finRange 0) hexact
  · rw [UInt32.lt_iff_toNat_lt, hstarted]
    decide
  · rw [UInt32.le_iff_toNat_le, hstarted]
    exact hstart.trans_le (by decide)
  · rw [UInt32.lt_iff_toNat_lt, hstarted]
    exact lt_of_lt_of_eq (by decide) hstop.symm

end Runs

end Lemonade
