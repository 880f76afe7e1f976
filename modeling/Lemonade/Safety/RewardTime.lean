import Lemonade.Kernel.Eras
import Lemonade.Safety.LemRewards
import Mathlib.Tactic

/-!
# The weighted time of the reward loops

Time in era `i` counts for one part in `2 ^ i`.  A round of the reward loops whose era ends
before the interval does moves the start of the count to the end of the era before it counts.
So it leaves out the era itself, and counts what follows the era at the rate of the era, a
second time.  The loops are right where the two amounts agree: without a halving inside the
interval, and by coincidence.
-/

namespace Lemonade

open Kernel

section Weights

variable {H : Fin 4 → UInt32} {a b : UInt32} {i : Fin 3}

/-- Common part of an interval and an era -/
def eraOverlap (H : Fin 4 → UInt32) (a b : UInt32) (i : Fin 3) : ℕ :=
  overlap a.toNat b.toNat (H i.castSucc).toNat (H i.succ).toNat

/-- Time of an interval, weighted by the eras it lies in -/
def weightedTime (H : Fin 4 → UInt32) (a b : UInt32) : ℕ := ∑ i, eraOverlap H a b i / 2 ^ i.val

/-- The end of the era lies inside the interval. -/
def Crossed (H : Fin 4 → UInt32) (a b : UInt32) (i : Fin 3) : Prop := a < H i.succ ∧ H i.succ < b

instance (H : Fin 4 → UInt32) (a b : UInt32) : DecidablePred (Crossed H a b) := fun _ =>
  inferInstanceAs (Decidable (_ ∧ _))

/-- Weight of the eras that the loops leave out -/
def omittedTime (H : Fin 4 → UInt32) (a b : UInt32) : ℕ :=
  ∑ i with Crossed H a b i, eraOverlap H a b i / 2 ^ i.val

/-- Time after each of these eras, at the rate of the era -/
def overrunTime (H : Fin 4 → UInt32) (a b : UInt32) : ℕ :=
  ∑ i with Crossed H a b i, (b.toNat - (H i.succ).toNat) / 2 ^ i.val

/-- What the round of an era adds. -/
def roundTime (H : Fin 4 → UInt32) (a b : UInt32) (i : Fin 3) : ℕ :=
  if Crossed H a b i then (b.toNat - (H i.succ).toNat) / 2 ^ i.val
  else eraOverlap H a b i / 2 ^ i.val

/-- An interval weighs at most its length. -/
theorem weightedTime_le
    (hmono : ∀ i j, i < j → H i < H j) : weightedTime H a b ≤ b.toNat - a.toNat := by
  have h01 := UInt32.lt_iff_toNat_lt.mp (hmono 0 1 (by decide))
  have h12 := UInt32.lt_iff_toNat_lt.mp (hmono 1 2 (by decide))
  have h23 := UInt32.lt_iff_toNat_lt.mp (hmono 2 3 (by decide))
  have hdiv : ∀ i : Fin 3, eraOverlap H a b i / 2 ^ i.val ≤ eraOverlap H a b i :=
    fun i => Nat.div_le_self _ _
  calc weightedTime H a b ≤ ∑ i, eraOverlap H a b i := Finset.sum_le_sum fun i _ => hdiv i
    _ = overlap a.toNat b.toNat (H 0).toNat (H 1).toNat +
          overlap a.toNat b.toNat (H 1).toNat (H 2).toNat +
          overlap a.toNat b.toNat (H 2).toNat (H 3).toNat := Fin.sum_univ_three _
    _ ≤ b.toNat - a.toNat := by
        unfold overlap
        omega

/-- The rounds together count the time after the crossed eras in place of these eras. -/
theorem sum_roundTime_modEq_iff :
    ∑ i, roundTime H a b i ≡ weightedTime H a b [MOD 2 ^ 32] ↔
      overrunTime H a b ≡ omittedTime H a b [MOD 2 ^ 32] := by
  obtain ⟨rest, hrest⟩ : ∃ rest, rest =
      ∑ i with ¬ Crossed H a b i, eraOverlap H a b i / 2 ^ i.val := ⟨_, rfl⟩
  have hrounds : ∑ i, roundTime H a b i = overrunTime H a b + rest := by
    rw [hrest]
    unfold roundTime overrunTime
    exact Finset.sum_ite _ _
  have hweight : weightedTime H a b = omittedTime H a b + rest := by
    rw [hrest]
    exact (Finset.sum_filter_add_sum_filter_not _ _ _).symm
  rw [hrounds, hweight]
  exact ⟨Nat.ModEq.add_right_cancel' rest, Nat.ModEq.add_right rest⟩

end Weights

section Rounds

variable {H : Fin 4 → UInt32} {a b : UInt32} {i : Fin 3} {n : ℕ} {acc : UInt32 × UInt32}

/-- The loop before the round of era `i`: the point that it counts from is the later of the
start of the interval and the start of the era, unless the interval ends before the era. -/
structure Counted (H : Fin 4 → UInt32) (a b : UInt32) (i : Fin 4) (n : ℕ)
    (acc : UInt32 × UInt32) : Prop where
  total : acc.2.toNat = n % 2 ^ 32
  inside : H i ≤ a → acc.1 = a
  reached : a < H i → H i < b → acc.1 = H i
  ended : a < H i → b ≤ H i → acc.1 < H i

/-- A round that counts from a point adds the time from there on. -/
theorem toNat_add_part
    {c : UInt32} (htotal : acc.2.toNat = n % 2 ^ 32) (hcb : c ≤ b) :
    (acc.2 + (b - c) / halvings i).toNat = (n + (b.toNat - c.toNat) / 2 ^ i.val) % 2 ^ 32 := by
  rw [UInt32.toNat_add, UInt32.toNat_div, UInt32.toNat_sub_of_le _ _ hcb, toNat_halvings i.isLt,
    htotal, Nat.mod_add_mod]

/-- The round of an era that the count has come to. -/
theorem Counted.count
    (htotal : acc.2.toNat = n % 2 ^ 32)
    (hlast : acc.1.toNat = max a.toNat (H i.castSucc).toNat) (hstop : acc.1 < H i.succ)
    (hend : acc.1 ≤ b) : Counted H a b i.succ (n + roundTime H a b i) (rewardStep H b acc i) := by
  have hstart : H i.castSucc ≤ acc.1 := by
    rw [UInt32.le_iff_toNat_le, hlast]
    exact le_max_right _ _
  have hafter : a < H i.succ := by
    rw [UInt32.lt_iff_toNat_lt] at hstop ⊢
    omega
  have hnot : ¬ H i.succ ≤ a := UInt32.not_le.mpr hafter
  unfold rewardStep
  rw [if_pos ⟨hstart, hstop⟩]
  dsimp only
  by_cases hcross : H i.succ < b
  · rw [if_pos hcross, roundTime, if_pos ⟨hafter, hcross⟩]
    refine ⟨toNat_add_part htotal (UInt32.le_of_lt hcross), fun h => absurd h hnot,
      fun _ _ => rfl, ?_⟩
    intro _ hle
    exact absurd hcross (UInt32.not_lt.mpr hle)
  · have hle := UInt32.not_lt.mp hcross
    have hpart : eraOverlap H a b i = b.toNat - acc.1.toNat := by
      rw [UInt32.le_iff_toNat_le] at hle
      unfold eraOverlap overlap
      omega
    rw [if_neg hcross, roundTime, if_neg fun h => hcross h.2, hpart]
    refine ⟨toNat_add_part htotal hend, fun h => absurd h hnot, fun _ h => absurd h hcross, ?_⟩
    intro _ _
    exact hstop

/-- The round of an era that the count does not come to. -/
theorem Counted.skip
    (htotal : acc.2.toNat = n % 2 ^ 32) (hround : rewardStep H b acc i = acc)
    (hcross : ¬ Crossed H a b i) (hnone : eraOverlap H a b i = 0)
    (hinside : H i.succ ≤ a → acc.1 = a) (hreached : a < H i.succ → H i.succ < b → False)
    (hended : a < H i.succ → b ≤ H i.succ → acc.1 < H i.succ) :
    Counted H a b i.succ (n + roundTime H a b i) (rewardStep H b acc i) := by
  rw [hround, roundTime, if_neg hcross, hnone, Nat.zero_div, Nat.add_zero]
  exact ⟨htotal, hinside, fun h h' => (hreached h h').elim, hended⟩

theorem Counted.step
    (h : Counted H a b i.castSucc n acc) (hera : H i.castSucc < H i.succ) (hab : a ≤ b) :
    Counted H a b i.succ (n + roundTime H a b i) (rewardStep H b acc i) := by
  obtain ⟨htotal, hinside, hreached, hended⟩ := h
  rw [UInt32.lt_iff_toNat_lt] at hera
  by_cases hpast : H i.succ ≤ a
  · -- the interval starts behind the era
    have hacc := hinside (UInt32.le_iff_toNat_le.mpr (by
      rw [UInt32.le_iff_toNat_le] at hpast
      omega))
    refine Counted.skip htotal (rewardStep_of_past (by rwa [hacc])) (fun h => ?_) ?_
      (fun _ => hacc) (fun h _ => ?_) (fun h _ => ?_)
    · exact UInt32.not_lt.mpr hpast h.1
    · rw [UInt32.le_iff_toNat_le] at hpast
      unfold eraOverlap overlap
      omega
    · exact UInt32.not_lt.mpr hpast h
    · exact absurd h (UInt32.not_lt.mpr hpast)
  · have hbefore := UInt32.not_le.mp hpast
    by_cases hin : H i.castSucc ≤ a
    · -- it starts in the era
      have hacc := hinside hin
      refine Counted.count htotal ?_ (by rwa [hacc]) (by rwa [hacc])
      rw [hacc, max_eq_left (UInt32.le_iff_toNat_le.mp hin)]
    · have hstart := UInt32.not_le.mp hin
      by_cases hreach : H i.castSucc < b
      · -- it comes into the era from an earlier one
        have hacc := hreached hstart hreach
        refine Counted.count htotal ?_ ?_ ?_
        · rw [hacc, max_eq_right (UInt32.le_iff_toNat_le.mp (UInt32.le_of_lt hstart))]
        · rw [hacc, UInt32.lt_iff_toNat_lt]
          exact hera
        · rw [hacc]
          exact UInt32.le_of_lt hreach
      · -- it ends before the era
        have hend := UInt32.not_lt.mp hreach
        have hacc := hended hstart hend
        have hafter : b ≤ H i.succ := by
          rw [UInt32.le_iff_toNat_le] at hend ⊢
          omega
        have hnone : ¬ H i.succ < b := UInt32.not_lt.mpr hafter
        refine Counted.skip htotal (rewardStep_of_before hacc) (fun h => hnone h.2) ?_
          (fun h => absurd h hpast) (fun _ h => hnone h) (fun _ _ => ?_)
        · rw [UInt32.le_iff_toNat_le] at hend
          unfold eraOverlap overlap
          omega
        · rw [UInt32.lt_iff_toNat_lt] at hacc ⊢
          omega

/-- The loop adds up what its rounds add. -/
theorem toNat_rewardSecs
    (hmono : ∀ i j, i < j → H i < H j) (hstart : H 0 ≤ a) (hab : a ≤ b) :
    (rewardSecs H a b).toNat = (∑ i, roundTime H a b i) % 2 ^ 32 := by
  have hbegin : Counted H a b 0 0 (a, 0) := by
    refine ⟨rfl, fun _ => rfl, fun h => ?_, fun h => ?_⟩
    · exact absurd hstart (UInt32.not_le.mpr h)
    · exact absurd hstart (UInt32.not_le.mpr h)
  have hera : ∀ i : Fin 3, H i.castSucc < H i.succ := fun i => hmono _ _ Fin.castSucc_lt_succ
  have hloop := ((hbegin.step (i := 0) (hera 0) hab).step (i := 1) (hera 1) hab).step (i := 2)
    (hera 2) hab
  have hlist : List.finRange 3 = [0, 1, 2] := by decide
  rw [rewardSecs, hlist, Fin.sum_univ_three]
  simp only [List.foldl_cons, List.foldl_nil]
  rw [hloop.total, Nat.zero_add]

end Rounds

section Loops

variable {H : Fin 4 → UInt32} {a b : UInt32}

/-- The three loops that weigh reward time. -/
inductive RewardLoop where
  | topUp
  | unstake
  | claimlem
deriving DecidableEq, Repr

/-- What a loop hands on to the reward: the sum is unsigned in the settlements of `stake` and
`unstake`, and a signed int in `claimlem`. -/
def RewardLoop.secs (H : Fin 4 → UInt32) (a b : UInt32) : RewardLoop → Int64
  | .topUp => Int64.ofNat (rewardSecs H a b).toNat
  | .unstake => Int64.ofNat (rewardSecs H a b).toNat
  | .claimlem => (rewardSecs H a b).toInt32.toInt64

theorem rewardSecs_eq_weightedTime_iff
    (hmono : ∀ i j, i < j → H i < H j) (hstart : H 0 ≤ a) (hab : a ≤ b) :
    (rewardSecs H a b).toNat = weightedTime H a b ↔
      overrunTime H a b ≡ omittedTime H a b [MOD 2 ^ 32] := by
  have hle := weightedTime_le (a := a) (b := b) hmono
  have hlt := b.toNat_lt
  rw [toNat_rewardSecs hmono hstart hab, ← sum_roundTime_modEq_iff, Nat.ModEq,
    Nat.mod_eq_of_lt (show weightedTime H a b < 2 ^ 32 by omega)]

/-- A signed int of 32 bits holds a weight below `2 ^ 31`. -/
theorem toInt_toInt32_eq_iff
    {n : UInt32} {m : ℕ} : n.toInt32.toInt64.toInt = (m : ℤ) ↔ n.toNat = m ∧ m < 2 ^ 31 := by
  have hlt := n.toNat_lt
  rw [Int32.toInt_toInt64, ← Int32.toInt_toBitVec, UInt32.toBitVec_toInt32,
    BitVec.toInt_eq_toNat_cond, UInt32.toNat_toBitVec]
  split_ifs with h
  · omega
  · omega

/-- A loop computes the weighted time of an interval exactly if the time after the halvings
inside the interval weighs as much as the eras before them. -/
theorem reward_loops_exact_iff
    (hmono : ∀ i j, i < j → H i < H j) (hstart : H 0 ≤ a) (hab : a ≤ b) (l : RewardLoop) :
    (l.secs H a b).toInt = weightedTime H a b ↔
      overrunTime H a b ≡ omittedTime H a b [MOD 2 ^ 32] ∧
        (l = .claimlem → weightedTime H a b < 2 ^ 31) := by
  have hlt := (rewardSecs H a b).toNat_lt
  have hcast : (Int64.ofNat (rewardSecs H a b).toNat).toInt = (rewardSecs H a b).toNat :=
    Int64.toInt_ofNat_of_lt (by omega)
  rw [← rewardSecs_eq_weightedTime_iff hmono hstart hab]
  cases l with
  | topUp =>
      rw [RewardLoop.secs, hcast, Nat.cast_inj]
      simp
  | unstake =>
      rw [RewardLoop.secs, hcast, Nat.cast_inj]
      simp
  | claimlem =>
      rw [RewardLoop.secs, toInt_toInt32_eq_iff]
      simp

/-- The halving times that `init` writes at 1000. -/
def sampleHalvings : Fin 4 → UInt32 := ![1000, 62900200, 125799400, 188698600]

theorem sampleHalvings_mono : ∀ i j, i < j → sampleHalvings i < sampleHalvings j := by
  decide

/-- The claim of a day in the second era -/
theorem reward_loops_exact_sample :
    (RewardLoop.claimlem.secs sampleHalvings 62900200 62986600).toInt = 43200 := by
  have hexact := (reward_loops_exact_iff sampleHalvings_mono (a := 62900200) (b := 62986600)
    (by decide) (by decide) .claimlem).mpr (by decide +kernel)
  rw [hexact]
  decide +kernel

/-- The whole first era and one second more weigh a second. -/
theorem reward_loops_lose_era :
    ¬ ∀ (H : Fin 4 → UInt32) (a b : UInt32) (l : RewardLoop), (∀ i j, i < j → H i < H j) →
      H 0 ≤ a → a ≤ b → (l.secs H a b).toInt = weightedTime H a b := by
  intro hall
  exact absurd (hall sampleHalvings 1000 62900201 .unstake sampleHalvings_mono (by decide)
    (by decide)) (by decide +kernel)

end Loops

end Lemonade
