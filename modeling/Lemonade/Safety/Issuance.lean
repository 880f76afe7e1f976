import Lemonade.Kernel.Eras
import Lemonade.Contract.Frames
import Mathlib.Tactic

/-!
# The issuance of LEM

Each call of `issue_lem` is due 20000 units for each second since the last fill,
weighted by era.  The source counts the units in 32 bits: a call issues what is due
exactly if that is below `2 ^ 32`, which it is for gaps of up to two days and a half.
-/

namespace Lemonade

open Kernel

section Loop

variable {H : Fin 4 → UInt32} {bound : ℕ → ℕ} {now : UInt32} {fl : Fill} {f : Scan} {k a m : ℕ}

/-- The variables of the loop hold the state of a scan. -/
structure Fill.Counts (fl : Fill) (f : Scan) : Prop where
  total : fl.secsSinceLastFill.toNat = f.total
  last : fl.lastIssued.toNat = f.last
  era : fl.halfLife = f.era

theorem toNat_halvings {i : ℕ} (hi : i < 3) : (halvings i).toNat = 2 ^ i := by
  have hcases : i = 0 ∨ i = 1 ∨ i = 2 := by omega
  rcases hcases with rfl | rfl | rfl <;> rfl

/-- Seconds are divided and added up without loss below `2 ^ 32`. -/
theorem toNat_add_div_halvings
    {secs x y : UInt32} {i : ℕ} (hi : i < 3) (hyx : y ≤ x)
    (hsum : secs.toNat + (x.toNat - y.toNat) / 2 ^ i < 2 ^ 32) :
    (secs + (x - y) / halvings i).toNat = secs.toNat + (x.toNat - y.toNat) / 2 ^ i := by
  rw [UInt32.toNat_add, UInt32.toNat_div, UInt32.toNat_sub_of_le _ _ hyx, toNat_halvings hi,
    Nat.mod_eq_of_lt hsum]

theorem Fill.Counts.step
    (h : fl.Counts f) (hH : ∀ i, (H i).toNat = bound i) (hmono : Monotone bound)
    (hera : InEra bound 3 k a) (hat : a ≤ now.toNat) (i : Fin 3) (hkm : k ≤ i.val)
    (hscan : Scanned bound (2 ^ ·) k a now.toNat i f) :
    (fillStep H now fl i).Counts (scanStep bound (2 ^ ·) now.toNat f i) := by
  have hstart : (H i.castSucc).toNat = bound i := hH i.castSucc
  have hstop : (H i.succ).toNat = bound (i + 1) := hH i.succ
  have hlast := hscan.last_le hmono hera hat hkm i.isLt
  have htotal := (hscan.step hmono hera hat hkm i.isLt).total_le hmono (by omega) hat
  have hnow := now.toNat_lt
  unfold fillStep
  unfold scanStep at htotal ⊢
  simp only [UInt32.le_iff_toNat_le, UInt32.lt_iff_toNat_lt, hstart, hstop]
  split_ifs at htotal ⊢ with hin hpast
  · refine ⟨?_, h.last, rfl⟩
    dsimp only at htotal ⊢
    rw [← h.total, ← h.last] at htotal ⊢
    refine toNat_add_div_halvings i.isLt ?_ (by omega)
    rw [UInt32.le_iff_toNat_le, h.last]
    exact hlast.1 hin.1
  · refine ⟨?_, hstop, rfl⟩
    dsimp only at htotal ⊢
    rw [← h.total, ← h.last, ← hstop] at htotal ⊢
    refine toNat_add_div_halvings i.isLt ?_ (by omega)
    rw [UInt32.le_iff_toNat_le, h.last, hstop]
    exact hlast.2 hpast
  · exact h

/-- The loop of `issue_lem` is a scan of the eras from the last fill until now. -/
theorem fillLoop_counts
    {config : Config} (hH : ∀ i, (config.lastHalfLifeUpdated i).toNat = bound i)
    (hmono : Monotone bound)
    (hera : InEra bound 3 config.halfLifeCount config.lastLemBucketFill.toNat)
    (hat : config.lastLemBucketFill.toNat ≤ now.toNat) (hk : config.halfLifeCount ≠ 3) :
    ∃ f, (fillLoop config now).Counts f ∧
      Scanned bound (2 ^ ·) config.halfLifeCount config.lastLemBucketFill.toNat now.toNat 3 f := by
  have hnext : ∀ (i : Fin 3) (fl : Fill), config.halfLifeCount ≤ i.val →
      (∃ f, fl.Counts f ∧ Scanned bound (2 ^ ·) config.halfLifeCount
        config.lastLemBucketFill.toNat now.toNat i f) →
      ∃ f, (fillStep config.lastHalfLifeUpdated now fl i).Counts f ∧
        Scanned bound (2 ^ ·) config.halfLifeCount config.lastLemBucketFill.toNat now.toNat
          (i + 1) f := by
    rintro i fl hkm ⟨f, hcounts, hscan⟩
    exact ⟨_, hcounts.step hH hmono hera hat i hkm hscan,
      hscan.step hmono hera hat hkm i.isLt⟩
  have hstart : ∃ f, Fill.Counts ⟨0, config.lastLemBucketFill, config.halfLifeCount⟩ f ∧
      Scanned bound (2 ^ ·) config.halfLifeCount config.lastLemBucketFill.toNat now.toNat
        config.halfLifeCount f :=
    ⟨⟨0, _, _⟩, ⟨rfl, rfl, rfl⟩, scanned_start hera hat⟩
  have hle := hera.le
  have hcases : config.halfLifeCount = 0 ∨ config.halfLifeCount = 1 ∨
      config.halfLifeCount = 2 := by omega
  unfold fillLoop
  rcases hcases with hzero | hone | htwo
  · simp only [hzero] at hnext hstart ⊢
    exact hnext 2 _ (by decide) (hnext 1 _ (by decide) (hnext 0 _ (by decide) hstart))
  · simp only [hone] at hnext hstart ⊢
    exact hnext 2 _ (by decide) (hnext 1 _ (by decide) hstart)
  · simp only [htwo] at hnext hstart ⊢
    exact hnext 2 _ (by decide) hstart

end Loop

section Schedule

/-- The halving times of a contract initialised at `start`. -/
def halvingTime (start i : ℕ) : ℕ := start + i * 2 * secondsPerYear.toNat

theorem halvingTime_monotone (start : ℕ) : Monotone (halvingTime start) := by
  intro i j hij
  unfold halvingTime
  gcongr

/-- The seconds that a call at `now` is due: the time since the last fill, weighted by
era and rounded down in each era. -/
def dueSecs (start : ℕ) (config : Config) (now : UInt32) : ℕ :=
  eraWeight (halvingTime start) (2 ^ ·) config.halfLifeCount 3 config.lastLemBucketFill.toNat
    now.toNat

/-- The row of `configs` in a contract initialised at `start`. -/
structure OnSchedule (start : ℕ) (config : Config) (time : UInt32) : Prop where
  halvings : ∀ i : Fin 4, (config.lastHalfLifeUpdated i).toNat = halvingTime start i
  fill_le : config.lastLemBucketFill ≤ time
  era : InEra (halvingTime start) 3 config.halfLifeCount config.lastLemBucketFill.toNat

variable {start : ℕ} {config : Config} {time : UInt32}

theorem onSchedule_initialConfig (ctx : Ctx) :
    OnSchedule ctx.now.toNat (initialConfig ctx.now) ctx.now where
  halvings := by
    have hlast : ctx.now.toNat ≤ 946684800 + (2 ^ 32 - 1) / 2 := ctx.now_le
    have hyear : secondsPerYear.toNat = 31449600 := rfl
    have hshift : ∀ n : UInt32, n.toNat ≤ 188697600 →
        (ctx.now + n).toNat = ctx.now.toNat + n.toNat := by
      intro n hn
      rw [UInt32.toNat_add]
      omega
    intro i
    fin_cases i
    · simp [initialConfig, halvingTime]
    · exact hshift (secondsPerYear * 2) (by decide)
    · exact hshift (secondsPerYear * 4) (by decide)
    · exact hshift (secondsPerYear * 6) (by decide)
  fill_le := UInt32.le_refl _
  era := by
    refine ⟨Nat.zero_le 3, ?_, fun _ => ?_⟩
    · simp [initialConfig, halvingTime]
    · simp [initialConfig, halvingTime, secondsPerYear]

theorem OnSchedule.later
    (h : OnSchedule start config time) {now : UInt32} (hnow : time ≤ now) :
    OnSchedule start config now where
  halvings := h.halvings
  fill_le := UInt32.le_trans h.fill_le hnow
  era := h.era

theorem OnSchedule.withPrice
    (h : OnSchedule start config time) (price : ℚ) :
    OnSchedule start { config with btcPrice := price } time :=
  ⟨h.halvings, h.fill_le, h.era⟩

end Schedule

section Calls

variable {env : Env} {ctx : Ctx} {s s' : State} {sent : List Inline}
variable {start : ℕ} {config : Config}

/-- LEM that an inline action issues -/
def Inline.lem : Inline → ℤ
  | .issue contract _ quantity _ =>
      if contract = ledTokenContract ∧ quantity.symbol = lemSymbol then quantity.amount.toInt
      else 0
  | .transfer _ _ _ _ => 0

/-- LEM that inline actions issue -/
def lemIssued (sent : List Inline) : ℤ := (sent.map Inline.lem).sum

theorem lemIssued_append (sent sent' : List Inline) :
    lemIssued (sent ++ sent') = lemIssued sent + lemIssued sent' := by
  simp [lemIssued]

theorem lemIssued_of_onlyTransfers (h : OnlyTransfers sent) : lemIssued sent = 0 := by
  refine List.sum_eq_zero ?_
  intro n hn
  obtain ⟨x, hx, rfl⟩ := List.mem_map.mp hn
  obtain ⟨_, _, _, _, rfl⟩ := h x hx
  rfl

theorem lemIssued_of_distribute [Doubles]
    {token : Asset} (hsymbol : token.symbol = lemSymbol)
    (h : distribute env token = .ok sent) : lemIssued sent = token.amount.toInt := by
  obtain ⟨shares, hshares, rfl⟩ := distribute_eq_ok h
  have hrest := lemIssued_of_onlyTransfers hshares
  unfold lemIssued at hrest ⊢
  rw [List.map_cons, List.sum_cons, hrest, add_zero]
  exact if_pos ⟨rfl, hsymbol⟩

/-- Issuing 20000 units for each of the given seconds stays below `LEM_MAX`. -/
def Room (ctx : Ctx) (secs : ℕ) : Prop :=
  ∀ stat, ctx.lemStat = some stat →
    stat.supply.amount.toInt + 20000 * secs ≤ lemMax.toInt

theorem toInt_scaledFill (secs : UInt32) :
    (scaledFill secs).toInt = (20000 * secs.toNat) % 2 ^ 32 := by
  have hmul : (secs * 20000).toNat = (secs.toNat * 20000) % 2 ^ 32 := UInt32.toNat_mul _ _
  unfold scaledFill
  rw [hmul, Int64.toInt_ofNat_of_lt (by omega)]
  omega

/-- The sum that is compared with `LEM_MAX` does not wrap while the supply is below it. -/
theorem toInt_scaledFill_add
    {supply : Int64} (hsupply : supply.toInt ≤ lemMax.toInt) (secs : UInt32) :
    (scaledFill secs + supply).toInt = (scaledFill secs).toInt + supply.toInt := by
  have hscaled := toInt_scaledFill secs
  have hle := supply.le_toInt
  have hmax : lemMax.toInt = 2207520000000 := rfl
  rw [Int64.toInt_add, Int.bmod_def]
  split_ifs <;> omega

theorem newToken_amount
    {secs : UInt32} {token : Asset} (hroom : Room ctx secs.toNat)
    (h : newToken env ctx secs = .ok token) :
    token.symbol = lemSymbol ∧ token.amount.toInt = (20000 * secs.toNat) % 2 ^ 32 := by
  obtain ⟨stat, hstat, hsymbol, hamount⟩ := newToken_eq_ok h
  have hle := hroom stat hstat
  have hscaled := toInt_scaledFill secs
  have hsum := toInt_scaledFill_add (show stat.supply.amount.toInt ≤ lemMax.toInt by omega) secs
  refine ⟨hsymbol, ?_⟩
  rw [if_neg] at hamount
  · rw [hamount, hscaled]
  · rw [Int64.not_lt, Int64.le_iff_toInt_le, hsum]
    omega

/-- A call of `issue_lem` keeps to the schedule, and issues the units that are due,
in 32 bits. -/
theorem issueLem_onSchedule [Doubles]
    {time : UInt32} (hsched : OnSchedule start config time) (hconfig : s.config = some config)
    (hnow : time ≤ ctx.now) (h : issueLem env ctx s = .ok (s', sent)) :
    (∃ config', s'.config = some config' ∧ OnSchedule start config' ctx.now) ∧
      (Room ctx (dueSecs start config ctx.now) →
        lemIssued sent = (20000 * dueSecs start config ctx.now) % 2 ^ 32) := by
  have hlater := hsched.later hnow
  have hat := UInt32.le_iff_toNat_le.mp hlater.fill_le
  obtain ⟨config₁, hconfig₁, h⟩ := issueLem_eq_ok h
  obtain rfl := Option.some.inj (hconfig.symm.trans hconfig₁)
  rcases h with ⟨hover, rfl, rfl⟩ | ⟨token, hk, htoken, h⟩
  · refine ⟨⟨config, hconfig, hlater⟩, fun _ => ?_⟩
    have hnone : dueSecs start config ctx.now = 0 := by
      unfold dueSecs
      rw [hover, eraWeight_self]
    rw [hnone]
    rfl
  · obtain ⟨f, hcounts, hscan⟩ := fillLoop_counts hlater.halvings (halvingTime_monotone start)
      hlater.era hat hk
    have hdue : (fillLoop config ctx.now).secsSinceLastFill.toNat =
        dueSecs start config ctx.now := hcounts.total.trans hscan.total
    constructor
    · rcases h with ⟨-, rfl, -⟩ | ⟨-, -, rfl⟩
      · exact ⟨config, hconfig, hlater⟩
      · refine ⟨_, rfl, hlater.halvings, UInt32.le_refl _, ?_⟩
        dsimp only
        rw [hcounts.era]
        exact hscan.inEra
    · intro hroom
      rw [← hdue] at hroom ⊢
      obtain ⟨hsymbol, hamount⟩ := newToken_amount hroom htoken
      rw [← hamount]
      rcases h with ⟨hpos, -, rfl⟩ | ⟨-, hsent, -⟩
      · rw [Int64.not_lt, Int64.le_iff_toInt_le, Int64.toInt_zero] at hpos
        have hnonneg : 0 ≤ token.amount.toInt := by omega
        rw [le_antisymm hpos hnonneg]
        rfl
      · exact lemIssued_of_distribute hsymbol hsent

end Calls

section Steps

variable {env : Env} {ctx : Ctx} {s s' : State} {a : Action} {sent : List Inline}

theorem onlyTransfers_refunds (betId : Nat) (game : Betting) :
    OnlyTransfers (refunds betId game) := by
  have hmap : ∀ (betters : List (Name × Asset)) (memo : Text),
      OnlyTransfers (betters.map fun k => Inline.transfer ledTokenContract k.1 k.2 memo) := by
    intro betters memo x hx
    obtain ⟨k, -, rfl⟩ := List.mem_map.mp hx
    exact ⟨_, _, _, _, rfl⟩
  unfold refunds
  refine OnlyTransfers.append ?_ ?_
  · split_ifs
    · exact hmap _ _
    · exact onlyTransfers_nil
  · split_ifs
    · exact hmap _ _
    · exact onlyTransfers_nil

theorem onlyTransfers_winnings [Doubles]
    {betId : Nat} {losersTotal winnersTotal : Int64} {winners : List (Name × Asset)}
    (h : winnings betId losersTotal winnersTotal winners = .ok sent) : OnlyTransfers sent := by
  induction winners generalizing sent with
  | nil =>
      obtain rfl := pure_eq_ok_iff.mp h
      exact onlyTransfers_nil
  | cons k winners ih =>
      simp only [winnings, bind_eq_ok_iff, pure_eq_ok_iff] at h
      obtain ⟨price, -, rest, hrest, rfl⟩ := h
      split_ifs
      · exact ih hrest
      · exact (ih hrest).cons

theorem GameMove.onlyTransfers [Doubles]
    (h : GameMove env ctx s a s' sent) : OnlyTransfers sent := by
  cases h with
  | createbet => exact onlyTransfers_nil
  | setbet h =>
      obtain ⟨_, -, ⟨-, rfl, -⟩ | ⟨_, _, _, -, -, -, -, -, rfl⟩ | ⟨_, -, -, -, -, rfl⟩⟩ :=
        setbet_eq_ok h
      · exact onlyTransfers_nil
      · exact onlyTransfers_nil
      · exact onlyTransfers_refunds _ _
  | rmbet => exact onlyTransfers_nil
  | claimbet h =>
      obtain ⟨_, -, -, hwin, -⟩ := claimbet_eq_ok h
      exact onlyTransfers_winnings hwin
  | bet => exact onlyTransfers_nil

theorem GameMove.config_eq [Doubles]
    (h : GameMove env ctx s a s' sent) : s'.config = s.config := by
  cases h with
  | createbet h =>
      obtain ⟨_, _, -, -, -, -, -, rfl⟩ := createbet_eq_ok h
      rfl
  | setbet h =>
      obtain ⟨_, -, ⟨rfl, -⟩ | ⟨_, _, _, -, -, -, -, rfl, -⟩ | ⟨_, -, -, -, rfl, -⟩⟩ := setbet_eq_ok
        h
      all_goals rfl
  | rmbet h =>
      obtain ⟨_, -, -, rfl⟩ := rmbet_eq_ok h
      rfl
  | claimbet h =>
      obtain ⟨_, -, -, -, rfl⟩ := claimbet_eq_ok h
      rfl
  | bet _ _ _ h =>
      obtain ⟨_, _, _, -, -, -, -, -, -, rfl⟩ := bet_eq_ok h
      rfl

theorem DexMove.onlyTransfers [Doubles]
    (h : DexMove env ctx s a s' sent)
    (hreward : ∀ pairTokenSymbol total pool, a ≠ .clmpoolreward pairTokenSymbol total pool) :
    OnlyTransfers sent := by
  cases h with
  | closeext h =>
      obtain ⟨_, _, -, -, -, rfl⟩ := closeext_eq_ok h
      split_ifs
      · exact onlyTransfers_nil.cons
      · exact onlyTransfers_nil
  | withdraw h =>
      obtain ⟨-, -, -, rfl⟩ := withdraw_eq_ok h
      exact onlyTransfers_nil.cons
  | memoexchange _ _ _ h =>
      obtain ⟨_, _, _, -, -, rfl⟩ := memoexchange_eq_ok h
      exact onlyTransfers_nil.cons
  | clmpoolreward => exact absurd rfl (hreward _ _ _)
  | _ => exact onlyTransfers_nil

/-- The owner of a stake in the product that the memo names stakes more. -/
def toppedUp (s : State) (source : Name) (memo : Text) : Bool :=
  match stakeProduct (memoParser memo) with
  | .error _ => false
  | .ok productName =>
      match findProduct s productName with
      | none => false
      | some (id, _) => (findStaking s source id).isSome

/-- The actions that call `issue_lem`. -/
def callsIssueLem (env : Env) (s : State) : Action → Bool
  | .issuelem => true
  | .unstake _ _ => true
  | .claimlem _ _ => true
  | .clmpoolreward _ _ _ => true
  | .notify _ source dest _ memo =>
      decide (Incoming env source dest ∧ Operation memo "stake") && toppedUp s source memo
  | _ => false

/-- How a step deals with the issuance: by one call of `issue_lem`, or not at all. -/
inductive IssueStep [Doubles] (env : Env) (ctx : Ctx) (s : State) (a : Action) (s' : State)
    (sent : List Inline) : Prop
  | call {t : State} {issued rest : List Inline} (calls : callsIssueLem env s a = true)
      (h : issueLem env ctx s = .ok (t, issued)) (config : s'.config = t.config)
      (only : OnlyTransfers rest) (sent_eq : sent = issued ++ rest)
  | init (calls : callsIssueLem env s a = false) (only : OnlyTransfers sent)
      (action : a = .init)
      (config : s'.config = some (s.config.getD (initialConfig ctx.now)))
  | price {config : Config} {price : ℚ} (calls : callsIssueLem env s a = false)
      (only : OnlyTransfers sent) (before : s.config = some config)
      (after : s'.config = some { config with btcPrice := price })
  | keep (calls : callsIssueLem env s a = false) (only : OnlyTransfers sent)
      (config : s'.config = s.config)

theorem callsIssueLem_notify_of_not
    {firstReceiver source dest : Name} {quantity : Asset} {memo : Text}
    (h : ¬ (Incoming env source dest ∧ Operation memo "stake")) :
    callsIssueLem env s (.notify firstReceiver source dest quantity memo) = false := by
  simp only [callsIssueLem, decide_eq_false h, Bool.false_and]

theorem callsIssueLem_notify
    {source dest : Name} {memo : Text} {productName : Name} {id : Nat} {p : Product}
    (firstReceiver : Name) (quantity : Asset) (hin : Incoming env source dest)
    (hop : Operation memo "stake") (hname : stakeProduct (memoParser memo) = .ok productName)
    (hp : findProduct s productName = some (id, p)) :
    callsIssueLem env s (.notify firstReceiver source dest quantity memo) =
      (findStaking s source id).isSome := by
  simp only [callsIssueLem, toppedUp, hname, hp, decide_eq_true (And.intro hin hop),
    Bool.true_and]

theorem StakeMove.issueStep [Doubles]
    (h : StakeMove env ctx s a s' sent) : IssueStep env ctx s a s' sent := by
  cases h with
  | addproduct h =>
      obtain ⟨_, _, -, -, -, -, -, -, -, -, rfl⟩ := addproduct_eq_ok h
      exact .keep rfl onlyTransfers_nil rfl
  | rmproduct h =>
      obtain ⟨_, _, -, -, -, rfl⟩ := rmproduct_eq_ok h
      exact .keep rfl onlyTransfers_nil rfl
  | @stake firstReceiver _ _ quantity _ _ _ _ _ hin hop hname h =>
      obtain ⟨id, p, _, _, -, -, -, hp, -, -, hcase⟩ := stake_eq_ok h
      have hcalls := callsIssueLem_notify firstReceiver quantity hin hop hname hp
      rcases hcase with ⟨hnone, rfl, hnew⟩ | ⟨key, row, hrow, hmore⟩
      · obtain ⟨_, _, _, _, -, -, -, -, rfl⟩ := stakeNew_eq_ok hnew
        refine .keep ?_ onlyTransfers_nil rfl
        rw [hcalls, hnone]
        rfl
      · obtain ⟨_, issued, _, toOwnerLed, toOwnerLem, _, _, hissue, -, -, -, -, -, -, -, rfl,
          rfl⟩ := stakeMore_eq_ok hmore
        rw [List.append_assoc]
        refine .call ?_ hissue rfl ((onlyTransfers_sendPositive _ _ _).append
          (onlyTransfers_sendPositive _ _ _)) rfl
        rw [hcalls, hrow]
        rfl
  | unstake h =>
      obtain ⟨_, _, _, _, _, _, _, _, _, _, _, _, _, -, -, -, hissue, -, -, -, -, -, -, -, -, rfl,
        rfl⟩ := unstake_eq_ok h
      exact .call rfl hissue rfl (onlyTransfers_sendPositive _ _ _).cons rfl
  | claimled h =>
      obtain ⟨_, _, _, _, _, -, -, -, -, ⟨-, rfl, rfl⟩ | ⟨_, -, -, rfl, rfl⟩⟩ := claimled_eq_ok h
      · exact .keep rfl onlyTransfers_nil rfl
      · exact .keep rfl onlyTransfers_nil.cons rfl
  | claimlem h =>
      obtain ⟨_, _, issued, _, _, _, _, _, -, -, hissue, -, -, -, -,
        ⟨-, rfl, rfl⟩ | ⟨_, -, -, rfl, rfl⟩⟩ := claimlem_eq_ok h
      · exact .call rfl hissue rfl onlyTransfers_nil (List.append_nil _).symm
      · exact .call rfl hissue rfl onlyTransfers_nil.cons rfl
  | changeyield h =>
      obtain ⟨_, _, _, _, -, -, -, -, rfl⟩ := changeyield_eq_ok h
      exact .keep rfl onlyTransfers_nil rfl

theorem DexMove.issueStep [Doubles]
    (h : DexMove env ctx s a s' sent) : IssueStep env ctx s a s' sent := by
  by_cases hreward : ∃ pairTokenSymbol total pool, a = .clmpoolreward pairTokenSymbol total pool
  · obtain ⟨_, _, _, rfl⟩ := hreward
    cases h with
    | clmpoolreward h =>
        obtain ⟨t, issued, rewards, hissue, hconfig, hrewards, rfl⟩ := issueLem_of_clmpoolreward h
        exact .call rfl hissue hconfig hrewards rfl
  · have hother : ∀ x y z, a ≠ .clmpoolreward x y z := fun x y z ha => hreward ⟨x, y, z, ha⟩
    refine .keep ?_ (h.onlyTransfers hother) (h.onlyDex hother).2
    cases h with
    | clmpoolreward => exact absurd rfl (hother _ _ _)
    | deposit _ hop _ =>
        exact callsIssueLem_notify_of_not fun hs => absurd (hs.2.unique hop) (by decide)
    | memoexchange _ hop _ _ =>
        exact callsIssueLem_notify_of_not fun hs => absurd (hs.2.unique hop) (by decide)
    | _ => rfl

theorem AdminMove.issueStep [Doubles]
    (h : AdminMove env ctx s a s' sent) : IssueStep env ctx s a s' sent := by
  cases h with
  | init h =>
      obtain ⟨_, rfl⟩ := init_eq_ok h
      exact .init rfl onlyTransfers_nil rfl rfl
  | issuelem h =>
      simp only [Lemonade.issuelem, bind_eq_ok_iff] at h
      obtain ⟨_, -, h⟩ := h
      exact .call rfl h rfl onlyTransfers_nil (List.append_nil _).symm
  | setbtcprice h =>
      obtain ⟨config, hconfig, rfl⟩ := setbtcprice_eq_ok h
      exact .price rfl onlyTransfers_nil hconfig rfl
  | setledprice h =>
      obtain ⟨_, rfl⟩ := setledprice_eq_ok h
      exact .keep rfl onlyTransfers_nil rfl
  | freeze h =>
      obtain ⟨_, rfl⟩ := freeze_eq_ok h
      exact .keep rfl onlyTransfers_nil rfl
  | unfreeze h =>
      obtain ⟨_, rfl⟩ := unfreeze_eq_ok h
      exact .keep rfl onlyTransfers_nil rfl
  | indexpair h =>
      obtain ⟨_, rfl⟩ := indexpair_eq_ok h
      exact .keep rfl onlyTransfers_nil rfl
  | notify unasked =>
      exact .keep (callsIssueLem_notify_of_not fun hs => unasked ⟨hs.1, Or.inl hs.2⟩)
        onlyTransfers_nil rfl

theorem exec_issueStep [Doubles]
    (h : exec env ctx s a = .ok (s', sent)) : IssueStep env ctx s a s' sent := by
  cases exec_area h with
  | stakes move => exact move.issueStep
  | games move =>
      refine .keep ?_ move.onlyTransfers move.config_eq
      cases move with
      | bet _ hop _ _ =>
          exact callsIssueLem_notify_of_not fun hs => absurd (hs.2.unique hop) (by decide)
      | _ => rfl
  | dex move => exact move.issueStep
  | idle _ _ admin => exact admin.issueStep

end Steps

section Runs

variable {env : Env} {start : ℕ} {w w' : World} {e : Event}

/-- The seconds that a step is due to issue for, none if it does not call `issue_lem`. -/
def due (env : Env) (start : ℕ) (p : World × Event) : ℕ :=
  match p.1.state.config with
  | none => 0
  | some config =>
      if callsIssueLem env p.1.state p.2.action = true then dueSecs start config p.2.ctx.now else 0

/-- A contract that was initialised at `start`. -/
def Initialised (start : ℕ) (w : World) : Prop :=
  ∃ config, w.state.config = some config ∧ OnSchedule start config w.time

theorem initialised_of_init [Doubles]
    (hnone : w.state.config = none) (ha : e.action = .init) (h : Step env w e w') :
    Initialised e.ctx.now.toNat w' := by
  obtain ⟨-, hexec, htime⟩ := h
  rw [ha] at hexec
  obtain ⟨hok, -⟩ := silent_eq_ok_iff.mp hexec
  obtain ⟨_, hstate⟩ := init_eq_ok hok
  refine ⟨initialConfig e.ctx.now, ?_, ?_⟩
  · rw [hstate, hnone]
    rfl
  · rw [htime]
    exact onSchedule_initialConfig e.ctx

theorem Initialised.step [Doubles]
    (inv : Initialised start w) (h : Step env w e w') :
    Initialised start w' ∧
      (Room e.ctx (due env start (w, e)) →
        lemIssued e.sent = (20000 * due env start (w, e)) % 2 ^ 32) := by
  obtain ⟨config, hconfig, hsched⟩ := inv
  obtain ⟨hnow, hexec, htime⟩ := h
  have hidle : callsIssueLem env w.state e.action = false → OnlyTransfers e.sent →
      lemIssued e.sent = (20000 * due env start (w, e)) % 2 ^ 32 := by
    intro hcalls honly
    simp [due, hconfig, hcalls, lemIssued_of_onlyTransfers honly]
  unfold Initialised
  rw [htime]
  cases exec_issueStep hexec with
  | call calls hissue config_eq only sent_eq =>
      obtain ⟨hkept, hissued⟩ := issueLem_onSchedule hsched hconfig hnow hissue
      constructor
      · rw [config_eq]
        exact hkept
      · intro hroom
        simp only [due, hconfig, calls, if_true] at hroom ⊢
        rw [sent_eq, lemIssued_append, lemIssued_of_onlyTransfers only, hissued hroom, add_zero]
  | init calls only _ config_eq =>
      rw [hconfig] at config_eq
      exact ⟨⟨config, config_eq, hsched.later hnow⟩, fun _ => hidle calls only⟩
  | @price config' price calls only before after =>
      obtain rfl := Option.some.inj (hconfig.symm.trans before)
      exact ⟨⟨_, after, (hsched.later hnow).withPrice price⟩, fun _ => hidle calls only⟩
  | keep calls only config_eq =>
      rw [hconfig] at config_eq
      exact ⟨⟨config, config_eq, hsched.later hnow⟩, fun _ => hidle calls only⟩

/-- Seconds whose units fit into 32 bits. -/
theorem mod_eq_self_iff_le (secs : ℕ) :
    ((20000 * secs : ℕ) : ℤ) % 2 ^ 32 = (20000 * secs : ℕ) ↔ secs ≤ 214748 := by
  omega

/-- After `init` at `start`, a call of `issue_lem` issues what the halving schedule says
exactly if that is at most 214748 weighted seconds.  In a run whose calls all keep to
that, the total is 20000 units for each second due. -/
theorem issuance_follows_schedule_iff [Doubles]
    {u v : World} {h : History} {e₀ : Event} (hnone : u.state.config = none)
    (hinit : Step env u e₀ v) (ha : e₀.action = .init) (hrun : Run (Step env) v h w) :
    (∃ config, w.state.config = some config ∧
      ∀ i : Fin 4, (config.lastHalfLifeUpdated i).toNat =
        halvingTime e₀.ctx.now.toNat i) ∧
    (∀ e w' config, Step env w e w' → callsIssueLem env w.state e.action = true →
      w.state.config = some config →
      Room e.ctx (dueSecs e₀.ctx.now.toNat config e.ctx.now) →
      (lemIssued e.sent = 20000 * dueSecs e₀.ctx.now.toNat config e.ctx.now ↔
        dueSecs e₀.ctx.now.toNat config e.ctx.now ≤ 214748)) ∧
    ((∀ p ∈ h, Room p.2.ctx (due env e₀.ctx.now.toNat p) ∧
        due env e₀.ctx.now.toNat p ≤ 214748) →
      (h.map fun p => lemIssued p.2.sent).sum =
        20000 * (h.map (due env e₀.ctx.now.toNat)).sum) := by
  have hv := initialised_of_init hnone ha hinit
  have hw := hrun.invariant (Initialised e₀.ctx.now.toNat) (fun _ _ _ inv hs => (inv.step hs).1) hv
  refine ⟨?_, ?_, ?_⟩
  · obtain ⟨config, hconfig, hsched⟩ := hw
    exact ⟨config, hconfig, hsched.halvings⟩
  · intro e w' config hstep hcalls hconfig hroom
    have hdue : due env e₀.ctx.now.toNat (w, e) =
        dueSecs e₀.ctx.now.toNat config e.ctx.now := by
      simp only [due, hconfig, hcalls, if_true]
    have hissued := (hw.step hstep).2
    rw [hdue] at hissued
    rw [hissued hroom, ← mod_eq_self_iff_le]
    push_cast
    rfl
  · intro hmeets
    have heach : ∀ p ∈ h, lemIssued p.2.sent = 20000 * (due env e₀.ctx.now.toNat p : ℤ) := by
      rintro ⟨t, e⟩ hp
      obtain ⟨hroom, hle⟩ := hmeets (t, e) hp
      obtain ⟨pre, _, _, -, hpre, hstep, -⟩ := hrun.exists_of_mem hp
      have ht := hpre.invariant (Initialised e₀.ctx.now.toNat)
        (fun _ _ _ inv hs => (inv.step hs).1) hv
      have hfits := (mod_eq_self_iff_le (due env e₀.ctx.now.toNat (t, e))).mpr hle
      rw [(ht.step hstep).2 hroom]
      exact_mod_cast hfits
    rw [List.map_congr_left heach, List.sum_map_mul_left, Nat.cast_list_sum, List.map_map]
    rfl

theorem room_sampleCtx
    {now : ℕ} {account : String} {secs : ℕ} (h : secs ≤ 100000000) :
    Room (sampleCtx now account) secs := by
  intro stat hstat
  obtain rfl := Option.some.inj hstat
  have hmax : lemMax.toInt = 2207520000000 := rfl
  have hzero : zeroLem.amount.toInt = 0 := rfl
  dsimp only
  omega

open Binary64

/-- The contract is initialised at second 1000 and issues at seconds 1100 and 101000. -/
theorem issuance_follows_schedule_iff_sample :
    ∃ v w h, Run (Step sampleEnv) v h w ∧ v.time.toNat = 1000 ∧ w.time.toNat = 101000 ∧
      (h.map fun p => lemIssued p.2.sent).sum = 20000 * 100000 := by
  let inputs : List (Ctx × Action) :=
    [(sampleCtx 1100 "lemonade.c", .issuelem), (sampleCtx 101000 "lemonade.c", .issuelem)]
  obtain ⟨⟨e₀, v⟩, hinit, hobs⟩ := Option.map_eq_some_iff.mp
    (show (stepWith sampleEnv sampleWorld (sampleCtx 1000 "lemonade.c", .init)).map (fun x =>
        (x.2.time.toNat, (play (stepWith sampleEnv) x.2 inputs).map fun r =>
          (r.2.time.toNat, r.1.map (due sampleEnv 1000)))) =
      some (1000, some (101000, [100, 99900])) by decide +kernel)
  obtain ⟨hvtime, hplay⟩ := Prod.mk.inj hobs
  obtain ⟨h, w, hplay, hobs⟩ := exists_of_play hplay
  obtain ⟨hwtime, hdue⟩ := Prod.mk.inj hobs
  dsimp only at hvtime hwtime hdue
  have hinput := input_of_stepWith _ _ _ _ _ hinit
  have hctx : e₀.ctx.now.toNat = 1000 := by
    rw [show e₀.ctx = _ from congrArg Prod.fst hinput]
    rfl
  have hrun := run_of_play (step_of_stepWith sampleEnv) _ hplay
  obtain ⟨-, -, htotal⟩ := issuance_follows_schedule_iff rfl (step_of_stepWith _ _ _ _ _ hinit)
    (congrArg Prod.snd hinput) hrun
  refine ⟨v, w, h, hrun, hvtime, hwtime, ?_⟩
  rw [hctx, hdue] at htotal
  refine htotal ?_
  intro p hp
  have hle : due sampleEnv 1000 p ≤ 214748 := by
    have hmem : due sampleEnv 1000 p ∈ [100, 99900] := by
      rw [← hdue]
      exact List.mem_map_of_mem hp
    simp only [List.mem_cons, List.not_mem_nil, or_false] at hmem
    omega
  refine ⟨?_, hle⟩
  have hmem := input_mem_of_play hplay hp
  simp only [inputs, List.mem_cons, Prod.mk.injEq, List.not_mem_nil, or_false] at hmem
  rcases hmem with ⟨hp, -⟩ | ⟨hp, -⟩
  · rw [hp]
    exact room_sampleCtx (by omega)
  · rw [hp]
    exact room_sampleCtx (by omega)

/-- After a gap of 300000 seconds a call issues 170503.2704 LEM in place of 600000. -/
theorem issuance_broken_by_long_gap :
    ¬ ∀ (env : Env) (u v w w' : World) (h : History) (e₀ e : Event) (config : Config),
      u.Genesis → Step env u e₀ v → e₀.action = .init → Run (Step env) v h w →
      Step env w e w' → callsIssueLem env w.state e.action = true →
      w.state.config = some config → config.halfLifeCount < 3 →
      Room e.ctx (dueSecs e₀.ctx.now.toNat config e.ctx.now) →
      lemIssued e.sent = 20000 * dueSecs e₀.ctx.now.toNat config e.ctx.now := by
  intro hall
  let call : Ctx × Action := (sampleCtx 301000 "lemonade.c", .issuelem)
  obtain ⟨⟨e₀, v⟩, hinit, hobs⟩ := Option.map_eq_some_iff.mp
    (show (stepWith sampleEnv sampleWorld (sampleCtx 1000 "lemonade.c", .init)).map (fun x =>
        (x.2.state.config.map fun c => (c.halfLifeCount, dueSecs 1000 c 301000),
          (stepWith sampleEnv x.2 call).map fun y => lemIssued y.1.sent)) =
      some (some (0, 300000), some 1705032704) by decide +kernel)
  obtain ⟨hconfig, hcall⟩ := Prod.mk.inj hobs
  obtain ⟨config, hconfig, hdue⟩ := Option.map_eq_some_iff.mp hconfig
  obtain ⟨⟨e, w'⟩, hcall, hissued⟩ := Option.map_eq_some_iff.mp hcall
  obtain ⟨hera, hdue⟩ := Prod.mk.inj hdue
  have hinput := input_of_stepWith _ _ _ _ _ hinit
  have hinput' := input_of_stepWith _ _ _ _ _ hcall
  have hctx : e₀.ctx = sampleCtx 1000 "lemonade.c" := congrArg Prod.fst hinput
  have hctx' : e.ctx = sampleCtx 301000 "lemonade.c" := congrArg Prod.fst hinput'
  have haction : e.action = .issuelem := congrArg Prod.snd hinput'
  have hdue' : dueSecs e₀.ctx.now.toNat config e.ctx.now = 300000 := by
    rw [hctx, hctx']
    exact hdue
  have heq := hall sampleEnv sampleWorld v v w' [] e₀ e config sampleWorld_genesis
    (step_of_stepWith _ _ _ _ _ hinit) (congrArg Prod.snd hinput) Run.nil
    (step_of_stepWith _ _ _ _ _ hcall) (by rw [haction]; rfl) hconfig (by omega)
    (by rw [hdue', hctx']; exact room_sampleCtx (by omega))
  rw [hdue'] at heq
  dsimp only at hissued
  omega

end Runs

end Lemonade
