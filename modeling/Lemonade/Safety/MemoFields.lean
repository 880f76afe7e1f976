import Lemonade.Kernel.Splitting
import Lemonade.Safety.Failures
import Mathlib.Tactic

/-!
# The fields of a memo

The loop of `memoParser` always comes to its `break`.  It splits a memo that has a slash; of a
memo without one it returns two copies, since `npos + 1` is zero.  So the handler finds at least
two fields, and asks for more after it has counted them, except for the position of a bet.
-/

namespace Lemonade

open Kernel

section Loop

variable {memo before rest : Text} {result out : List Text} {prev : Option Nat}

/-- A run of the loop of `memoParser` up to its `break`. -/
inductive ParserRun (memo : Text) : Option Nat → List Text → List Text → Prop
  | last {prev : Option Nat} {result : List Text}
      (h : findChar '/' memo (afterPos prev) = none) :
      ParserRun memo prev result (result ++ [memo.drop (afterPos prev)])
  | more {prev : Option Nat} {result out : List Text} {pos : Nat}
      (h : findChar '/' memo (afterPos prev) = some pos)
      (rest : ParserRun memo (some pos)
        (result ++ [(memo.drop (afterPos prev)).take (pos - afterPos prev)]) out) :
      ParserRun memo prev result out

theorem drop_after_slash (hmemo : memo = before ++ '/' :: rest) :
    memo.drop (afterPos (some before.length)) = rest := by
  rw [hmemo, afterPos]
  simp

/-- A round of the loop behind a slash, when there is another one: it cuts off a piece. -/
theorem round_after_slash
    (hmemo : memo = before ++ '/' :: rest) (hslash : '/' ∈ rest) :
    ∃ piece rest', rest = piece ++ '/' :: rest' ∧ '/' ∉ piece ∧
      findChar '/' memo (afterPos (some before.length)) =
        some (before ++ '/' :: piece).length ∧
      (memo.drop (afterPos (some before.length))).take
        ((before ++ '/' :: piece).length - afterPos (some before.length)) = piece := by
  have hdrop := drop_after_slash hmemo
  obtain ⟨piece, rest', hrest, hpiece, hfind⟩ := findChar_of_mem (hdrop ▸ hslash)
  have hlength : afterPos (some before.length) + piece.length =
      (before ++ '/' :: piece).length := by
    simp only [afterPos, List.length_append, List.length_cons]
    omega
  refine ⟨piece, rest', hdrop ▸ hrest, hpiece, ?_, ?_⟩
  · rw [hfind, hlength]
  · rw [hrest, ← hlength, Nat.add_sub_cancel_left, List.take_left]

/-- Behind a slash the loop splits the rest of the memo, with one round for each piece. -/
theorem parser_after_slash
    (hmemo : memo = before ++ '/' :: rest) {fuel : Nat} (hfuel : rest.length < fuel) :
    ParserRun memo (some before.length) result (result ++ rest.splitOn '/') ∧
      memoParserLoop memo fuel (some before.length) result = result ++ rest.splitOn '/' := by
  induction fuel generalizing before rest result with
  | zero => omega
  | succ fuel ih =>
      by_cases hslash : '/' ∈ rest
      · obtain ⟨piece, rest', rfl, hpiece, hfind, htake⟩ := round_after_slash hmemo hslash
        have hmemo' : memo = (before ++ '/' :: piece) ++ '/' :: rest' := by
          rw [hmemo, List.append_assoc, List.cons_append]
        have hshort : rest'.length < fuel := by
          rw [List.length_append, List.length_cons] at hfuel
          omega
        obtain ⟨hrun, hloop⟩ :
            ParserRun memo (some (before ++ '/' :: piece).length) (result ++ [piece])
                (result ++ [piece] ++ rest'.splitOn '/') ∧
              memoParserLoop memo fuel (some (before ++ '/' :: piece).length)
                (result ++ [piece]) = result ++ [piece] ++ rest'.splitOn '/' :=
          ih hmemo' hshort
        rw [List.splitOn_append_cons_self_of_not_mem hpiece, List.append_cons]
        refine ⟨.more hfind ?_, ?_⟩
        · rw [htake]
          exact hrun
        · rw [memoParserLoop, hfind]
          dsimp only
          rw [htake]
          exact hloop
      · have hdrop := drop_after_slash hmemo
        have hnone := findChar_of_not_mem (hdrop ▸ hslash)
        have hlast : ParserRun memo (some before.length) result _ := .last hnone
        rw [hdrop] at hlast
        rw [List.splitOn_eq_singleton hslash, memoParserLoop, hnone]
        dsimp only
        rw [hdrop]
        exact ⟨hlast, rfl⟩

end Loop

section Parser

variable {memo : Text} {out : List Text}

/-- A run of `memoParser` -/
def MemoRun (memo : Text) (out : List Text) : Prop :=
  ParserRun memo (findChar '/' memo 0) [memo.take ((findChar '/' memo 0).getD memo.length)] out

/-- The parser comes to its end with the split of a memo at its slashes. -/
structure SplitsMemo (memo : Text) (out : List Text) : Prop where
  run : MemoRun memo out
  split : IsSplit '/' memo out
  length : out.length = memo.count '/' + 1

theorem memoParser_of_mem
    (h : '/' ∈ memo) : MemoRun memo (memo.splitOn '/') ∧ memoParser memo = memo.splitOn '/' := by
  obtain ⟨piece, rest, hmemo, hpiece, hfind⟩ := findChar_of_mem (show '/' ∈ memo.drop 0 from h)
  rw [Nat.zero_add] at hfind
  rw [List.drop_zero] at hmemo
  have hshort : rest.length < memo.length + 1 := by
    rw [hmemo, List.length_append, List.length_cons]
    omega
  have htake : memo.take piece.length = piece := by
    rw [hmemo, List.take_left]
  obtain ⟨hrun, hloop⟩ : ParserRun memo (some piece.length) [piece] ([piece] ++ rest.splitOn '/') ∧
      memoParserLoop memo (memo.length + 1) (some piece.length) [piece] =
        [piece] ++ rest.splitOn '/' := parser_after_slash hmemo hshort
  have hsplit : memo.splitOn '/' = [piece] ++ rest.splitOn '/' := by
    rw [hmemo, List.splitOn_append_cons_self_of_not_mem hpiece]
    rfl
  rw [hsplit]
  refine ⟨?_, ?_⟩
  · rw [MemoRun, hfind, Option.getD_some, htake]
    exact hrun
  · rw [memoParser, hfind]
    rw [Option.getD_some, htake]
    exact hloop

/-- A memo without a slash is returned twice. -/
theorem memoParser_of_not_mem
    (h : '/' ∉ memo) : MemoRun memo [memo, memo] ∧ memoParser memo = [memo, memo] := by
  have hfind : findChar '/' memo 0 = none := findChar_of_not_mem h
  have htake : memo.take memo.length = memo := List.take_length
  refine ⟨?_, ?_⟩
  · rw [MemoRun, hfind, Option.getD_none, htake]
    exact .last hfind
  · rw [memoParser, hfind]
    rw [Option.getD_none, htake, memoParserLoop, afterPos, hfind]
    rfl

theorem memoParser_run (memo : Text) : MemoRun memo (memoParser memo) := by
  by_cases h : '/' ∈ memo
  · obtain ⟨hrun, hvalue⟩ := memoParser_of_mem h
    rw [hvalue]
    exact hrun
  · obtain ⟨hrun, hvalue⟩ := memoParser_of_not_mem h
    rw [hvalue]
    exact hrun

/-- The parser splits exactly the memos that have a slash. -/
theorem memoParser_splits_iff
    (memo : Text) : SplitsMemo memo (memoParser memo) ↔ '/' ∈ memo := by
  constructor
  · rintro ⟨-, -, hlength⟩
    by_contra h
    rw [(memoParser_of_not_mem h).2, List.count_eq_zero.mpr h] at hlength
    cases hlength
  · intro h
    refine ⟨memoParser_run memo, ?_, ?_⟩
    · rw [(memoParser_of_mem h).2]
      exact isSplit_iff.mpr rfl
    · rw [(memoParser_of_mem h).2]
      exact length_splitOn

/-- The memo of a deposit has two fields. -/
theorem memoParser_doubles_deposit : ¬ ∀ memo : Text, SplitsMemo memo (memoParser memo) := by
  intro hall
  exact absurd (hall "deposit".toList).length (by decide)

theorem two_le_length_memoParser (memo : Text) : 2 ≤ (memoParser memo).length := by
  by_cases h : '/' ∈ memo
  · rw [(memoParser_of_mem h).2, length_splitOn]
    have hcount := List.count_pos_iff.mpr h
    omega
  · rw [(memoParser_of_not_mem h).2]
    exact le_refl 2

end Parser

section Bounds

variable {α : Type} {r : Result α}

/-- The call does not read past the end of a vector. -/
abbrev InBounds (r : Result α) : Prop := FailsOnly (fun e => e ≠ .outOfBounds) r

theorem inBounds_of_clean (h : Clean r) : InBounds r := by
  refine h.mono ?_
  rintro _ he rfl
  exact he

theorem inBounds_iff_ne : InBounds r ↔ r ≠ .error .outOfBounds := by
  constructor
  · rintro h hr
    exact h _ hr rfl
  · rintro h _ hr rfl
    exact h hr

theorem inBounds_check {p : Prop} [Decidable p] (message : String) :
    InBounds (check p message) := by
  simp [InBounds]

theorem inBounds_require {ρ : Type} (row : Option ρ) (message : String) :
    InBounds (require row message) := by
  simp [InBounds]

theorem inBounds_field_iff {event : List Text} {i : Nat} :
    InBounds (field event i) ↔ i < event.length := by
  simp [InBounds, field]

theorem InBounds.bind
    {β : Type} {f : α → Result β} (hr : InBounds r) (hf : ∀ a, InBounds (f a)) :
    InBounds (r >>= f) :=
  failsOnly_bind_iff.mpr ⟨hr, fun a _ => hf a⟩

theorem inBounds_stakeNew
    (ctx : Ctx) (s : State) (owner : Name) (quantity : Asset) (pricePrediction : Option Name)
    (productId : Nat) (product : Product) (config2 : Config2) :
    InBounds (stakeNew ctx s owner quantity pricePrediction productId product config2) := by
  unfold stakeNew
  refine (inBounds_check _).bind fun _ => (inBounds_check _).bind fun _ => inBounds_of_clean ?_
  simp

theorem inBounds_stakeMore [Doubles]
    (env : Env) (ctx : Ctx) (s : State) (owner : Name) (quantity : Asset) (productId : Nat)
    (product : Product) (config : Config) (config2 : Config2) (key : Name × Nat) (row : Staking) :
    InBounds (stakeMore env ctx s owner quantity productId product config config2 key row) := by
  unfold stakeMore
  refine (inBounds_check _).bind fun _ => (inBounds_check _).bind fun _ => inBounds_of_clean ?_
  simp

theorem inBounds_stake [Doubles]
    (env : Env) (ctx : Ctx) (s : State) (owner : Name) (quantity : Asset) (productName : Name)
    (pricePrediction : Option Name) :
    InBounds (stake env ctx s owner quantity productName pricePrediction) := by
  unfold stake
  refine (inBounds_of_clean (clean_requireAuth _ _)).bind fun _ => (inBounds_check _).bind fun _ =>
    (inBounds_check _).bind fun _ => (inBounds_require _ _).bind ?_
  rintro ⟨productId, product⟩
  refine (inBounds_require _ _).bind fun config => (inBounds_require _ _).bind fun config2 => ?_
  cases findStaking s owner productId with
  | none =>
      refine (inBounds_stakeNew _ _ _ _ _ _ _ _).bind fun _ => ?_
      simp [InBounds]
  | some found => exact inBounds_stakeMore _ _ _ _ _ _ _ _ _ _ _

theorem inBounds_bind_of_eq
    {β : Type} {f : α → Result β} {a : α} (hr : r = .ok a) :
    InBounds (r >>= f) ↔ InBounds (f a) := by
  rw [hr]
  rfl

theorem exists_field
    {event : List Text} {i : Nat} (h : i < event.length) : ∃ text, field event i = .ok text :=
  ⟨event[i], demandSome_eq_ok_iff.mpr (List.getElem?_eq_getElem h)⟩

variable {event : List Text}

theorem inBounds_predictionField : InBounds (predictionField event) := by
  unfold predictionField
  split_ifs with h
  · exact inBounds_field_iff.mpr h
  · simp [InBounds]

theorem inBounds_stakeProduct (h : 2 ≤ event.length) : InBounds (stakeProduct event) := by
  unfold stakeProduct
  exact (inBounds_field_iff.mpr h).bind fun _ => inBounds_of_clean (clean_nameOfText _)

/-- The position of a bet is read after its number. -/
theorem inBounds_betTarget_iff (h : 2 ≤ event.length) :
    InBounds (betTarget event) ↔
      ((∃ number, field event 1 = .ok number ∧ Succeeds (stoull number)) →
        3 ≤ event.length) := by
  obtain ⟨number, hnumber⟩ := exists_field (show 1 < event.length from h)
  unfold betTarget
  rw [inBounds_bind_of_eq hnumber]
  constructor
  · rintro hread ⟨number', hnumber', betId, hbetId⟩
    obtain rfl := Except.ok.inj (hnumber.symm.trans hnumber')
    rw [inBounds_bind_of_eq hbetId] at hread
    exact inBounds_field_iff.mp (failsOnly_bind_iff.mp hread).1
  · intro hlong
    refine failsOnly_bind_iff.mpr ⟨inBounds_of_clean (clean_stoull _), ?_⟩
    intro betId hbetId
    have hthree := hlong ⟨number, hnumber, betId, hbetId⟩
    refine (inBounds_field_iff.mpr hthree).bind fun _ => ?_
    simp [InBounds]

/-- The handler reads past the fields only for the position of a bet. -/
theorem inBounds_transferEvent_iff [Doubles]
    {env : Env} {ctx : Ctx} {s : State} {firstReceiver source dest : Name} {quantity : Asset}
    {memo : Text} (hin : Incoming env source dest) :
    InBounds (transferEvent env ctx s firstReceiver source dest quantity memo) ↔
      (Operation memo "bet" → InBounds (betTarget (memoParser memo))) := by
  have htwo := two_le_length_memoParser memo
  obtain ⟨operation, hop⟩ := exists_field (show 0 < (memoParser memo).length by omega)
  have hbet : Operation memo "bet" ↔ operation = "bet".toList := by
    rw [Operation, hop, Except.ok.injEq]
  unfold transferEvent
  rw [if_neg (not_not.mpr hin.1), if_neg hin.2]
  dsimp only
  rw [hbet, inBounds_bind_of_eq hop]
  split_ifs with hstake hbet' hdeposit hexchange hlong
  · subst hstake
    refine iff_of_true ?_ fun h => absurd h (by decide)
    refine inBounds_predictionField.bind fun _ => ?_
    refine (inBounds_of_clean (clean_nameOfText _)).bind fun _ => ?_
    exact (inBounds_stakeProduct htwo).bind fun _ => inBounds_stake _ _ _ _ _ _ _
  · constructor
    · intro h _
      exact (failsOnly_bind_iff.mp h).1
    · intro h
      refine (h hbet').bind ?_
      rintro ⟨betId, position⟩
      refine inBounds_of_clean ?_
      simp
  · refine iff_of_true ?_ fun h => absurd h hbet'
    refine (inBounds_check _).bind fun _ => inBounds_of_clean ?_
    simp
  · refine iff_of_true ?_ fun h => absurd h hbet'
    refine (inBounds_check _).bind fun _ => ?_
    refine (inBounds_field_iff.mpr (by omega)).bind fun _ => ?_
    refine (inBounds_of_clean (clean_codeOfText _)).bind fun _ => ?_
    refine (inBounds_field_iff.mpr hlong).bind fun _ => ?_
    refine (inBounds_of_clean (clean_assetFromString _)).bind fun _ => ?_
    exact inBounds_of_clean (clean_memoexchange _ _ _ _ _ _)
  · refine iff_of_true ?_ fun h => absurd h hbet'
    refine (inBounds_check _).bind fun _ => ?_
    simp [InBounds]
  · refine iff_of_true ?_ fun h => absurd h hbet'
    simp [InBounds]

/-- The memos that make a bet without a position -/
def BetWithoutPosition (memo : Text) : Prop :=
  ∃ number, memo = "bet/".toList ++ number ∧ '/' ∉ number ∧ Succeeds (stoull number)

theorem not_succeeds_stoull_bet : ¬ Succeeds (stoull "bet".toList) := by
  rw [succeeds_iff_isOk]
  decide

/-- A bet has two fields and a number exactly if its memo has one slash and a number behind it. -/
theorem betWithoutPosition_iff
    {memo : Text} : BetWithoutPosition memo ↔
      Operation memo "bet" ∧ (memoParser memo).length = 2 ∧
        ∃ number, field (memoParser memo) 1 = .ok number ∧ Succeeds (stoull number) := by
  constructor
  · rintro ⟨number, rfl, hnumber, hvalue⟩
    have hparser : memoParser ("bet/".toList ++ number) = ["bet".toList, number] := by
      have hmemo : "bet/".toList ++ number = "bet".toList ++ '/' :: number := rfl
      have hmem : '/' ∈ "bet/".toList ++ number := by
        rw [hmemo]
        simp
      rw [(memoParser_of_mem hmem).2, hmemo,
        List.splitOn_append_cons_self_of_not_mem (by decide), List.splitOn_eq_singleton hnumber]
    rw [Operation, hparser]
    exact ⟨rfl, rfl, number, rfl, hvalue⟩
  · rintro ⟨hop, hlength, number, hnumber, hvalue⟩
    by_cases h : '/' ∈ memo
    · have hsplit := isSplit_iff.mpr (memoParser_of_mem h).2
      obtain ⟨first, second, htwo⟩ := List.length_eq_two.mp hlength
      rw [htwo] at hsplit hnumber
      rw [Operation, htwo] at hop
      obtain rfl := Except.ok.inj hop
      obtain rfl := Except.ok.inj hnumber
      refine ⟨second, ?_, hsplit.not_mem second (by simp), hvalue⟩
      rw [← hsplit.joined, List.intercalate_cons_cons, List.intercalate_singleton]
      rfl
    · rw [Operation, (memoParser_of_not_mem h).2] at hop
      rw [(memoParser_of_not_mem h).2] at hnumber
      obtain rfl := Except.ok.inj hop
      obtain rfl := Except.ok.inj hnumber
      exact absurd hvalue not_succeeds_stoull_bet

/-- The handler stays within the fields of every memo but `bet/` with a number alone. -/
theorem memo_fields_in_bounds_iff [Doubles]
    {env : Env} {ctx : Ctx} {s : State} {firstReceiver source dest : Name} {quantity : Asset}
    {memo : Text} (hin : Incoming env source dest) :
    transferEvent env ctx s firstReceiver source dest quantity memo ≠ .error .outOfBounds ↔
      ¬ BetWithoutPosition memo := by
  have htwo := two_le_length_memoParser memo
  rw [← inBounds_iff_ne, inBounds_transferEvent_iff hin, inBounds_betTarget_iff htwo,
    betWithoutPosition_iff]
  constructor
  · rintro h ⟨hop, hlength, hnumber⟩
    have hthree := h hop hnumber
    omega
  · intro h hop hnumber
    by_contra hshort
    exact h ⟨hop, by omega, hnumber⟩

open Binary64

/-- A bet of alice without number and position is refused without such an access. -/
theorem memo_fields_in_bounds_iff_sample :
    transferEvent sampleEnv (sampleCtx 1000 "alice") State.empty ledTokenContract
      (nameLiteral "alice") (nameLiteral "lemonade.c") ⟨10000, ledSymbol⟩ "bet".toList ≠
        .error .outOfBounds := by
  refine (memo_fields_in_bounds_iff (by decide)).mpr ?_
  rintro ⟨number, hmemo, -⟩
  cases hmemo

/-- The position of the bet of alice is read past the end of its two fields. -/
theorem bet_position_out_of_bounds :
    ¬ ∀ (env : Env) (ctx : Ctx) (s : State) (firstReceiver source dest : Name) (quantity : Asset)
        (memo : Text), Incoming env source dest →
      transferEvent env ctx s firstReceiver source dest quantity memo ≠ .error .outOfBounds := by
  intro hall
  refine hall sampleEnv (sampleCtx 1000 "alice") State.empty ledTokenContract (nameLiteral "alice")
    (nameLiteral "lemonade.c") ⟨10000, ledSymbol⟩ "bet/1".toList (by decide) ?_
  rfl

end Bounds

end Lemonade
