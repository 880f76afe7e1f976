import Lemonade.Kernel.UnorderedPair
import Lemonade.Contract.Pools
import Mathlib.Tactic

/-!
# The keys of pairs of tokens

The index of pools finds a pair of tokens in either order.  Its key puts the
two tokens in the order of their 128-bit keys and packs the four words into a
checksum; both steps lose nothing but the order.
-/

namespace Lemonade

open Kernel

section Words

/-- The loop of `fixed_bytes::set_from_word_sequence` for words of 64 bits; two of them
make one word of the checksum. -/
def setFromWordSequence : List UInt64 → BitVec 128 → Nat → Result (List (BitVec 128))
  | [], tempWord, subWordsLeft =>
      if subWordsLeft ≠ 2 then
        .ok [if subWordsLeft > 1 then tempWord <<< (8 * (subWordsLeft - 1)) else tempWord]
      else
        .ok []
  | word :: rest, tempWord, subWordsLeft =>
      if subWordsLeft > 1 then
        setFromWordSequence rest ((tempWord ||| word.toBitVec.setWidth 128) <<< 64)
          (subWordsLeft - 1)
      else do
        check (subWordsLeft = 1) "unexpected error in fixed_bytes constructor"
        let data ← setFromWordSequence rest 0 2
        return (tempWord ||| word.toBitVec.setWidth 128) :: data

/-- `checksum256::make_from_word_sequence` -/
def makeFromWordSequence : Checksum256 → Result (List (BitVec 128))
  | (a, b, c, d) => setFromWordSequence [a, b, c, d] 0 2

/-- `(aa << 64) + bb` as it is computed in 128 bits -/
def make128word (a b : UInt64) : BitVec 128 :=
  (a.toBitVec.setWidth 128 <<< 64) + b.toBitVec.setWidth 128

variable {a b c d a' b' c' d' : UInt64}

theorem make128key_inj : make128key a b = make128key a' b' ↔ a = a' ∧ b = b' := by
  have hb := b.toNat_lt
  have hb' := b'.toNat_lt
  rw [← UInt64.toNat_inj, ← UInt64.toNat_inj]
  unfold make128key
  omega

theorem make128key_lt (a b : UInt64) : make128key a b < 2 ^ 128 := by
  have ha := a.toNat_lt
  have hb := b.toNat_lt
  unfold make128key
  omega

/-- Nothing is lost in 128 bits. -/
theorem toNat_make128word (a b : UInt64) : (make128word a b).toNat = make128key a b := by
  have hlt := make128key_lt a b
  have ha := a.toNat_lt
  have hb := b.toNat_lt
  unfold make128key at hlt
  simp [make128word, make128key, Nat.shiftLeft_eq]
  omega

/-- The low bits of the first word are free for the second. -/
theorem shiftLeft_or_word (a b : UInt64) :
    a.toBitVec.setWidth 128 <<< 64 ||| b.toBitVec.setWidth 128 = make128word a b := by
  have ha := a.toNat_lt
  have hb := b.toNat_lt
  have hor := Nat.shiftLeft_add_eq_or_of_lt (i := 64) hb a.toNat
  have hword := toNat_make128word a b
  apply BitVec.eq_of_toNat_eq
  have hshift : a.toNat <<< 64 < 2 ^ 128 := by
    rw [Nat.shiftLeft_eq]
    omega
  rw [hword, make128key, ← Nat.shiftLeft_eq, hor, BitVec.toNat_or, BitVec.toNat_shiftLeft,
    BitVec.toNat_setWidth, BitVec.toNat_setWidth, UInt64.toNat_toBitVec, UInt64.toNat_toBitVec,
    Nat.mod_eq_of_lt (by omega : a.toNat < 2 ^ 128), Nat.mod_eq_of_lt hshift,
    Nat.mod_eq_of_lt (by omega : b.toNat < 2 ^ 128)]

@[simp] theorem makeFromWordSequence_eq (a b c d : UInt64) :
    makeFromWordSequence (a, b, c, d) = .ok [make128word a b, make128word c d] := by
  simp [makeFromWordSequence, setFromWordSequence, shiftLeft_or_word]

theorem succeeds_makeFromWordSequence (words : Checksum256) :
    Succeeds (makeFromWordSequence words) := by
  obtain ⟨a, b, c, d⟩ := words
  exact ⟨_, makeFromWordSequence_eq a b c d⟩

theorem make128word_inj : make128word a b = make128word a' b' ↔ a = a' ∧ b = b' := by
  rw [← BitVec.toNat_inj, toNat_make128word, toNat_make128word, make128key_inj]

/-- No two sequences of four words give one checksum. -/
theorem makeFromWordSequence_injective : Function.Injective makeFromWordSequence := by
  rintro ⟨a, b, c, d⟩ ⟨a', b', c', d'⟩ h
  simp only [makeFromWordSequence_eq, Except.ok.injEq, List.cons.injEq, make128word_inj] at h
  obtain ⟨⟨rfl, rfl⟩, ⟨rfl, rfl⟩, -⟩ := h
  rfl

end Words

section PairKeys

variable {a b c d a' b' c' d' : UInt64}

/-- A token with its contract, as a pair of words, under its 128-bit key. -/
def tokenKey (token : UInt64 × UInt64) : Nat := make128key token.1 token.2

theorem tokenKey_injective : Function.Injective tokenKey := by
  rintro ⟨a, b⟩ ⟨a', b'⟩ h
  obtain ⟨rfl, rfl⟩ := make128key_inj.mp h
  rfl

/-- The words of two tokens in a row. -/
def pairWords (pair : (UInt64 × UInt64) × (UInt64 × UInt64)) : Checksum256 :=
  (pair.1.1, pair.1.2, pair.2.1, pair.2.2)

theorem pairWords_injective : Function.Injective pairWords := by
  rintro ⟨⟨a, b⟩, c, d⟩ ⟨⟨a', b'⟩, c', d'⟩ h
  cases h
  rfl

/-- `make256key` packs the two tokens in the order of their keys. -/
theorem make256key_eq_sortedPair (a b c d : UInt64) :
    make256key a b c d = pairWords (sortedPair tokenKey (a, b) (c, d)) := by
  unfold make256key sortedPair
  by_cases h : make128key a b < make128key c d
  · have htoken : tokenKey (a, b) < tokenKey (c, d) := h
    rw [if_pos h, if_pos htoken]
    rfl
  · have htoken : ¬ tokenKey (a, b) < tokenKey (c, d) := h
    rw [if_neg h, if_neg htoken]
    rfl

theorem make256key_eq_iff :
    make256key a b c d = make256key a' b' c' d' ↔
      s((a, b), (c, d)) = s((a', b'), (c', d')) := by
  rw [make256key_eq_sortedPair, make256key_eq_sortedPair, pairWords_injective.eq_iff,
    sortedPair_eq_iff tokenKey_injective]

/-- The keys of the source identify one token, and two tokens in either order. -/
theorem pair_keys_identify_unordered_pairs (a b c d a' b' c' d' : UInt64) :
    ((make128word a b).toNat = make128key a b) ∧
      (make128key a b = make128key a' b' ↔ a = a' ∧ b = b') ∧
      Succeeds (makeFromWordSequence (make256key a b c d)) ∧
      (makeFromWordSequence (make256key a b c d) =
          makeFromWordSequence (make256key a' b' c' d') ↔
        s((a, b), (c, d)) = s((a', b'), (c', d'))) := by
  refine ⟨toNat_make128word a b, make128key_inj, succeeds_makeFromWordSequence _, ?_⟩
  rw [makeFromWordSequence_injective.eq_iff]
  exact make256key_eq_iff

end PairKeys

end Lemonade
