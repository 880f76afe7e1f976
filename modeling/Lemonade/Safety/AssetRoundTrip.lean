import Lemonade.Contract.AssetText
import Lemonade.Safety.AssetParsing
import Mathlib.Tactic

/-!
# Reading an asset back

The text of an asset is a numeral with one digit before the point at least and all decimals
behind it, a space and the code.  It is in the grammar that `asset_from_string` reads unless
the part before the point has 19 digits, which an amount below 2^62 has only without
decimals.
-/

namespace Lemonade

open Kernel

theorem spaces_zero : spaces 0 = [] := rfl

section Spelling

variable {c : Char} {i k n p left number : ℕ} {text : Text}

/-- The last `k` digits of a number, the highest first. -/
def spell : ℕ → ℕ → Text
  | 0, _ => []
  | k + 1, n => spell k (n / 10) ++ [lastDigit n]

theorem toNat_ofNat_of_lt (h : n < 55296) : (Char.ofNat n).toNat = n := by
  rw [Char.ofNat, dif_pos (Or.inl h)]
  rfl

theorem toNat_lastDigit (n : ℕ) : (lastDigit n).toNat = n % 10 + 48 := by
  have hlt := Nat.mod_lt n (show 0 < 10 by norm_num)
  exact toNat_ofNat_of_lt (show n % 10 + 48 < 55296 by omega)

theorem isDigit_lastDigit (n : ℕ) : (lastDigit n).isDigit = true := by
  have hlt := Nat.mod_lt n (show 0 < 10 by norm_num)
  have hnat := toNat_lastDigit n
  rw [isDigit_iff]
  constructor
  · change (lastDigit n).toNat ≤ 57
    omega
  · change 48 ≤ (lastDigit n).toNat
    omega

theorem digitOf_lastDigit (n : ℕ) : digitOf (lastDigit n) = n % 10 := by
  rw [digitOf, toNat_lastDigit]
  exact Nat.add_sub_cancel (n % 10) 48

@[simp] theorem length_spell (k n : ℕ) : (spell k n).length = k := by
  induction k generalizing n with
  | zero => rfl
  | succ k ih => rw [spell, List.length_append, ih, List.length_singleton]

theorem isDigit_of_mem_spell (h : c ∈ spell k n) : c.isDigit = true := by
  induction k generalizing n with
  | zero => cases h
  | succ k ih =>
      rw [spell, List.mem_append, List.mem_singleton] at h
      rcases h with h | rfl
      · exact ih h
      · exact isDigit_lastDigit n

theorem digitsValue_spell (k n : ℕ) : digitsValue (spell k n) = n % 10 ^ k := by
  induction k generalizing n with
  | zero => simp [spell, digitsValue, Nat.mod_one]
  | succ k ih =>
      have hlast : digitsValue [lastDigit n] = n % 10 := by
        rw [digitsValue_eq_ofDigits]
        simp [digitOf_lastDigit]
      rw [spell, digitsValue_append, ih, hlast, List.length_singleton, pow_one, pow_succ',
        Nat.mod_mul]
      ring

theorem spell_zero (k : ℕ) : spell k 0 = List.replicate k '0' := by
  induction k with
  | zero => rfl
  | succ k ih =>
      rw [spell, Nat.zero_div, ih, List.replicate_succ']
      rfl

/-- Zeros up to the point. -/
theorem writeZeros_eq (k : ℕ) (text : Text) :
    writeZeros p (p + 1 + k) text = (p + 1, spell k 0 ++ text) := by
  induction k generalizing text with
  | zero =>
      rw [Nat.add_zero, writeZeros, if_neg (lt_irrefl p)]
      rfl
  | succ k ih =>
      rw [← Nat.add_assoc, writeZeros, if_pos (by omega), ih, spell_zero, spell_zero,
        List.replicate_succ', List.append_assoc]
      rfl

/-- Both loops behind the point together write the decimals, and pass on the rest. -/
theorem writeFraction_writeZeros (k number : ℕ) (text : Text) :
    (writeFraction p (p + 1 + k) number text).2.1 = number / 10 ^ k ∧
      writeZeros p (writeFraction p (p + 1 + k) number text).1
          (writeFraction p (p + 1 + k) number text).2.2 =
        (p + 1, spell k number ++ text) := by
  induction k generalizing number text with
  | zero =>
      have hstop : writeFraction p (p + 1 + 0) number text = (p + 1, number, text) := by
        rw [Nat.add_zero, writeFraction, if_neg fun h => lt_irrefl p h.2]
      rw [hstop]
      exact ⟨by simp, writeZeros_eq 0 text⟩
  | succ k ih =>
      rcases Nat.eq_zero_or_pos number with rfl | hpos
      · have hstop : writeFraction p (p + 1 + (k + 1)) 0 text = (p + 1 + (k + 1), 0, text) := by
          rw [← Nat.add_assoc, writeFraction, if_neg fun h => lt_irrefl 0 h.1]
        rw [hstop]
        exact ⟨by simp, writeZeros_eq (k + 1) text⟩
      · have hstep : writeFraction p (p + 1 + (k + 1)) number text =
            writeFraction p (p + 1 + k) (number / 10) (lastDigit number :: text) := by
          rw [← Nat.add_assoc, writeFraction, if_pos ⟨hpos, by omega⟩]
        obtain ⟨hrest, hzeros⟩ := ih (number / 10) (lastDigit number :: text)
        rw [hstep]
        refine ⟨?_, ?_⟩
        · rw [hrest, Nat.div_div_eq_div_mul, ← pow_succ']
        · rw [hzeros, spell, List.append_assoc]
          rfl

/-- The digits before the point. -/
theorem writeWhole_eq (k number : ℕ) (text : Text) :
    writeWhole 0 k number text = (0, spell k number ++ text) := by
  induction k generalizing number text with
  | zero => rfl
  | succ k ih =>
      rw [writeWhole, if_pos (Nat.zero_le k), ih, spell, List.append_assoc]
      rfl

end Spelling

section Decimal

variable {k n p : ℕ}

theorem numDigits_le_iff (hk : k < 20) : numDigits n ≤ k ↔ n < 10 ^ k := by
  have hlength : powersOfTen.length = 20 := rfl
  have hpower : ∀ i (hi : i < powersOfTen.length), powersOfTen[i] = 10 ^ i := by
    intro i hi
    simp [powersOfTen]
  constructor
  · intro h
    have hi : numDigits n < powersOfTen.length := by omega
    have hlt : n < powersOfTen[numDigits n] := of_decide_eq_true
      (List.findIdx_getElem (p := fun power => decide (n < power)) (w := hi))
    rw [hpower] at hlt
    exact hlt.trans_le (Nat.pow_le_pow_right (by norm_num) h)
  · intro h
    by_contra hnot
    have hbefore : k < powersOfTen.findIdx fun power => n < power := not_le.mp hnot
    have hno := List.not_of_lt_findIdx hbefore
    rw [hpower] at hno
    simp [h] at hno

/-- The number of digits before the point. -/
def wholeDigits (number p : ℕ) : ℕ :=
  if numDigits number ≤ p then 1 else numDigits number - p

theorem div_lt_pow_wholeDigits (hn : n < 10 ^ 19) : n / 10 ^ p < 10 ^ wholeDigits n p := by
  have hle : numDigits n ≤ 19 := (numDigits_le_iff (by norm_num)).mpr hn
  have hlt : n < 10 ^ numDigits n := (numDigits_le_iff (by omega)).mp (le_refl _)
  unfold wholeDigits
  split_ifs with h
  · have hsmall : n < 10 ^ p := hlt.trans_le (Nat.pow_le_pow_right (by norm_num) h)
    rw [Nat.div_eq_of_lt hsmall]
    norm_num
  · rw [Nat.div_lt_iff_lt_mul (by positivity), ← pow_add, Nat.sub_add_cancel (by omega)]
    exact hlt

/-- The digits before the point. -/
def writtenWhole (n p : ℕ) : Text := spell (wholeDigits n p) (n / 10 ^ p)

/-- The decimals behind the point, if there are any. -/
def writtenFraction (n p : ℕ) : Option Text := if 0 < p then some (spell p n) else none

theorem decimals_writtenFraction : decimals (writtenFraction n p) = spell p n := by
  unfold writtenFraction
  split_ifs with h
  · rfl
  · obtain rfl : p = 0 := by omega
    rfl

/-- Only without decimals does a number below 10^19 need 19 digits before the point. -/
theorem wholeDigits_le_iff (hn : n < 10 ^ 19) :
    wholeDigits n p ≤ 18 ↔ ¬ (p = 0 ∧ 10 ^ 18 ≤ n) := by
  have hle : numDigits n ≤ 19 := (numDigits_le_iff (by norm_num)).mpr hn
  have hlong : numDigits n ≤ 18 ↔ n < 10 ^ 18 := numDigits_le_iff (by norm_num)
  unfold wholeDigits
  split_ifs with h
  · refine iff_of_true (by norm_num) ?_
    rintro ⟨rfl, hlarge⟩
    have hshort := hlong.mp (h.trans (by norm_num))
    omega
  · rw [not_and, not_le, ← hlong]
    omega

@[simp] theorem length_writtenWhole (n p : ℕ) : (writtenWhole n p).length = wholeDigits n p :=
  length_spell _ _

theorem isDigit_writtenWhole (n p : ℕ) : ∀ c ∈ writtenWhole n p, c.isDigit = true :=
  fun _ => isDigit_of_mem_spell

theorem isDigit_writtenFraction (n p : ℕ) :
    ∀ c ∈ decimals (writtenFraction n p), c.isDigit = true := by
  rw [decimals_writtenFraction]
  exact fun _ => isDigit_of_mem_spell

theorem wholeDigits_pos (n p : ℕ) : 0 < wholeDigits n p := by
  unfold wholeDigits
  split_ifs
  · exact one_pos
  · omega

/-- The positions that `write_decimal` computes before the point counts. -/
theorem charactersNeeded_eq (n p : ℕ) :
    (if numDigits n ≤ p then (max (numDigits n) p + 1, 1)
      else (max (numDigits n) p, numDigits n - p)) = (wholeDigits n p + p, wholeDigits n p) := by
  unfold wholeDigits
  split_ifs with h
  · rw [max_eq_right h, Nat.add_comm 1 p]
  · rw [max_eq_left (by omega), Nat.sub_add_cancel (by omega)]

theorem writeFraction_stop (h : 0 < k) (n : ℕ) (text : Text) :
    writeFraction k k n text = (k, n, text) ∧ writeZeros k k text = (k, text) := by
  obtain ⟨i, rfl⟩ := Nat.exists_eq_succ_of_ne_zero h.ne'
  refine ⟨?_, ?_⟩
  · rw [writeFraction, if_neg fun hlt => by omega]
  · rw [writeZeros, if_neg (by omega)]

/-- A number is written with its digits before the point and `p` digits behind it. -/
theorem writeDecimal_eq (n p : ℕ) :
    writeDecimal n p false =
      writtenAmount (writtenWhole n p) (writtenFraction n p) := by
  have hpos := wholeDigits_pos n p
  simp only [writeDecimal, charactersNeeded_eq, Bool.false_eq_true, if_false]
  rcases Nat.eq_zero_or_pos p with rfl | hp
  · obtain ⟨hfraction, hzeros⟩ := writeFraction_stop hpos n []
    rw [if_neg (lt_irrefl 0), Nat.add_zero, hfraction]
    simp only [hzeros, Nat.left_eq_add, one_ne_zero, if_false, writeWhole_eq]
    simp [writtenAmount, writtenWhole, writtenFraction]
  · have hleft : wholeDigits n p + p + 1 = wholeDigits n p + 1 + p := by omega
    rw [if_pos hp, hleft]
    obtain ⟨hrest, hzeros⟩ := writeFraction_writeZeros (p := wholeDigits n p) p n []
    generalize writeFraction (wholeDigits n p) (wholeDigits n p + 1 + p) n [] = written at *
    obtain ⟨left, rest, text⟩ := written
    dsimp only at hrest hzeros
    simp only [hrest, hzeros, if_true, Nat.add_sub_cancel, writeWhole_eq]
    simp [writtenAmount, writtenWhole, writtenFraction, hp]

example : writeDecimal 5 2 true = "-0.05".toList ∧ writeDecimal 0 0 false = "0".toList := by
  decide +kernel

end Decimal

section Code

variable {n v : ℕ}

theorem eq_zero_of_onlyZeroBytes
    (h : onlyZeroBytes n v = true) (hmod : v % 256 = 0) (hlt : v < 256 ^ (n + 1)) : v = 0 := by
  induction n generalizing v with
  | zero => omega
  | succ n ih =>
      rw [onlyZeroBytes, Bool.and_eq_true, decide_eq_true_eq] at h
      rw [pow_succ] at hlt
      have hdiv : v / 256 = 0 := ih h.2 h.1 (by omega)
      omega

theorem byte_bounds_of_validBytes (h : validBytes (n + 1) v = true) :
    'A'.toNat ≤ v % 256 ∧ v % 256 ≤ 'Z'.toNat := by
  by_contra hnot
  rw [validBytes, if_neg hnot] at h
  cases h

theorem div_of_validBytes (h : validBytes (n + 1) v = true) (hlt : v < 256 ^ (n + 1)) :
    v / 256 = 0 ∨ validBytes n (v / 256) = true := by
  have hbyte := byte_bounds_of_validBytes h
  rw [validBytes, if_pos hbyte] at h
  split_ifs at h with hzero
  · refine Or.inl (eq_zero_of_onlyZeroBytes h hzero ?_)
    rw [pow_succ]
    have hle := Nat.div_le_self v 256
    omega
  · exact Or.inr h

/-- The bytes of a valid code are letters, and the loop writes all of them. -/
theorem codeChars_spells (h : v = 0 ∨ validBytes n v = true) (hlt : v < 256 ^ n) :
    (∀ c ∈ codeChars n v, IsCodeLetter c) ∧ (codeChars n v).length ≤ n ∧
      packCode (codeChars n v) = v := by
  induction n generalizing v with
  | zero =>
      obtain rfl : v = 0 := by omega
      exact ⟨List.forall_mem_nil _, le_refl _, rfl⟩
  | succ n ih =>
      rcases h with rfl | h
      · exact ⟨List.forall_mem_nil _, Nat.zero_le _, rfl⟩
      · have hbyte : 65 ≤ v % 256 ∧ v % 256 ≤ 90 := byte_bounds_of_validBytes h
        have hnat : (Char.ofNat (v % 256)).toNat = v % 256 := toNat_ofNat_of_lt (by omega)
        have hletter : IsCodeLetter (Char.ofNat (v % 256)) := by
          change 65 ≤ (Char.ofNat (v % 256)).toNat ∧ (Char.ofNat (v % 256)).toNat ≤ 90
          rwa [hnat]
        have hcons : codeChars (n + 1) v = Char.ofNat (v % 256) :: codeChars n (v / 256) := by
          rw [codeChars, if_neg (by omega)]
        obtain ⟨hletters, hlength, hpack⟩ :=
          ih (div_of_validBytes h hlt) (by rw [pow_succ] at hlt; omega)
        obtain ⟨hmod, hdiv⟩ := packCode_cons hletter (codeChars n (v / 256))
        rw [hcons]
        refine ⟨List.forall_mem_cons.mpr ⟨hletter, hletters⟩, Nat.succ_le_succ hlength, ?_⟩
        rw [hnat] at hmod
        rw [hpack] at hdiv
        omega

variable {s : Symbol}

theorem Symbol.toNat_code (s : Symbol) : s.code.raw.toNat = s.raw.toNat / 256 := by
  rw [Symbol.code, UInt64.toNat_shiftRight]
  change s.raw.toNat >>> 8 = _
  rw [Nat.shiftRight_eq_div_pow]

theorem Symbol.toNat_precision (s : Symbol) : s.precision.toNat = s.raw.toNat % 256 := by
  rw [Symbol.precision, UInt64.toNat_toUInt8]

theorem Symbol.toNat_code_lt (s : Symbol) : s.code.raw.toNat < 2 ^ 56 := by
  have hlt := s.raw.toNat_lt
  rw [s.toNat_code]
  omega

/-- A symbol is its code and its precision. -/
theorem Symbol.ofCode_code (s : Symbol) : Symbol.ofCode s.code s.precision = s := by
  have hraw := toNat_ofCode s.toNat_code_lt s.precision
  rw [s.toNat_code, s.toNat_precision] at hraw
  have hsame : (Symbol.ofCode s.code s.precision).raw = s.raw := by
    rw [← UInt64.toNat_inj, hraw]
    omega
  exact congrArg Symbol.mk hsame

/-- A valid code is written as its letters. -/
theorem Symbol.isCode_writeAsString (h : s.isValid = true) :
    IsCode s.code.writeAsString ∧ packCode s.code.writeAsString = s.code.raw.toNat := by
  obtain ⟨hletters, hlength, hpack⟩ := codeChars_spells (Or.inr h) s.toNat_code_lt
  refine ⟨⟨hletters, ?_, hlength⟩, hpack⟩
  intro hnil
  have hbyte : 65 ≤ s.code.raw.toNat % 256 ∧ _ := byte_bounds_of_validBytes h
  rw [SymbolCode.writeAsString] at hnil
  rw [hnil] at hpack
  have hzero : packCode [] = 0 := rfl
  omega

end Code

section RoundTrip

variable {a : Asset} {n p : ℕ}

theorem AmountInRange.natAbs_lt {amount : Int64} (h : AmountInRange amount) :
    amount.toInt.natAbs < 10 ^ 19 := by
  obtain ⟨hlow, hhigh⟩ := h
  unfold maxAmount at hlow hhigh
  omega

/-- The digits before the point, the digits behind it, and the code. -/
theorem writeAsString_eq (hnonneg : 0 ≤ a.amount.toInt) :
    a.writeAsString =
      writtenAmount
          (writtenWhole a.amount.toInt.natAbs a.symbol.precision.toNat)
          (writtenFraction a.amount.toInt.natAbs a.symbol.precision.toNat) ++
        spaces 1 ++ a.symbol.code.writeAsString := by
  have hnegative : ¬ a.amount < 0 := by
    rw [Int64.lt_iff_toInt_lt]
    exact not_lt.mpr hnonneg
  rw [Asset.writeAsString, decide_eq_false hnegative, writeDecimal_eq, List.append_assoc]
  rfl

/-- The digits that are written spell the number. -/
theorem digitsValue_written (hn : n < 10 ^ 19) :
    digitsValue (writtenWhole n p ++ decimals (writtenFraction n p)) = n := by
  rw [writtenWhole, decimals_writtenFraction, digitsValue_append, digitsValue_spell,
    digitsValue_spell, length_spell, Nat.mod_eq_of_lt (div_lt_pow_wholeDigits hn)]
  exact Nat.div_add_mod' n (10 ^ p)

theorem isNumeral_written_iff (hn : n < 10 ^ 19) (hp : p ≤ 18) :
    IsNumeral (writtenWhole n p) (writtenFraction n p) ↔
      ¬ (p = 0 ∧ 10 ^ 18 ≤ n) := by
  rw [← wholeDigits_le_iff hn]
  constructor
  · intro h
    have hlength := h.whole_length
    rwa [length_writtenWhole] at hlength
  · intro h
    have hdecimals := decimals_writtenFraction (n := n) (p := p)
    refine ⟨isDigit_writtenWhole n p, by rwa [length_writtenWhole], isDigit_writtenFraction n p,
      by rwa [hdecimals, length_spell], ?_⟩
    unfold writtenFraction
    split_ifs with hpos
    · intro hnil
      have hlength := length_spell p n
      rw [Option.some.inj hnil] at hlength
      exact hpos.ne hlength
    · simp

/-- The text stands for the asset that it was written from. -/
theorem denotes_written (hvalid : a.IsValid) (hnonneg : 0 ≤ a.amount.toInt) :
    Denotes a
      (writtenWhole a.amount.toInt.natAbs a.symbol.precision.toNat)
      (writtenFraction a.amount.toInt.natAbs a.symbol.precision.toNat)
      a.symbol.code.writeAsString := by
  obtain ⟨-, hpack⟩ := Symbol.isCode_writeAsString hvalid.2
  refine ⟨?_, ?_⟩
  · rw [digitsValue_written hvalid.1.natAbs_lt]
    exact (Int.natAbs_of_nonneg hnonneg).symm
  · rw [hpack, decimals_writtenFraction, length_spell, UInt64.ofNat_toNat, UInt8.ofNat_toNat]
    exact a.symbol.ofCode_code.symm

/-- The reader finds the numeral and the code that were written. -/
theorem assetFromString_writeAsString (hvalid : a.IsValid) (hnonneg : 0 ≤ a.amount.toInt)
    (hn : a.amount.toInt.natAbs = n) (hp : a.symbol.precision.toNat = p) :
    assetFromString a.writeAsString = .ok a ↔
      IsNumeral (writtenWhole n p) (writtenFraction n p) ∧
        (digitsValue (writtenWhole n p ++ decimals (writtenFraction n p)) : ℤ) ≤ maxAmount ∧
        Denotes a (writtenWhole n p) (writtenFraction n p) a.symbol.code.writeAsString := by
  obtain ⟨hcode, -⟩ := Symbol.isCode_writeAsString hvalid.2
  have hwhole := isDigit_writtenWhole n p
  have hspace := no_space_of_digits hwhole (isDigit_writtenFraction n p)
  have hne : writtenAmount (writtenWhole n p) (writtenFraction n p) ≠ [] := by
    refine writtenAmount_ne_nil fun _ => List.ne_nil_of_length_pos ?_
    rw [length_writtenWhole]
    exact wholeDigits_pos n p
  have hread := assetFromString_spelled hne hspace hcode 0 0 0
  rw [spaces_zero, List.nil_append, List.append_nil] at hread
  rw [writeAsString_eq hnonneg, hn, hp, hread,
    readAsset_eq_ok_iff (not_mem_of_digits hwhole rfl)]
  simp [hcode]

/-- An asset that was written is read again unless it has 19 digits and no decimals. -/
theorem asset_text_round_trip_iff (a : Asset) (hvalid : a.IsValid) (hnonneg : 0 ≤ a.amount)
    (hprecision : a.symbol.precision ≤ 18) :
    assetFromString a.writeAsString = .ok a ↔
      ¬ (a.symbol.precision = 0 ∧ 10 ^ 18 ≤ a.amount.toInt) := by
  have hamount : 0 ≤ a.amount.toInt := Int64.le_iff_toInt_le.mp hnonneg
  have hn := hvalid.1.natAbs_lt
  have hp : a.symbol.precision.toNat ≤ 18 := UInt8.le_iff_toNat_le.mp hprecision
  have hcondition : ¬ (a.symbol.precision = 0 ∧ 10 ^ 18 ≤ a.amount.toInt) ↔
      ¬ (a.symbol.precision.toNat = 0 ∧ 10 ^ 18 ≤ a.amount.toInt.natAbs) := by
    rw [← UInt8.toNat_inj]
    change ¬ (a.symbol.precision.toNat = 0 ∧ _) ↔ _
    omega
  have hle : (a.amount.toInt.natAbs : ℤ) ≤ maxAmount := by
    rw [Int.natAbs_of_nonneg hamount]
    exact hvalid.1.2
  have hdenotes := denotes_written hvalid hamount
  rw [hcondition, ← isNumeral_written_iff hn hp,
    assetFromString_writeAsString hvalid hamount rfl rfl,
    digitsValue_written hn]
  exact ⟨fun h => h.1, fun h => ⟨h, hle, hdenotes⟩⟩

/-- An asset of a token with the code ABC. -/
def sampleAsset (amount : Int64) (precision : UInt8) : Asset :=
  ⟨amount, Symbol.ofCode ⟨UInt64.ofNat (packCode "ABC".toList)⟩ precision⟩

theorem asset_text_round_trip_sample :
    assetFromString (sampleAsset 1250 4).writeAsString = .ok (sampleAsset 1250 4) :=
  (asset_text_round_trip_iff (sampleAsset 1250 4) (by decide +kernel) (by decide)
    (by decide +kernel)).mpr (by decide +kernel)

/-- The loop of `to_int` computes the power of ten after the last digit as well, and for the
19th digit it has no result. -/
theorem large_asset_text_not_read :
    (sampleAsset (10 ^ 18) 0).IsValid ∧ 0 ≤ (sampleAsset (10 ^ 18) 0).amount ∧
      (sampleAsset (10 ^ 18) 0).symbol.precision ≤ 18 ∧
      (sampleAsset (10 ^ 18) 0).writeAsString = "1000000000000000000 ABC".toList ∧
      ¬ Succeeds (assetFromString (sampleAsset (10 ^ 18) 0).writeAsString) := by
  rw [succeeds_iff_isOk]
  decide +kernel

end RoundTrip

end Lemonade
