import Lemonade.Safety.CheckedArithmetic
import Mathlib.Data.Nat.Digits.Defs
import Mathlib.Tactic

/-!
# Decimal numerals

The loops of utils.hpp over decimal digits run in checked 64-bit arithmetic.  `to_int`
computes one power of ten past the last digit, so it reads numerals of at most 18 digits;
within that limit its result is the value of the numeral.
-/

namespace Lemonade

open Kernel

section Digits

/-- The value of a decimal digit. -/
def digitOf (c : Char) : Nat := c.toNat - '0'.toNat

variable {c : Char} {digits : Text}

theorem isDigit_iff : c.isDigit = true ↔ c ≤ '9' ∧ '0' ≤ c := by
  rw [Char.isDigit, Bool.and_eq_true, decide_eq_true_eq, decide_eq_true_eq, and_comm]
  rfl

theorem digitOf_lt (h : c.isDigit = true) : digitOf c < 10 := by
  have hle : c.toNat ≤ '9'.toNat := (isDigit_iff.mp h).1
  unfold digitOf
  have hnine : '9'.toNat = 57 := rfl
  have hzero : '0'.toNat = 48 := rfl
  omega

/-- The value of a numeral as Mathlib reads it, the last digit first. -/
theorem digitsValue_eq_ofDigits (digits : Text) :
    digitsValue digits = Nat.ofDigits 10 (digits.reverse.map digitOf) := by
  have hfoldr : ∀ l : Text, l.foldr (fun c value => value * 10 + (c.toNat - '0'.toNat)) 0 =
      Nat.ofDigits 10 (l.map digitOf) := by
    intro l
    induction l with
    | nil => rfl
    | cons c l ih =>
        rw [List.foldr_cons, ih, List.map_cons, Nat.ofDigits_cons, digitOf]
        ring
  rw [digitsValue, ← hfoldr, List.foldr_reverse]

theorem digitsValue_append (whole fraction : Text) :
    digitsValue (whole ++ fraction) =
      digitsValue whole * 10 ^ fraction.length + digitsValue fraction := by
  rw [digitsValue_eq_ofDigits, List.reverse_append, List.map_append, Nat.ofDigits_append,
    List.length_map, List.length_reverse, ← digitsValue_eq_ofDigits, ← digitsValue_eq_ofDigits]
  ring

theorem digitsValue_lt (h : ∀ c ∈ digits, c.isDigit = true) :
    digitsValue digits < 10 ^ digits.length := by
  rw [digitsValue_eq_ofDigits]
  have hlt := Nat.ofDigits_lt_base_pow_length (b := 10) (l := digits.reverse.map digitOf)
    (by norm_num) ?_
  · simpa using hlt
  · intro d hd
    obtain ⟨c, hc, rfl⟩ := List.mem_map.mp hd
    exact digitOf_lt (h c (List.mem_reverse.mp hc))

end Digits

section Loops

variable {l : Text} {k n : ℕ} {res p r : Int64}

theorem exists_toInt_eq {n : ℤ} (h : FitsInt64 n) : ∃ a : Int64, a.toInt = n :=
  ⟨Int64.ofInt n, Int64.toInt_ofInt_of_le h.1 h.2⟩

theorem safeMul_eq_ok_iff {a b : Int64} : safeMul a b = .ok r ↔ r.toInt = a.toInt * b.toInt :=
  (checked_safeMul a b).ok_iff

theorem safeAdd_eq_ok_iff {a b : Int64} : safeAdd a b = .ok r ↔ r.toInt = a.toInt + b.toInt :=
  (checked_safeAdd a b).ok_iff

/-- A power of ten that is a 64-bit integer has an exponent of at most 18. -/
theorem le_18_of_toInt (h : r.toInt = 10 ^ k) : k ≤ 18 := by
  by_contra hk
  have hpow : (10 : ℤ) ^ 19 ≤ 10 ^ k := pow_le_pow_right₀ (by norm_num) (by omega)
  have hlt := r.toInt_lt
  rw [h] at hlt
  norm_num at hpow
  omega

theorem fitsInt64_of_le_pow {n : ℤ} (hk : k ≤ 18) (h0 : 0 ≤ n) (hn : n ≤ 10 ^ k) :
    FitsInt64 n := by
  have hpow : (10 : ℤ) ^ k ≤ 10 ^ 18 := pow_le_pow_right₀ (by norm_num) hk
  unfold FitsInt64
  norm_num at hpow
  omega

theorem toInt_digit {c : Char} (h : c.isDigit = true) :
    (Int64.ofNat (c.toNat - '0'.toNat)).toInt = digitOf c := by
  have hlt := digitOf_lt h
  exact Int64.toInt_ofNat_of_lt (by unfold digitOf at hlt; omega)

/-- One round of the loop of `to_int`, in integers. -/
theorem toIntLoop_cons_eq_ok_iff {c : Char} :
    toIntLoop (c :: l) res p = .ok r ↔
      c.isDigit = true ∧ ∃ res' p' : Int64,
        res'.toInt = res.toInt + p.toInt * digitOf c ∧ p'.toInt = p.toInt * 10 ∧
          FitsInt64 (p.toInt * digitOf c) ∧ toIntLoop l res' p' = .ok r := by
  have hten : (10 : Int64).toInt = 10 := rfl
  simp only [toIntLoop, bind_eq_ok_iff, check_eq_ok_iff, safeMul_eq_ok_iff, safeAdd_eq_ok_iff,
    hten, ← isDigit_iff]
  constructor
  · rintro ⟨_, hc, d, hd, res', hres, p', hp, h⟩
    rw [toInt_digit hc] at hd
    rw [hd] at hres
    exact ⟨hc, res', p', hres, hp, hd ▸ fitsInt64_toInt d, h⟩
  · rintro ⟨hc, res', p', hres, hp, hfits, h⟩
    obtain ⟨d, hd⟩ := exists_toInt_eq hfits
    exact ⟨⟨⟩, hc, d, by rw [hd, toInt_digit hc], res', by rw [hd, hres], p', hp, h⟩

/-- The loop of `to_int` behind `k` digits: it adds the value of the other digits, and has a
result while all digits together are at most 18. -/
theorem toIntLoop_eq_ok_iff
    (hp : p.toInt = 10 ^ k) (hres : 0 ≤ res.toInt) (hlt : res.toInt < 10 ^ k) :
    toIntLoop l res p = .ok r ↔
      (∀ c ∈ l, c.isDigit = true) ∧ k + l.length ≤ 18 ∧
        r.toInt = res.toInt + 10 ^ k * (Nat.ofDigits 10 (l.map digitOf) : ℕ) := by
  induction l generalizing k res p with
  | nil =>
      constructor
      · intro h
        obtain rfl := Except.ok.inj h
        exact ⟨by simp, le_18_of_toInt hp, by simp⟩
      · rintro ⟨-, -, hr⟩
        have hsame : res.toInt = r.toInt := by simpa using hr.symm
        rw [toIntLoop, Int64.toInt_inj.mp hsame]
  | cons c l ih =>
      rw [toIntLoop_cons_eq_ok_iff, hp]
      have hstep : ∀ {res' p' : Int64}, c.isDigit = true →
          res'.toInt = res.toInt + 10 ^ k * digitOf c → p'.toInt = 10 ^ k * 10 →
          (toIntLoop l res' p' = .ok r ↔ (∀ c ∈ l, c.isDigit = true) ∧ k + 1 + l.length ≤ 18 ∧
            r.toInt = res.toInt + 10 ^ k * (Nat.ofDigits 10 ((c :: l).map digitOf) : ℕ)) := by
        intro res' p' hc hres' hp'
        have hdigit := digitOf_lt hc
        rw [ih (k := k + 1) (by rw [hp', pow_succ]) (by rw [hres']; positivity)
          (by rw [hres', pow_succ]; nlinarith), hres', List.map_cons, Nat.ofDigits_cons]
        push_cast
        ring_nf
      have hlength : k + (c :: l).length = k + 1 + l.length := by
        rw [List.length_cons]
        omega
      rw [List.forall_mem_cons, hlength, and_assoc]
      constructor
      · rintro ⟨hc, res', p', hres', hp', -, h⟩
        exact ⟨hc, (hstep hc hres' hp').mp h⟩
      · rintro ⟨hc, h⟩
        have hdigit := digitOf_lt hc
        have hk : k + 1 ≤ 18 := by omega
        have hpow : (10 : ℤ) ^ (k + 1) = 10 ^ k * 10 := pow_succ 10 k
        obtain ⟨res', hres'⟩ := exists_toInt_eq
          (fitsInt64_of_le_pow (n := res.toInt + 10 ^ k * digitOf c) hk (by positivity)
            (by rw [hpow]; nlinarith))
        obtain ⟨p', hp'⟩ := exists_toInt_eq
          (fitsInt64_of_le_pow (n := 10 ^ k * 10) hk (by positivity) hpow.ge)
        refine ⟨hc, res', p', hres', hp', ?_, (hstep hc hres' hp').mpr h⟩
        exact fitsInt64_of_le_pow hk (by positivity) (by rw [hpow]; nlinarith)

/-- `to_int` reads the numerals of at most 18 digits. -/
theorem parseInt_eq_ok_iff {digits : Text} :
    parseInt digits = .ok r ↔
      (∀ c ∈ digits, c.isDigit = true) ∧ digits.length ≤ 18 ∧ r.toInt = digitsValue digits := by
  have hloop : toIntLoop digits.reverse 0 1 = .ok r ↔ _ :=
    toIntLoop_eq_ok_iff (k := 0) rfl (le_refl 0) (by decide)
  rw [parseInt, hloop, digitsValue_eq_ofDigits]
  simp

/-- The power of ten has a result while it is a 64-bit integer. -/
theorem powerOfTen_eq_ok_iff (hp : p.toInt = 10 ^ k) :
    powerOfTen n p = .ok r ↔ r.toInt = 10 ^ (k + n) := by
  have hten : (10 : Int64).toInt = 10 := rfl
  induction n generalizing k p with
  | zero =>
      rw [powerOfTen, Except.ok.injEq, ← Int64.toInt_inj, hp, eq_comm]
      rfl
  | succ n ih =>
      simp only [powerOfTen, bind_eq_ok_iff, safeMul_eq_ok_iff, hp, hten]
      have hnext : ∀ p' : Int64, p'.toInt = 10 ^ k * 10 →
          (powerOfTen n p' = .ok r ↔ r.toInt = 10 ^ (k + (n + 1))) := by
        intro p' hp'
        have hpow : p'.toInt = 10 ^ (k + 1) := by rw [hp', pow_succ]
        have hrest := ih hpow
        rwa [Nat.add_assoc, Nat.add_comm 1 n] at hrest
      constructor
      · rintro ⟨p', hp', h⟩
        exact (hnext p' hp').mp h
      · intro h
        have hk := le_18_of_toInt h
        obtain ⟨p', hp'⟩ := exists_toInt_eq
          (fitsInt64_of_le_pow (n := 10 ^ k * 10) (show k + 1 ≤ 18 by omega) (by positivity)
            (pow_succ 10 k).ge)
        exact ⟨p', hp', (hnext p' hp').mpr h⟩

/-- The scale of an asset with at most 18 decimals. -/
theorem precisionFromDecimals_eq_ok_iff (hn : n ≤ 18) :
    precisionFromDecimals (UInt8.ofNat n).toInt8 = .ok r ↔ r.toInt = 10 ^ n := by
  have hdecimals : (UInt8.ofNat n).toInt8 ≤ 18 ∧ (UInt8.ofNat n).toInt8.toInt.toNat = n := by
    interval_cases n <;> decide
  rw [precisionFromDecimals, hdecimals.2]
  simp only [bind_eq_ok_iff, check_eq_ok_iff, hdecimals.1, true_and, exists_const]
  have hpow := powerOfTen_eq_ok_iff (k := 0) (n := n) (p := 1) (r := r) rfl
  rwa [Nat.zero_add] at hpow

end Loops

end Lemonade
