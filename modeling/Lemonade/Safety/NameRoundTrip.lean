import Lemonade.Contract.NameText
import Mathlib.Data.List.DropRight
import Mathlib.Tactic

/-!
# Reading and writing names

A name is a number of thirteen digits, twelve of five bits and one of four, the highest first.
Both the reader and the writer leave out zeros at the end, so a name has one shortest text,
and every text of it is that one with dots behind it.
-/

namespace Lemonade

open Kernel

section Characters

variable {c : Char} {v : ℕ}

/-- A character that can stand in a name. -/
def IsNameChar (c : Char) : Prop := c = '.' ∨ '1' ≤ c ∧ c ≤ '5' ∨ 'a' ≤ c ∧ c ≤ 'z'

theorem charToValue_charAt (h : v < 32) : charToValue (charAt v) = .ok v := by
  interval_cases v <;> rfl

theorem charAt_of_charToValue (h : charToValue c = .ok v) : v < 32 ∧ charAt v = c := by
  have hdigit : ∀ n, 49 ≤ n → n ≤ 53 → charAt (n - 49 + 1) = Char.ofNat n := by
    intro n h1 h2
    interval_cases n <;> rfl
  have hletter : ∀ n, 97 ≤ n → n ≤ 122 → charAt (n - 97 + 6) = Char.ofNat n := by
    intro n h1 h2
    interval_cases n <;> rfl
  unfold charToValue at h
  split_ifs at h with h1 h2 h3
  · obtain rfl := Except.ok.inj h
    exact ⟨by norm_num, h1.symm⟩
  · obtain rfl := Except.ok.inj h
    have hlow : 49 ≤ c.toNat := h2.1
    have hhigh : c.toNat ≤ 53 := h2.2
    have hchar := hdigit c.toNat hlow hhigh
    rw [Char.ofNat_toNat] at hchar
    exact ⟨show c.toNat - 49 + 1 < 32 by omega, hchar⟩
  · obtain rfl := Except.ok.inj h
    have hlow : 97 ≤ c.toNat := h3.1
    have hhigh : c.toNat ≤ 122 := h3.2
    have hchar := hletter c.toNat hlow hhigh
    rw [Char.ofNat_toNat] at hchar
    exact ⟨show c.toNat - 97 + 6 < 32 by omega, hchar⟩

theorem charToValue_succeeds_iff : Succeeds (charToValue c) ↔ IsNameChar c := by
  unfold charToValue IsNameChar
  split_ifs with h1 h2 h3
  · exact iff_of_true ⟨_, rfl⟩ (Or.inl h1)
  · exact iff_of_true ⟨_, rfl⟩ (Or.inr (Or.inl h2))
  · exact iff_of_true ⟨_, rfl⟩ (Or.inr (Or.inr h3))
  · refine iff_of_false ?_ ?_
    · rintro ⟨_, h⟩
      cases h
    · rintro (h | h | h)
      · exact h1 h
      · exact h2 h
      · exact h3 h

end Characters

section Digits

variable {i : ℕ} {vs : List ℕ}

/-- The value of digits of a name from the place `i` on. -/
def placed : ℕ → List ℕ → ℕ
  | _, [] => 0
  | i, v :: vs => v * 2 ^ (59 - 5 * i) + placed (i + 1) vs

/-- The digits of a name from the place `i` on: five bits each, and four for the last. -/
structure Fits (i : ℕ) (vs : List ℕ) : Prop where
  length : i + vs.length ≤ 13
  digit : ∀ j v, vs[j]? = some v → v < if i + j = 12 then 16 else 32

theorem Fits.tail {v : ℕ} (h : Fits i (v :: vs)) :
    i < 13 ∧ v < (if i = 12 then 16 else 32) ∧ Fits (i + 1) vs := by
  have hlen := h.length
  rw [List.length_cons] at hlen
  refine ⟨by omega, h.digit 0 v rfl, by omega, ?_⟩
  intro j w hw
  have hj := h.digit (j + 1) w hw
  rw [show i + (j + 1) = i + 1 + j by omega] at hj
  exact hj

theorem Fits.lt_of_mem (h : Fits i vs) {v : ℕ} (hv : v ∈ vs) : v < 32 := by
  obtain ⟨j, hj⟩ := List.mem_iff_getElem?.mp hv
  have hdigit := h.digit j v hj
  split_ifs at hdigit
  · omega
  · exact hdigit

theorem Fits.initial {ws : List ℕ} (h : Fits i vs) (hws : ws <+: vs) : Fits i ws := by
  obtain ⟨rest, rfl⟩ := hws
  have hlen := h.length
  rw [List.length_append] at hlen
  refine ⟨by omega, ?_⟩
  intro j v hv
  refine h.digit j v ?_
  rw [List.getElem?_append_left (List.getElem?_eq_some_iff.mp hv).1]
  exact hv

/-- The digits behind a place are less than one unit of it. -/
theorem Fits.placed_lt (h : Fits i vs) : placed i vs < 2 ^ (64 - 5 * i) := by
  induction vs generalizing i with
  | nil =>
      rw [placed]
      positivity
  | cons v vs ih =>
      obtain ⟨hi, hv, htail⟩ := h.tail
      have hrest := ih htail
      rw [placed]
      rcases (Nat.lt_succ_iff.mp hi).eq_or_lt with rfl | hlt
      · rw [if_pos rfl] at hv
        norm_num at hrest ⊢
        omega
      · rw [if_neg hlt.ne] at hv
        rw [show 64 - 5 * (i + 1) = 59 - 5 * i by omega] at hrest
        calc v * 2 ^ (59 - 5 * i) + placed (i + 1) vs
            < (v + 1) * 2 ^ (59 - 5 * i) := by
              rw [add_mul, one_mul]
              exact Nat.add_lt_add_left hrest _
          _ ≤ 2 ^ 5 * 2 ^ (59 - 5 * i) := Nat.mul_le_mul_right _ hv
          _ = 2 ^ (64 - 5 * i) := by
              rw [← pow_add]
              congr 1
              omega

theorem placed_append (i : ℕ) (vs ws : List ℕ) :
    placed i (vs ++ ws) = placed i vs + placed (i + vs.length) ws := by
  induction vs generalizing i with
  | nil => simp [placed]
  | cons v vs ih =>
      have hplace : i + (v :: vs).length = i + 1 + vs.length := by
        rw [List.length_cons]
        omega
      rw [List.cons_append, placed, placed, ih, hplace]
      exact (Nat.add_assoc _ _ _).symm

/-- Every number is spelled by digits. -/
theorem exists_placed (k i x : ℕ) (hik : i + k = 13) (hx : x < 2 ^ (64 - 5 * i)) :
    ∃ vs, Fits i vs ∧ placed i vs = x := by
  induction k generalizing i x with
  | zero =>
      obtain rfl : i = 13 := hik
      norm_num at hx
      exact ⟨[], ⟨le_refl 13, by simp⟩, hx.symm⟩
  | succ k ih =>
      have hunit : 64 - 5 * (i + 1) = 59 - 5 * i := by omega
      obtain ⟨vs, hfits, hvs⟩ := ih (i + 1) (x % 2 ^ (59 - 5 * i)) (by omega) (by
        rw [hunit]
        exact Nat.mod_lt _ (by positivity))
      refine ⟨x / 2 ^ (59 - 5 * i) :: vs, ⟨?_, ?_⟩, ?_⟩
      · have hlen := hfits.length
        rw [List.length_cons]
        omega
      · intro j v hv
        cases j with
        | zero =>
            obtain rfl := Option.some.inj hv
            rw [Nat.div_lt_iff_lt_mul (by positivity)]
            split_ifs with hlast
            · obtain rfl : i = 12 := hlast
              norm_num at hx ⊢
              exact hx
            · refine hx.trans_le ?_
              rw [show 32 = 2 ^ 5 from rfl, ← pow_add]
              exact Nat.pow_le_pow_right (by norm_num) (by omega)
        | succ j =>
            have hj := hfits.digit j v hv
            rw [show i + 1 + j = i + (j + 1) by omega] at hj
            exact hj
      · rw [placed, hvs]
        exact Nat.div_add_mod' x _

end Digits

section Trimming

theorem rdropWhile_cons {α : Type*} (p : α → Bool) (a : α) (l : List α) :
    (a :: l).rdropWhile p =
      if p a = true ∧ l.rdropWhile p = [] then [] else a :: l.rdropWhile p := by
  induction l using List.reverseRecOn with
  | nil =>
      rw [List.rdropWhile_singleton, List.rdropWhile_nil]
      simp
  | append_singleton l x ih =>
      rw [← List.cons_append, List.rdropWhile_concat, List.rdropWhile_concat]
      by_cases hx : p x = true
      · rw [if_pos hx, if_pos hx, ih]
      · rw [if_neg hx, if_neg hx, if_neg fun h => by simp at h]
        rfl

/-- The digits of a number without the zeros at its end. -/
def stripped (vs : List ℕ) : List ℕ := vs.rdropWhile fun v => v = 0

theorem stripped_cons (v : ℕ) (vs : List ℕ) :
    stripped (v :: vs) = if v = 0 ∧ stripped vs = [] then [] else v :: stripped vs := by
  rw [stripped, rdropWhile_cons]
  exact if_congr (and_congr_left' decide_eq_true_iff) rfl rfl

theorem placed_stripped (i : ℕ) (vs : List ℕ) : placed i (stripped vs) = placed i vs := by
  induction vs generalizing i with
  | nil => rfl
  | cons v vs ih =>
      rw [stripped_cons, placed, ← ih]
      split_ifs with hzero
      · rw [hzero.1, hzero.2]
        simp [placed]
      · rfl

theorem placed_eq_zero_iff (i : ℕ) (vs : List ℕ) : placed i vs = 0 ↔ stripped vs = [] := by
  induction vs generalizing i with
  | nil => exact iff_of_true rfl rfl
  | cons v vs ih =>
      rw [stripped_cons, placed, Nat.add_eq_zero_iff, ih (i + 1), Nat.mul_eq_zero]
      simp

/-- A round of the writer takes off the highest digit. -/
theorem nameRound
    {i v rest : ℕ} (hi : i < 13) (hv : v < if i = 12 then 16 else 32)
    (hrest : rest < 2 ^ (64 - 5 * (i + 1))) :
    (v * 2 ^ (59 - 5 * i) + rest) * 2 ^ (5 * i) /
        2 ^ (if 13 - (i + 1) = 0 then 60 else 59) = v ∧
      (v * 2 ^ (59 - 5 * i) + rest) * 2 ^ (5 * i) * 2 ^ 5 % 2 ^ 64 =
        rest * 2 ^ (5 * (i + 1)) := by
  rcases (Nat.lt_succ_iff.mp hi).eq_or_lt with rfl | hlt
  · norm_num at hrest ⊢
    omega
  · have hshift : 2 ^ (59 - 5 * i) * 2 ^ (5 * i) = 2 ^ 59 := by
      rw [← pow_add]
      congr 1
      omega
    have hlow : rest * 2 ^ (5 * i) < 2 ^ 59 := by
      rw [← hshift]
      refine Nat.mul_lt_mul_of_pos_right (hrest.trans_eq ?_) (by positivity)
      congr 1
      omega
    have hvalue : (v * 2 ^ (59 - 5 * i) + rest) * 2 ^ (5 * i) =
        v * 2 ^ 59 + rest * 2 ^ (5 * i) := by
      rw [add_mul, mul_assoc, hshift]
    have hnext : rest * 2 ^ (5 * (i + 1)) = rest * 2 ^ (5 * i) * 2 ^ 5 := by
      rw [mul_assoc, ← pow_add]
      rfl
    rw [hvalue, hnext, if_neg (by omega)]
    omega

/-- A number of digits is written without the zeros at its end. -/
theorem nameChars_placed {i : ℕ} {vs : List ℕ} (h : Fits i vs) :
    nameChars (13 - i) (placed i vs * 2 ^ (5 * i)) = (stripped vs).map charAt := by
  induction vs generalizing i with
  | nil =>
      rw [placed, zero_mul]
      cases 13 - i <;> rfl
  | cons v vs ih =>
      obtain ⟨hi, hv, htail⟩ := h.tail
      have hrest := htail.placed_lt
      have hrounds : 13 - i = 13 - (i + 1) + 1 := by omega
      rw [hrounds, nameChars]
      have hzero : placed i (v :: vs) * 2 ^ (5 * i) = 0 ↔ stripped (v :: vs) = [] := by
        rw [Nat.mul_eq_zero, placed_eq_zero_iff]
        simp
      by_cases hnil : stripped (v :: vs) = []
      · rw [if_pos (hzero.mpr hnil), hnil]
        rfl
      · rw [if_neg (mt hzero.mp hnil)]
        rw [stripped_cons] at hnil ⊢
        rw [if_neg fun h => hnil (if_pos h), List.map_cons, ← ih htail, placed]
        have hround := nameRound hi hv hrest
        rw [hround.1, hround.2]

end Trimming

section Reading

variable {str : Text} {vs : List ℕ} {n : Name}

/-- The characters of a text stand for digits. -/
def Spells (str : Text) (vs : List ℕ) : Prop :=
  List.Forall₂ (fun c v => charToValue c = .ok v) str vs

theorem nameDigits_eq_ok_iff {value r : ℕ} :
    nameDigits str value = .ok r ↔
      ∃ vs, Spells str vs ∧ r = vs.foldl (fun value v => value * 32 + v) value := by
  induction str generalizing value with
  | nil =>
      constructor
      · intro h
        exact ⟨[], .nil, (Except.ok.inj h).symm⟩
      · rintro ⟨vs, hvs, rfl⟩
        cases hvs
        rfl
  | cons c str ih =>
      simp only [nameDigits, bind_eq_ok_iff, ih]
      constructor
      · rintro ⟨v, hv, vs, hvs, rfl⟩
        exact ⟨v :: vs, .cons hv hvs, rfl⟩
      · rintro ⟨_, hvs, rfl⟩
        cases hvs with
        | cons hv hvs => exact ⟨_, hv, _, hvs, rfl⟩

/-- Twelve digits at most, shifted to their places. -/
theorem foldl_placed (i value : ℕ) (h : i + vs.length ≤ 12) :
    vs.foldl (fun value v => value * 32 + v) value * 2 ^ (64 - 5 * (i + vs.length)) =
      value * 2 ^ (64 - 5 * i) + placed i vs := by
  induction vs generalizing i value with
  | nil => simp [placed]
  | cons v vs ih =>
      rw [List.length_cons] at h
      have hplace : i + (v :: vs).length = i + 1 + vs.length := by
        rw [List.length_cons]
        omega
      have hunit : 2 ^ (64 - 5 * i) = 32 * 2 ^ (59 - 5 * i) := by
        rw [show 32 = 2 ^ 5 from rfl, ← pow_add]
        congr 1
        omega
      rw [List.foldl_cons, hplace, ih (i + 1) _ (by omega), placed, hunit,
        show 64 - 5 * (i + 1) = 59 - 5 * i by omega]
      ring

theorem Spells.lt_of_mem (h : Spells str vs) {v : ℕ} (hv : v ∈ vs) : v < 32 := by
  induction h with
  | nil => cases hv
  | cons hc _ ih =>
      rcases List.mem_cons.mp hv with rfl | hv
      · exact (charAt_of_charToValue hc).1
      · exact ih hv

theorem Spells.map_charAt (h : Spells str vs) : vs.map charAt = str := by
  induction h with
  | nil => rfl
  | cons hc _ ih => rw [List.map_cons, (charAt_of_charToValue hc).2, ih]

theorem spells_map_charAt (h : ∀ v ∈ vs, v < 32) : Spells (vs.map charAt) vs := by
  induction vs with
  | nil => exact .nil
  | cons v vs ih =>
      obtain ⟨hv, hvs⟩ := List.forall_mem_cons.mp h
      exact .cons (charToValue_charAt hv) (ih hvs)

theorem eq_ofNat_iff {x : ℕ} (hx : x < 2 ^ 64) : n = ⟨UInt64.ofNat x⟩ ↔ n.value.toNat = x := by
  constructor
  · rintro rfl
    exact UInt64.toNat_ofNat_of_lt' hx
  · intro h
    obtain ⟨value⟩ := n
    obtain rfl : value.toNat = x := h
    rw [UInt64.ofNat_toNat]

theorem spells_append_singleton {c : Char} :
    Spells (str ++ [c]) vs ↔
      ∃ ws v, vs = ws ++ [v] ∧ Spells str ws ∧ charToValue c = .ok v := by
  induction str generalizing vs with
  | nil =>
      constructor
      · intro h
        cases h with
        | cons hc hnil =>
            cases hnil
            exact ⟨[], _, rfl, .nil, hc⟩
      · rintro ⟨ws, v, rfl, hws, hc⟩
        cases hws
        exact .cons hc .nil
  | cons a str ih =>
      constructor
      · intro h
        cases h with
        | cons ha hrest =>
            obtain ⟨ws, v, rfl, hws, hc⟩ := ih.mp hrest
            exact ⟨_ :: ws, v, rfl, .cons ha hws, hc⟩
      · rintro ⟨ws, v, rfl, hws, hc⟩
        cases hws with
        | cons ha hws => exact .cons ha (ih.mpr ⟨_, v, rfl, hws, hc⟩)

/-- Twelve characters at most are shifted to their places. -/
theorem Spells.shifted (h : Spells str vs) (hlen : str.length ≤ 12) :
    vs.foldl (fun value v => value * 32 + v) 0 * 2 ^ (4 + 5 * (12 - str.length)) =
      placed 0 vs := by
  have hlength := h.length_eq
  have hplaced := foldl_placed 0 0 (show 0 + vs.length ≤ 12 by omega)
  rw [zero_mul, Nat.zero_add, Nat.zero_add] at hplaced
  rw [← hplaced]
  congr 2
  omega

theorem Spells.fits (h : Spells str vs) (hlen : str.length ≤ 12) : Fits 0 vs := by
  have hlength := h.length_eq
  refine ⟨by omega, ?_⟩
  intro j v hv
  have hj := (List.getElem?_eq_some_iff.mp hv).1
  rw [if_neg (by omega)]
  exact h.lt_of_mem (List.mem_of_getElem? hv)

theorem ofText_of_length_le (h : str.length ≤ 12) :
    Name.ofText str = .ok n ↔
      ∃ vs, Spells str vs ∧ Fits 0 vs ∧ n.value.toNat = placed 0 vs := by
  have htake : str.take 12 = str := List.take_of_length_le h
  have hlast : str[12]? = none := List.getElem?_eq_none h
  simp only [Name.ofText, htake, hlast, min_eq_left h, bind_eq_ok_iff, check_eq_ok_iff,
    nameDigits_eq_ok_iff, pure_eq_ok_iff]
  constructor
  · rintro ⟨_, -, _, ⟨vs, hvs, rfl⟩, rfl⟩
    refine ⟨vs, hvs, hvs.fits h, ?_⟩
    rw [hvs.shifted h]
    exact UInt64.toNat_ofNat_of_lt' (hvs.fits h).placed_lt
  · rintro ⟨vs, hvs, hfit, hn⟩
    refine ⟨⟨⟩, by omega, _, ⟨vs, hvs, rfl⟩, ?_⟩
    rw [hvs.shifted h]
    exact (eq_ofNat_iff hfit.placed_lt).mpr hn

/-- A thirteenth character is one of the first sixteen. -/
theorem fits_append_singleton_iff {v : ℕ} (h : Fits 0 vs) (hlen : vs.length = 12) :
    Fits 0 (vs ++ [v]) ↔ v ≤ 15 := by
  constructor
  · intro hfits
    have hdigit := hfits.digit 12 v (by rw [← hlen, List.getElem?_concat_length])
    rw [if_pos rfl] at hdigit
    omega
  · intro hv
    refine ⟨by rw [List.length_append, hlen]; rfl, ?_⟩
    intro j w hw
    rcases Nat.lt_or_ge j 12 with hj | hj
    · rw [List.getElem?_append_left (by omega)] at hw
      exact h.digit j w hw
    · have hbound := (List.getElem?_eq_some_iff.mp hw).1
      rw [List.length_append, List.length_singleton] at hbound
      obtain rfl : j = vs.length := by omega
      rw [List.getElem?_concat_length] at hw
      obtain rfl := Option.some.inj hw
      rw [if_pos (by omega)]
      omega

theorem ofText_append_singleton {c : Char} (h : str.length = 12) :
    Name.ofText (str ++ [c]) = .ok n ↔
      ∃ vs, Spells (str ++ [c]) vs ∧ Fits 0 vs ∧ n.value.toNat = placed 0 vs := by
  have htake : (str ++ [c]).take 12 = str := by
    rw [← h, List.take_left]
  have hlast : (str ++ [c])[12]? = some c := by
    rw [← h, List.getElem?_concat_length]
  have hlength : (str ++ [c]).length = 13 := by
    rw [List.length_append, h]
    rfl
  have hplaced : ∀ ws v, Spells str ws → placed 0 (ws ++ [v]) =
      ws.foldl (fun value v => value * 32 + v) 0 * 2 ^ (4 + 5 * (12 - min 13 12)) + v := by
    intro ws v hws
    have hshifted := hws.shifted h.le
    rw [h] at hshifted
    rw [placed_append, ← hshifted, ← hws.length_eq, h]
    simp [placed]
  simp only [Name.ofText, htake, hlast, hlength, bind_eq_ok_iff, check_eq_ok_iff,
    nameDigits_eq_ok_iff, pure_eq_ok_iff, spells_append_singleton]
  constructor
  · rintro ⟨_, -, _, ⟨ws, hws, rfl⟩, v, hv, _, hle, rfl⟩
    have hfits := (fits_append_singleton_iff (hws.fits h.le) (hws.length_eq ▸ h)).mpr hle
    refine ⟨ws ++ [v], ⟨ws, v, rfl, hws, hv⟩, hfits, ?_⟩
    rw [← hplaced ws v hws]
    exact UInt64.toNat_ofNat_of_lt' hfits.placed_lt
  · rintro ⟨_, ⟨ws, v, rfl, hws, hv⟩, hfits, hn⟩
    have hle := (fits_append_singleton_iff (hws.fits h.le) (hws.length_eq ▸ h)).mp hfits
    refine ⟨⟨⟩, le_refl 13, _, ⟨ws, hws, rfl⟩, v, hv, ⟨⟩, hle, ?_⟩
    rw [← hplaced ws v hws]
    exact (eq_ofNat_iff hfits.placed_lt).mpr hn

/-- A text is read as the number that its digits have. -/
theorem Name.ofText_eq_ok_iff :
    Name.ofText str = .ok n ↔
      ∃ vs, Spells str vs ∧ Fits 0 vs ∧ n.value.toNat = placed 0 vs := by
  rcases Nat.lt_or_ge 12 str.length with hlong | hshort
  · rcases Nat.lt_or_ge 13 str.length with htoo | hthirteen
    · constructor
      · intro h
        simp only [Name.ofText, bind_eq_ok_iff, check_eq_ok_iff] at h
        obtain ⟨_, hle, -⟩ := h
        omega
      · rintro ⟨vs, hvs, hfits, -⟩
        have hlen := hfits.length
        have hlength := hvs.length_eq
        omega
    · rcases List.eq_nil_or_concat str with rfl | ⟨init, c, rfl⟩
      · cases hlong
      · rw [List.concat_eq_append] at *
        rw [List.length_append, List.length_singleton] at hlong hthirteen
        exact ofText_append_singleton (by omega)
  · exact ofText_of_length_le hshort

end Reading

section RoundTrip

variable {str : Text} {vs : List ℕ}

theorem charAt_eq_dot_iff {v : ℕ} (h : v < 32) : charAt v = '.' ↔ v = 0 := by
  interval_cases v <;> decide

theorem charAt_le_iff {v : ℕ} (h : v < 32) : charAt v ≤ 'j' ↔ v < 16 := by
  interval_cases v <;> decide

theorem rdropWhile_map_charAt (h : ∀ v ∈ vs, v < 32) :
    (vs.map charAt).rdropWhile (fun c => c = '.') = (stripped vs).map charAt := by
  induction vs with
  | nil => rfl
  | cons v vs ih =>
      obtain ⟨hv, hvs⟩ := List.forall_mem_cons.mp h
      rw [List.map_cons, rdropWhile_cons, ih hvs, stripped_cons, apply_ite (List.map charAt)]
      refine if_congr ?_ rfl rfl
      rw [decide_eq_true_iff, charAt_eq_dot_iff hv, List.map_eq_nil_iff]

theorem exists_spells_iff : (∃ vs, Spells str vs) ↔ ∀ c ∈ str, IsNameChar c := by
  induction str with
  | nil => exact iff_of_true ⟨[], .nil⟩ (by simp)
  | cons c str ih =>
      rw [List.forall_mem_cons, ← charToValue_succeeds_iff, ← ih]
      constructor
      · rintro ⟨_, hvs⟩
        cases hvs with
        | cons hv hvs => exact ⟨⟨_, hv⟩, _, hvs⟩
      · rintro ⟨⟨v, hv⟩, vs, hvs⟩
        exact ⟨v :: vs, .cons hv hvs⟩

/-- The digits fit into a name iff there are thirteen at most, and the last has four bits. -/
theorem Spells.fits_iff (h : Spells str vs) :
    Fits 0 vs ↔ str.length ≤ 13 ∧ ∀ c, str[12]? = some c → c ≤ 'j' := by
  have hlast : ∀ c, str[12]? = some c ↔ ∃ v, vs[12]? = some v ∧ charAt v = c := by
    intro c
    rw [← h.map_charAt, List.getElem?_map, Option.map_eq_some_iff]
  have hlength := h.length_eq
  constructor
  · intro hfits
    have hlen := hfits.length
    refine ⟨by omega, ?_⟩
    intro c hc
    obtain ⟨v, hv, rfl⟩ := (hlast c).mp hc
    have hdigit := hfits.digit 12 v hv
    rw [if_pos rfl] at hdigit
    exact (charAt_le_iff (h.lt_of_mem (List.mem_of_getElem? hv))).mpr hdigit
  · rintro ⟨hlen, hj⟩
    refine ⟨by omega, ?_⟩
    intro j v hv
    have hlt := h.lt_of_mem (List.mem_of_getElem? hv)
    split_ifs with hlastDigit
    · obtain rfl : j = 12 := by omega
      exact (charAt_le_iff hlt).mp (hj _ ((hlast _).mpr ⟨v, hv, rfl⟩))
    · exact hlt

theorem Name.ofText_writeAsString (n : Name) : Name.ofText n.writeAsString = .ok n := by
  obtain ⟨vs, hfits, hvs⟩ := exists_placed 13 0 n.value.toNat rfl n.value.toNat_lt
  have htext : n.writeAsString = (stripped vs).map charAt := by
    have hwritten := nameChars_placed hfits
    rw [hvs, Nat.mul_zero, pow_zero, mul_one] at hwritten
    exact hwritten
  have hws : stripped vs <+: vs := List.rdropWhile_prefix _ vs
  have hstripped : Fits 0 (stripped vs) := hfits.initial hws
  rw [htext, Name.ofText_eq_ok_iff]
  refine ⟨stripped vs, spells_map_charAt fun v hv => hstripped.lt_of_mem hv, hstripped, ?_⟩
  rw [placed_stripped, hvs]

theorem Name.writeAsString_of_ofText {n : Name} (h : Name.ofText str = .ok n) :
    n.writeAsString = str.rdropWhile fun c => c = '.' := by
  obtain ⟨vs, hspells, hfits, hvs⟩ := Name.ofText_eq_ok_iff.mp h
  have hwritten := nameChars_placed hfits
  rw [← hvs, Nat.mul_zero, pow_zero, mul_one] at hwritten
  rw [← hspells.map_charAt, rdropWhile_map_charAt fun v hv => hfits.lt_of_mem hv]
  exact hwritten

theorem Name.ofText_succeeds_iff :
    Succeeds (Name.ofText str) ↔
      str.length ≤ 13 ∧ (∀ c ∈ str, IsNameChar c) ∧ ∀ c, str[12]? = some c → c ≤ 'j' := by
  constructor
  · rintro ⟨m, h⟩
    obtain ⟨vs, hspells, hfits, -⟩ := Name.ofText_eq_ok_iff.mp h
    obtain ⟨hlen, hlast⟩ := hspells.fits_iff.mp hfits
    exact ⟨hlen, exists_spells_iff.mp ⟨vs, hspells⟩, hlast⟩
  · rintro ⟨hlen, hchars, hlast⟩
    obtain ⟨vs, hspells⟩ := exists_spells_iff.mpr hchars
    have hfits := hspells.fits_iff.mpr ⟨hlen, hlast⟩
    refine ⟨⟨UInt64.ofNat (placed 0 vs)⟩, Name.ofText_eq_ok_iff.mpr ⟨vs, hspells, hfits, ?_⟩⟩
    exact UInt64.toNat_ofNat_of_lt' hfits.placed_lt

/-- Names are read from exactly the texts of up to thirteen characters that can stand in a name.
Every name is read back from its own text, and any text of it differs from that one by dots at
the end. -/
theorem name_text_round_trip (n : Name) (str : Text) :
    Name.ofText n.writeAsString = .ok n ∧
    (∀ m, Name.ofText str = .ok m ↔
      Succeeds (Name.ofText str) ∧ m.writeAsString = str.rdropWhile fun c => c = '.') ∧
    (Succeeds (Name.ofText str) ↔
      str.length ≤ 13 ∧ (∀ c ∈ str, IsNameChar c) ∧ ∀ c, str[12]? = some c → c ≤ 'j') := by
  refine ⟨n.ofText_writeAsString, ?_, Name.ofText_succeeds_iff⟩
  intro m
  constructor
  · intro h
    exact ⟨⟨m, h⟩, Name.writeAsString_of_ofText h⟩
  · rintro ⟨⟨m', hm'⟩, hm⟩
    rw [← Name.writeAsString_of_ofText hm'] at hm
    have hread := m.ofText_writeAsString
    rw [hm, m'.ofText_writeAsString] at hread
    rw [hm', Except.ok.inj hread]

example : (nameLiteral "led.token").writeAsString = "led.token".toList := by decide +kernel

end RoundTrip

end Lemonade
