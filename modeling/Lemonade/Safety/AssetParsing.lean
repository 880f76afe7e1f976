import Lemonade.Safety.DecimalNumerals
import Mathlib.Tactic

/-!
# The grammar of asset texts

`asset_from_string` reads a decimal numeral with or without a point, spaces, and a code of
capital letters.  Each part of the numeral has at most 18 digits, and the integer that both
spell together is the amount.  Outside the grammar nothing is read, and within it nothing is
cut off or wrapped.
-/

namespace Lemonade

open Kernel

section Texts

variable {c : Char} {str core before after : Text} {m n : ℕ}

def spaces (n : ℕ) : Text := List.replicate n ' '

theorem spaces_add (m n : ℕ) : spaces (m + n) = spaces m ++ spaces n :=
  List.replicate_add m n ' '

theorem spaces_succ (n : ℕ) : spaces (n + 1) = ' ' :: spaces n := rfl

theorem dropWhile_spaces (h : core.head? ≠ some ' ') :
    ((spaces n ++ core).dropWhile fun c => c = ' ') = core := by
  rw [List.dropWhile_append_of_pos fun c hc => by simpa using List.eq_of_mem_replicate hc]
  cases core with
  | nil => rfl
  | cons x l =>
      refine List.dropWhile_cons_of_neg ?_
      simpa using h

/-- The spaces at the beginning of a text. -/
theorem exists_dropWhile (str : Text) :
    ∃ n, str = spaces n ++ str.dropWhile fun c => c = ' ' := by
  refine ⟨(str.takeWhile fun c => c = ' ').length, ?_⟩
  have hspaces : (str.takeWhile fun c => c = ' ') =
      spaces (str.takeWhile fun c => c = ' ').length := by
    refine List.eq_replicate_of_mem fun c hc => ?_
    simpa using List.mem_takeWhile_imp hc
  rw [← hspaces]
  exact List.takeWhile_append_dropWhile.symm

/-- `trim` takes spaces away on both sides. -/
theorem exists_trim (str : Text) : ∃ m n, str = spaces m ++ trim str ++ spaces n := by
  obtain ⟨m, hm⟩ := exists_dropWhile str
  obtain ⟨n, hn⟩ := exists_dropWhile (str.dropWhile fun c => c = ' ').reverse
  refine ⟨m, n, ?_⟩
  rw [List.reverse_eq_iff, List.reverse_append, spaces, List.reverse_replicate] at hn
  rw [List.append_assoc, trim, List.rdropWhile]
  exact hm.trans (congrArg (spaces m ++ ·) hn)

theorem head?_trim (str : Text) : (trim str).head? ≠ some ' ' := by
  obtain ⟨n, hn⟩ := exists_dropWhile (str.dropWhile fun c => c = ' ').reverse
  rw [List.reverse_eq_iff, List.reverse_append] at hn
  intro h
  have hhead : (str.dropWhile fun c => c = ' ').head? = some ' ' := by
    rw [hn, List.head?_append]
    rw [trim, List.rdropWhile] at h
    rw [h]
    rfl
  have hnot := List.head?_dropWhile_not (fun c => decide (c = ' ')) str
  rw [hhead] at hnot
  simp at hnot

/-- A text between spaces that begins and ends with something else. -/
theorem trim_eq
    (hhead : (core ++ spaces n).head? ≠ some ' ') (hlast : core.getLast? ≠ some ' ') :
    trim (spaces m ++ core ++ spaces n) = core := by
  rw [trim, List.append_assoc, dropWhile_spaces hhead, List.rdropWhile, List.reverse_append,
    spaces, List.reverse_replicate]
  have hreverse : core.reverse.head? ≠ some ' ' := by rwa [List.head?_reverse]
  have hdrop := dropWhile_spaces (n := n) hreverse
  rw [spaces] at hdrop
  rw [hdrop, List.reverse_reverse]

/-- The first occurrence of a character. -/
theorem findChar_append (h : c ∉ before) :
    findChar c (before ++ c :: after) 0 = some before.length := by
  rw [findChar, List.drop_zero, List.findIdx?_append, findIdx?_eq_none_of_not_mem h]
  simp [List.findIdx?_cons]

end Texts

section Codes

variable {c : Char} {str : Text} {n : ℕ}

/-- The letters of token codes. -/
def IsCodeLetter (c : Char) : Prop := 'A' ≤ c ∧ c ≤ 'Z'

theorem IsCodeLetter.bounds (h : IsCodeLetter c) : 65 ≤ c.toNat ∧ c.toNat ≤ 90 := h

theorem IsCodeLetter.letter_bounds (h : IsCodeLetter c) :
    'A'.toNat ≤ c.toNat ∧ c.toNat ≤ 'Z'.toNat := h

theorem packCode_lt (str : Text) : packCode str < 256 ^ str.length := by
  induction str with
  | nil => exact Nat.one_pos
  | cons c str ih =>
      have hbyte := Nat.mod_lt c.toNat (show 0 < 256 by norm_num)
      have hcons : packCode (c :: str) = packCode str * 256 + c.toNat % 256 := rfl
      rw [hcons, List.length_cons, pow_succ]
      omega

theorem packCode_cons (h : IsCodeLetter c) (str : Text) :
    packCode (c :: str) % 256 = c.toNat ∧ packCode (c :: str) / 256 = packCode str := by
  obtain ⟨hlow, hhigh⟩ := h.bounds
  have hcons : packCode (c :: str) = packCode str * 256 + c.toNat % 256 := rfl
  omega

theorem onlyZeroBytes_zero (n : ℕ) : onlyZeroBytes n 0 = true := by
  induction n with
  | zero => rfl
  | succ n ih => simp [onlyZeroBytes, ih]

/-- The bytes of one to `n` letters pass the check of `is_valid`. -/
theorem validBytes_packCode
    (hstr : str ≠ []) (hletters : ∀ c ∈ str, IsCodeLetter c) (hlength : str.length ≤ n) :
    validBytes n (packCode str) = true := by
  induction str generalizing n with
  | nil => exact absurd rfl hstr
  | cons c str ih =>
      rw [List.forall_mem_cons] at hletters
      obtain ⟨hc, hletters⟩ := hletters
      obtain ⟨hmod, hdiv⟩ := packCode_cons hc str
      cases n with
      | zero => simp at hlength
      | succ n =>
          rw [validBytes, hmod, hdiv, if_pos hc.letter_bounds]
          cases str with
          | nil => exact onlyZeroBytes_zero _
          | cons d str =>
              have hd := hletters d List.mem_cons_self
              have hne : packCode (d :: str) % 256 ≠ 0 := by
                have hbounds := hd.bounds
                rw [(packCode_cons hd str).1]
                omega
              rw [if_neg hne]
              exact ih (by simp) hletters (by simpa using hlength)

theorem ofText_eq_ok_iff {code : SymbolCode} :
    SymbolCode.ofText str = .ok code ↔
      str.length ≤ 7 ∧ (∀ c ∈ str, IsCodeLetter c) ∧ code = ⟨UInt64.ofNat (packCode str)⟩ := by
  simp only [SymbolCode.ofText, bind_eq_ok_iff, check_eq_ok_iff, pure_eq_ok_iff, exists_const,
    List.all_eq_true, decide_eq_true_eq, IsCodeLetter]

/-- The code of a text leaves the highest byte of its word free. -/
theorem toNat_packCode (h : str.length ≤ 7) :
    (UInt64.ofNat (packCode str)).toNat = packCode str ∧ packCode str < 2 ^ 56 := by
  have hlt := packCode_lt str
  have hpow : 256 ^ str.length ≤ 256 ^ 7 := Nat.pow_le_pow_right (by norm_num) h
  have hbound : packCode str < 2 ^ 56 := by
    norm_num at hpow
    omega
  exact ⟨UInt64.toNat_ofNat_of_lt' (hbound.trans (by decide)), hbound⟩

variable {code : SymbolCode} {precision : UInt8}

theorem toNat_ofCode (h : code.raw.toNat < 2 ^ 56) (precision : UInt8) :
    (Symbol.ofCode code precision).raw.toNat = code.raw.toNat * 256 + precision.toNat := by
  have hlow := precision.toNat_lt
  have hor := Nat.shiftLeft_add_eq_or_of_lt (i := 8) hlow code.raw.toNat
  have hshift : code.raw.toNat <<< 8 = code.raw.toNat * 256 := Nat.shiftLeft_eq _ 8
  have hraw : (code.raw <<< 8).toNat = code.raw.toNat <<< 8 := by
    rw [UInt64.toNat_shiftLeft]
    refine Nat.mod_eq_of_lt ?_
    change code.raw.toNat <<< 8 < 2 ^ 64
    omega
  rw [Symbol.ofCode, UInt64.toNat_or, hraw, UInt8.toNat_toUInt64, ← hor, hshift]

theorem precision_ofCode (h : code.raw.toNat < 2 ^ 56) :
    (Symbol.ofCode code precision).precision = precision := by
  have hlow := precision.toNat_lt
  have hraw := toNat_ofCode h precision
  rw [Symbol.precision, ← UInt8.toNat_inj, UInt64.toNat_toUInt8, hraw]
  omega

theorem code_ofCode (h : code.raw.toNat < 2 ^ 56) :
    (Symbol.ofCode code precision).code = code := by
  have hlow := precision.toNat_lt
  have hraw := toNat_ofCode h precision
  have hshift : ((Symbol.ofCode code precision).raw >>> 8).toNat = code.raw.toNat := by
    rw [UInt64.toNat_shiftRight, hraw]
    change (code.raw.toNat * 256 + precision.toNat) >>> 8 = code.raw.toNat
    rw [Nat.shiftRight_eq_div_pow]
    omega
  rw [Symbol.code, UInt64.toNat_inj.mp hshift]

end Codes

section Numerals

variable {whole symbolStr : Text} {fraction : Option Text} {i f : Int64} {a : Asset}

/-- A numeral with a point iff there is a fraction. -/
def writtenAmount (whole : Text) : Option Text → Text
  | none => whole
  | some fraction => whole ++ '.' :: fraction

/-- The digits behind the point. -/
def decimals (fraction : Option Text) : Text := fraction.getD []

/-- Both parts are strings of at most 18 digits, and a point is followed by a digit. -/
structure IsNumeral (whole : Text) (fraction : Option Text) : Prop where
  whole_digits : ∀ c ∈ whole, c.isDigit = true
  whole_length : whole.length ≤ 18
  fraction_digits : ∀ c ∈ decimals fraction, c.isDigit = true
  fraction_length : (decimals fraction).length ≤ 18
  fraction_nonempty : fraction ≠ some []

/-- What a numeral and a code stand for. -/
structure Denotes (a : Asset) (whole : Text) (fraction : Option Text) (code : Text) : Prop where
  amount : a.amount.toInt = digitsValue (whole ++ decimals fraction)
  symbol : a.symbol = Symbol.ofCode ⟨UInt64.ofNat (packCode code)⟩
    (UInt8.ofNat (decimals fraction).length)

theorem not_mem_of_digits
    {c : Char} {digits : Text} (h : ∀ c ∈ digits, c.isDigit = true) (hc : c.isDigit = false) :
    c ∉ digits := by
  intro hmem
  rw [h c hmem] at hc
  cases hc

theorem exists_writtenAmount (amountStr : Text) :
    ∃ whole fraction, amountStr = writtenAmount whole fraction ∧ '.' ∉ whole := by
  by_cases h : '.' ∈ amountStr
  · obtain ⟨whole, fraction, rfl, hwhole⟩ := List.eq_append_cons_of_mem h
    exact ⟨whole, some fraction, rfl, hwhole⟩
  · exact ⟨amountStr, none, rfl, h⟩

theorem findChar_writtenAmount (h : '.' ∉ whole) (fraction : Option Text) :
    findChar '.' (writtenAmount whole fraction) 0 = fraction.map fun _ => whole.length := by
  cases fraction with
  | none => exact findChar_of_not_mem h
  | some fraction => exact findChar_append h

/-- The parts of the amount are the values of the two numerals. -/
theorem parseParts_eq_ok_iff :
    parseParts (writtenAmount whole fraction) (fraction.map fun _ => whole.length) = .ok (i, f) ↔
      ((∀ c ∈ whole, c.isDigit = true) ∧ whole.length ≤ 18 ∧ i.toInt = digitsValue whole) ∧
        (∀ c ∈ decimals fraction, c.isDigit = true) ∧ (decimals fraction).length ≤ 18 ∧
          f.toInt = digitsValue (decimals fraction) := by
  cases fraction with
  | none =>
      simp only [Option.map_none, parseParts, writtenAmount, bind_eq_ok_iff, parseInt_eq_ok_iff,
        pure_eq_ok_iff, Prod.mk.injEq]
      have hzero : f = 0 ↔ f.toInt = digitsValue [] := by rw [← Int64.toInt_inj]; rfl
      constructor
      · rintro ⟨_, hwhole, rfl, hf⟩
        exact ⟨hwhole, by simp [decimals], by simp [decimals], hzero.mp hf⟩
      · rintro ⟨hwhole, -, -, hf⟩
        exact ⟨i, hwhole, rfl, hzero.mpr hf⟩
  | some fraction =>
      have htake : (whole ++ '.' :: fraction).take whole.length = whole := List.take_left
      have hdrop : (whole ++ '.' :: fraction).drop (whole.length + 1) = fraction := by simp
      change parseParts (whole ++ '.' :: fraction) (some whole.length) = _ ↔ _
      simp only [parseParts, bind_eq_ok_iff, htake, hdrop, parseInt_eq_ok_iff]
      -- a sign is no digit, so a numeral that begins with one has no value
      have hsign : (∀ c ∈ whole, c.isDigit = true) →
          (whole ++ '.' :: fraction).head? ≠ some '-' := by
        intro hwhole
        cases whole with
        | nil => simp
        | cons c whole =>
            intro h
            obtain rfl : c = '-' := by simpa using h
            exact absurd (hwhole _ List.mem_cons_self) (by decide)
      constructor
      · rintro ⟨i', hwhole, f', hfraction, h⟩
        rw [if_neg (hsign hwhole.1), pure_eq_ok_iff, Prod.mk.injEq] at h
        obtain ⟨rfl, rfl⟩ := h
        exact ⟨hwhole, hfraction⟩
      · rintro ⟨hwhole, hfraction⟩
        refine ⟨i, hwhole, f, hfraction, ?_⟩
        rw [if_neg (hsign hwhole.1)]
        rfl

end Numerals

section Reading

variable {source whole symbolStr before after : Text} {fraction : Option Text} {a : Asset}

theorem assetFromString_of_split
    (h : trim source = before ++ ' ' :: after) (hbefore : ' ' ∉ before) :
    assetFromString source = readAsset before (trim after) := by
  have htake : (before ++ ' ' :: after).take before.length = before := List.take_left
  have hdrop : (before ++ ' ' :: after).drop (before.length + 1) = after := by simp
  rw [assetFromString, h, findChar_append hbefore]
  change readAsset ((before ++ ' ' :: after).take before.length)
    (trim ((before ++ ' ' :: after).drop (before.length + 1))) = _
  rw [htake, hdrop]

theorem exists_split_of_succeeds
    (h : Succeeds (assetFromString source)) :
    ∃ before after, trim source = before ++ ' ' :: after ∧ ' ' ∉ before := by
  by_contra hnone
  have hspace : ' ' ∉ (trim source).drop 0 := by
    intro hmem
    obtain ⟨before, after, hsplit, hbefore⟩ := List.eq_append_cons_of_mem hmem
    exact hnone ⟨before, after, hsplit, hbefore⟩
  obtain ⟨a, ha⟩ := h
  rw [assetFromString, findChar_of_not_mem hspace] at ha
  cases ha

theorem exists_toInt_digitsValue
    {digits : Text} (h : ∀ c ∈ digits, c.isDigit = true) (hlength : digits.length ≤ 18) :
    ∃ i : Int64, i.toInt = digitsValue digits := by
  have hlt := digitsValue_lt h
  exact exists_toInt_eq
    (fitsInt64_of_le_pow hlength (by positivity) (by exact_mod_cast hlt.le))

/-- One to seven capital letters. -/
structure IsCode (code : Text) : Prop where
  letters : ∀ c ∈ code, IsCodeLetter c
  nonempty : code ≠ []
  length : code.length ≤ 7

theorem IsCode.symbol_isValid {code : Text} (h : IsCode code) (precision : UInt8) :
    (Symbol.ofCode ⟨UInt64.ofNat (packCode code)⟩ precision).isValid = true := by
  obtain ⟨hraw, hlt⟩ := toNat_packCode h.length
  rw [Symbol.isValid, code_ofCode (by rw [hraw]; exact hlt), SymbolCode.isValid, hraw]
  exact validBytes_packCode h.nonempty h.letters h.length

theorem symbol_not_isValid_of_nil (precision : UInt8) :
    (Symbol.ofCode ⟨UInt64.ofNat (packCode [])⟩ precision).isValid = false := by
  rw [Symbol.isValid, code_ofCode (by decide)]
  decide

/-- A point at the end of the amount is one without a fraction. -/
theorem dotPos_ne_last_iff :
    (fraction.map fun _ => whole.length) ≠ some ((writtenAmount whole fraction).length - 1) ↔
      fraction ≠ some [] := by
  cases fraction with
  | none => simp
  | some fraction => simp [writtenAmount]

/-- The number of decimals, which the contract stores in a byte. -/
theorem precisionDigit_eq :
    ((fraction.map fun _ => whole.length).elim 0 fun dotPos =>
        UInt8.ofNat ((writtenAmount whole fraction).length - dotPos - 1)) =
      UInt8.ofNat (decimals fraction).length := by
  cases fraction with
  | none => rfl
  | some fraction =>
      have hlength : (whole ++ '.' :: fraction).length - whole.length - 1 = fraction.length := by
        rw [List.length_append, List.length_cons]
        omega
      change UInt8.ofNat ((whole ++ '.' :: fraction).length - whole.length - 1) = _
      rw [hlength]
      rfl

/-- The amount is scaled and the fraction added, without a loss. -/
theorem scaled_eq_ok_iff
    {n : ℕ} {i f precision : Int64} {sym : Symbol}
    (hprecision : precision.toInt = 10 ^ n) (hi : 0 ≤ i.toInt) (hf : 0 ≤ f.toInt) :
    (∃ x, safeMul i precision = .ok x ∧ ∃ y, safeAdd x f = .ok y ∧ Asset.make y sym = .ok a) ↔
      i.toInt * 10 ^ n + f.toInt ≤ maxAmount ∧ sym.isValid = true ∧
        a.amount.toInt = i.toInt * 10 ^ n + f.toInt ∧ a.symbol = sym := by
  have hnonneg : 0 ≤ i.toInt * 10 ^ n := mul_nonneg hi (by positivity)
  simp only [safeMul_eq_ok_iff, safeAdd_eq_ok_iff, Asset.make_eq_ok_iff, hprecision]
  constructor
  · rintro ⟨x, hx, y, hy, hrange, hvalid, rfl⟩
    rw [hx] at hy
    exact ⟨hy ▸ hrange.2, hvalid, hy, rfl⟩
  · rintro ⟨hle, hvalid, hamount, hsymbol⟩
    have hmax : maxAmount < 2 ^ 63 := by decide
    obtain ⟨x, hx⟩ := exists_toInt_eq (n := i.toInt * 10 ^ n) ⟨by omega, by omega⟩
    obtain ⟨y, hy⟩ := exists_toInt_eq (n := i.toInt * 10 ^ n + f.toInt) ⟨by omega, by omega⟩
    refine ⟨x, hx, y, by rw [hy, hx], ⟨?_, ?_⟩, hvalid, ?_⟩
    · rw [hy]
      unfold maxAmount at *
      omega
    · rw [hy]
      exact hle
    · have hsame : a.amount = y := Int64.toInt_inj.mp (hamount.trans hy.symm)
      rw [← hsame, ← hsymbol]

/-- Behind the split the text is a numeral and a code, and the numeral is in range. -/
theorem readAsset_eq_ok_iff (hwhole : '.' ∉ whole) :
    readAsset (writtenAmount whole fraction) symbolStr = .ok a ↔
      IsNumeral whole fraction ∧ IsCode symbolStr ∧
        (digitsValue (whole ++ decimals fraction) : ℤ) ≤ maxAmount ∧
        Denotes a whole fraction symbolStr := by
  have hvalue : (digitsValue (whole ++ decimals fraction) : ℤ) =
      digitsValue whole * 10 ^ (decimals fraction).length + digitsValue (decimals fraction) := by
    rw [digitsValue_append]
    push_cast
    rfl
  simp only [readAsset, findChar_writtenAmount hwhole, precisionDigit_eq, bind_eq_ok_iff,
    check_eq_ok_iff, dotPos_ne_last_iff, ofText_eq_ok_iff, parseParts_eq_ok_iff, Prod.exists]
  -- the scale of a numeral with at most 18 decimals
  have hscale : symbolStr.length ≤ 7 → (decimals fraction).length ≤ 18 → ∀ precision : Int64,
      precisionFromDecimals (Symbol.ofCode ⟨UInt64.ofNat (packCode symbolStr)⟩
          (UInt8.ofNat (decimals fraction).length)).precision.toInt8 = .ok precision ↔
        precision.toInt = 10 ^ (decimals fraction).length := by
    intro hcode hfraction precision
    obtain ⟨hraw, hlt⟩ := toNat_packCode hcode
    rw [precision_ofCode (by rw [hraw]; exact hlt)]
    exact precisionFromDecimals_eq_ok_iff hfraction
  constructor
  · rintro ⟨_, hdot, _, ⟨hlength, hletters, rfl⟩, i, f, ⟨⟨hw, hwlen, hi⟩, hd, hdlen, hf⟩,
      precision, hprecision, h⟩
    have hten := (hscale hlength hdlen precision).mp hprecision
    obtain ⟨hle, hvalid, hamount, hsymbol⟩ :=
      (scaled_eq_ok_iff hten (by rw [hi]; positivity) (by rw [hf]; positivity)).mp h
    have hcode : IsCode symbolStr := by
      refine ⟨hletters, ?_, hlength⟩
      rintro rfl
      rw [symbol_not_isValid_of_nil] at hvalid
      cases hvalid
    rw [hi, hf, ← hvalue] at hle hamount
    exact ⟨⟨hw, hwlen, hd, hdlen, hdot⟩, hcode, hle, hamount, hsymbol⟩
  · rintro ⟨hnumeral, hcode, hle, hdenotes⟩
    obtain ⟨hw, hwlen, hd, hdlen, hdot⟩ := hnumeral
    obtain ⟨i, hi⟩ := exists_toInt_digitsValue hw hwlen
    obtain ⟨f, hf⟩ := exists_toInt_digitsValue hd hdlen
    obtain ⟨precision, hten⟩ :=
      exists_toInt_eq (fitsInt64_of_le_pow hdlen (by positivity) (le_refl _))
    refine ⟨⟨⟩, hdot, _, ⟨hcode.length, hcode.letters, rfl⟩, i, f,
      ⟨⟨hw, hwlen, hi⟩, hd, hdlen, hf⟩, precision,
      (hscale hcode.length hdlen precision).mpr hten, ?_⟩
    refine (scaled_eq_ok_iff hten (by rw [hi]; positivity) (by rw [hf]; positivity)).mpr ?_
    rw [hi, hf, ← hvalue]
    exact ⟨hle, hcode.symbol_isValid _, hdenotes.amount, hdenotes.symbol⟩

end Reading

section Grammar

variable {source whole code : Text} {fraction : Option Text} {a : Asset}

/-- The texts that stand for an asset: a numeral, spaces, a code, and spaces around. -/
structure AssetGrammar (source whole : Text) (fraction : Option Text) (code : Text) : Prop where
  spelled : ∃ l m n, source =
    spaces l ++ (writtenAmount whole fraction ++ spaces (m + 1) ++ code) ++ spaces n
  numeral : IsNumeral whole fraction
  whole_nonempty : fraction = none → whole ≠ []
  code : IsCode code
  value_le : (digitsValue (whole ++ decimals fraction) : ℤ) ≤ maxAmount

theorem no_space_of_digits
    (hwhole : ∀ c ∈ whole, c.isDigit = true)
    (hfraction : ∀ c ∈ decimals fraction, c.isDigit = true) :
    ' ' ∉ writtenAmount whole fraction := by
  have hspace : ' ' ∉ whole := not_mem_of_digits hwhole rfl
  cases fraction with
  | none => exact hspace
  | some fraction =>
      have hbehind : ' ' ∉ fraction := not_mem_of_digits hfraction rfl
      simp [writtenAmount, hspace, hbehind]

theorem writtenAmount_ne_nil (h : fraction = none → whole ≠ []) :
    writtenAmount whole fraction ≠ [] := by
  cases fraction with
  | none => exact h rfl
  | some fraction => simp [writtenAmount]

theorem IsCode.no_space (h : IsCode code) : ' ' ∉ code := by
  intro hmem
  exact absurd (h.letters _ hmem).1 (by decide)

theorem head?_ne_space {str rest : Text} (hne : str ≠ []) (h : ' ' ∉ str) :
    (str ++ rest).head? ≠ some ' ' := by
  cases str with
  | nil => exact absurd rfl hne
  | cons c str =>
      intro hc
      obtain rfl : c = ' ' := by simpa using hc
      exact h List.mem_cons_self

theorem getLast?_ne_space {str : Text} (hne : str ≠ []) (h : ' ' ∉ str) (rest : Text) :
    (rest ++ str).getLast? ≠ some ' ' := by
  rw [← List.head?_reverse, List.reverse_append]
  exact head?_ne_space (by simpa using hne) (by simpa using h)

/-- The two searches and the trimming find the numeral and the code. -/
theorem assetFromString_spelled
    {amountStr : Text} (hne : amountStr ≠ []) (hamount : ' ' ∉ amountStr) (hcode : IsCode code)
    (l m n : ℕ) :
    assetFromString (spaces l ++ (amountStr ++ spaces (m + 1) ++ code) ++ spaces n) =
      readAsset amountStr code := by
  have htrim : trim (spaces l ++ (amountStr ++ spaces (m + 1) ++ code) ++ spaces n) =
      amountStr ++ ' ' :: (spaces m ++ code) := by
    rw [trim_eq]
    · rw [spaces_succ, List.append_assoc, List.cons_append]
    · rw [List.append_assoc, List.append_assoc]
      exact head?_ne_space hne hamount
    · exact getLast?_ne_space hcode.nonempty hcode.no_space _
  have hsymbol : trim (spaces m ++ code) = code := by
    have hcore : trim (spaces m ++ code ++ []) = code :=
      trim_eq (n := 0) (head?_ne_space hcode.nonempty hcode.no_space)
        (getLast?_ne_space hcode.nonempty hcode.no_space [])
    rwa [List.append_nil] at hcore
  rw [assetFromString_of_split htrim hamount, hsymbol]

/-- A text of the grammar is read, as the asset that it stands for. -/
theorem AssetGrammar.eq_ok_iff (h : AssetGrammar source whole fraction code) :
    assetFromString source = .ok a ↔ Denotes a whole fraction code := by
  obtain ⟨l, m, n, rfl⟩ := h.spelled
  have hspace := no_space_of_digits h.numeral.whole_digits h.numeral.fraction_digits
  rw [assetFromString_spelled (writtenAmount_ne_nil h.whole_nonempty) hspace h.code,
    readAsset_eq_ok_iff (not_mem_of_digits h.numeral.whole_digits rfl)]
  simp [h.numeral, h.code, h.value_le]

/-- Every text that is read is one of the grammar. -/
theorem exists_grammar_of_eq_ok (h : assetFromString source = .ok a) :
    ∃ whole fraction code, AssetGrammar source whole fraction code := by
  obtain ⟨before, after, hsplit, hbefore⟩ := exists_split_of_succeeds ⟨a, h⟩
  obtain ⟨whole, fraction, rfl, hwhole⟩ := exists_writtenAmount before
  rw [assetFromString_of_split hsplit hbefore, readAsset_eq_ok_iff hwhole] at h
  obtain ⟨hnumeral, hcode, hle, -⟩ := h
  obtain ⟨l, n, hsource⟩ := exists_trim source
  obtain ⟨m, k, hafter⟩ := exists_trim after
  refine ⟨whole, fraction, trim after, ⟨l, m, k + n, ?_⟩, hnumeral, ?_, hcode, hle⟩
  · rw [hsource, hsplit, spaces_succ, spaces_add k n]
    conv_lhs => rw [hafter]
    simp only [List.append_assoc, List.cons_append]
  · rintro rfl rfl
    have hhead := head?_trim source
    rw [hsplit] at hhead
    exact hhead rfl

theorem AssetGrammar.exists_denotes (h : AssetGrammar source whole fraction code) :
    ∃ a, Denotes a whole fraction code := by
  have hmax : maxAmount < 2 ^ 63 := by decide
  obtain ⟨amount, hamount⟩ :=
    exists_toInt_eq ⟨by omega, h.value_le.trans_lt hmax⟩
  exact ⟨⟨amount, _⟩, hamount, rfl⟩

/-- The symbol of an asset that is read has the number of decimals and the code. -/
theorem Denotes.symbol_eq
    (h : Denotes a whole fraction code) (hnumeral : IsNumeral whole fraction)
    (hcode : IsCode code) :
    a.symbol.precision.toNat = (decimals fraction).length ∧
      SymbolCode.ofText code = .ok a.symbol.code := by
  obtain ⟨hraw, hlt⟩ := toNat_packCode hcode.length
  have hlength := hnumeral.fraction_length
  rw [h.symbol, precision_ofCode (by rw [hraw]; exact hlt), code_ofCode (by rw [hraw]; exact hlt)]
  refine ⟨?_, ofText_eq_ok_iff.mpr ⟨hcode.length, hcode.letters, rfl⟩⟩
  exact UInt8.toNat_ofNat_of_lt' (hlength.trans_lt (by decide))

/-- Exactly the texts of the grammar are read, each as the exact amount with the exact
precision and the code that it spells. -/
theorem asset_texts_are_read_exactly (source : Text) :
    (Succeeds (assetFromString source) ↔
      ∃ whole fraction code, AssetGrammar source whole fraction code) ∧
    ∀ whole fraction code, AssetGrammar source whole fraction code →
      ∃ a, assetFromString source = .ok a ∧
        a.amount.toInt = digitsValue (whole ++ decimals fraction) ∧
        a.symbol.precision.toNat = (decimals fraction).length ∧
        SymbolCode.ofText code = .ok a.symbol.code := by
  constructor
  · constructor
    · rintro ⟨a, ha⟩
      exact exists_grammar_of_eq_ok ha
    · rintro ⟨whole, fraction, code, h⟩
      obtain ⟨a, ha⟩ := h.exists_denotes
      exact ⟨a, h.eq_ok_iff.mpr ha⟩
  · intro whole fraction code h
    obtain ⟨a, ha⟩ := h.exists_denotes
    exact ⟨a, h.eq_ok_iff.mpr ha, ha.amount, ha.symbol_eq h.numeral h.code⟩

end Grammar

end Lemonade
