import Lemonade.Contract.Actions
import Lemonade.Safety.AssetRoundTrip
import Lemonade.Safety.MemoFields
import Lemonade.Safety.NameRoundTrip
import Mathlib.Tactic

/-!
# The language of memos

Whatever an account can ask the contract for with a transfer (`Order`) has a memo, and the
handler does just that.  Two orders never have the same memo.
-/

namespace Lemonade

open Kernel

section Fields

variable {text : Text} {fields : List Text}

/-- Fields without slashes, joined by slashes, are found again. -/
theorem memoParser_intercalate
    (hfields : ∀ text ∈ fields, '/' ∉ text) (hlen : 2 ≤ fields.length) :
    memoParser (['/'].intercalate fields) = fields := by
  have hne : fields ≠ [] := List.ne_nil_of_length_pos (by omega)
  have hsplit : (['/'].intercalate fields).splitOn '/' = fields :=
    List.splitOn_intercalate '/' hfields hne
  have hmem : '/' ∈ ['/'].intercalate fields := by
    by_contra hslash
    rw [List.splitOn_eq_singleton hslash] at hsplit
    rw [← hsplit] at hlen
    simp at hlen
  rw [(memoParser_of_mem hmem).2, hsplit]

theorem not_mem_of_isCodeLetter (h : ∀ c ∈ text, IsCodeLetter c) : '/' ∉ text := by
  intro hslash
  have hbounds := (h _ hslash).bounds
  revert hbounds
  decide

theorem Name.slash_not_mem (n : Name) : '/' ∉ n.writeAsString := by
  intro hslash
  have hchar := (Name.ofText_succeeds_iff.mp ⟨n, n.ofText_writeAsString⟩).2.1 _ hslash
  revert hchar
  unfold IsNameChar
  decide

theorem not_space_of_isDigit {c : Char} (h : c.isDigit = true) :
    isSpace c = false ∧ c ≠ '-' ∧ c ≠ '+' := by
  have hlow : 48 ≤ c.toNat := (isDigit_iff.mp h).2
  refine ⟨?_, ?_, ?_⟩
  · simp only [isSpace, Bool.or_eq_false_iff, decide_eq_false_iff_not, Bool.and_eq_false_iff]
    refine ⟨?_, Or.inr ?_⟩
    · rintro rfl
      revert hlow
      decide
    · intro hle
      have hhigh : c.toNat ≤ 13 := hle
      omega
  · rintro rfl
    revert hlow
    decide
  · rintro rfl
    revert hlow
    decide

theorem readSign_of_isDigit {c : Char} {rest : Text} (h : c.isDigit = true) :
    readSign (c :: rest) = (false, c :: rest) := by
  obtain ⟨-, hminus, hplus⟩ := not_space_of_isDigit h
  unfold readSign
  split
  · next heq => exact absurd (List.cons.inj heq).1 hminus
  · next heq => exact absurd (List.cons.inj heq).1 hplus
  · rfl

/-- The text of a number has its digits, and is read as the number. -/
theorem stoull_toDigits {n : ℕ} (h : n < 2 ^ 64) : stoull (Nat.toDigits 10 n) = .ok n := by
  have hdigits : ∀ c ∈ Nat.toDigits 10 n, c.isDigit = true :=
    fun c hc => Nat.isDigit_of_mem_toDigits (by norm_num) (by norm_num) hc
  have hvalue : digitsValue (Nat.toDigits 10 n) = n := by
    refine Eq.trans ?_ (Nat.ofDigitChars_toDigits (b := 10) (by norm_num) (le_refl 10))
    rw [Nat.ofDigitChars_eq_foldl, digitsValue]
    congr 1
    funext value c
    rw [Nat.mul_comm]
  obtain ⟨c, rest, hcons⟩ := List.exists_cons_of_ne_nil (Nat.toDigits_ne_nil (n := n) (b := 10))
  have hfirst : c.isDigit = true := hdigits c (hcons ▸ List.mem_cons_self)
  have hskip : (Nat.toDigits 10 n).dropWhile isSpace = Nat.toDigits 10 n := by
    rw [hcons]
    refine List.dropWhile_cons_of_neg ?_
    rw [(not_space_of_isDigit hfirst).1]
    exact Bool.false_ne_true
  have hsign : readSign (Nat.toDigits 10 n) = (false, Nat.toDigits 10 n) := by
    rw [hcons]
    exact readSign_of_isDigit hfirst
  have htake : (Nat.toDigits 10 n).takeWhile Char.isDigit = Nat.toDigits 10 n :=
    List.takeWhile_eq_self_iff.mpr hdigits
  simp only [stoull, hskip, hsign, htake, hvalue, bind_eq_ok_iff, demand_eq_ok_iff,
    pure_eq_ok_iff]
  exact ⟨⟨⟩, Nat.toDigits_ne_nil, ⟨⟩, h, rfl⟩

theorem slash_not_mem_of_digits (h : ∀ c ∈ text, c.isDigit = true) : '/' ∉ text :=
  not_mem_of_digits h rfl

theorem SymbolCode.isCode_writeAsString
    {code : SymbolCode} (hvalid : code.isValid = true) (hlt : code.raw.toNat < 2 ^ 56) :
    IsCode code.writeAsString ∧ SymbolCode.ofText code.writeAsString = .ok code := by
  have hcode : (Symbol.ofCode code 0).code = code := code_ofCode hlt
  have hsymbol : (Symbol.ofCode code 0).isValid = true := by
    rw [Symbol.isValid, hcode]
    exact hvalid
  obtain ⟨hletters, hpack⟩ := Symbol.isCode_writeAsString hsymbol
  rw [hcode] at hletters hpack
  refine ⟨hletters, ofText_eq_ok_iff.mpr ⟨hletters.length, hletters.letters, ?_⟩⟩
  rw [hpack, UInt64.ofNat_toNat]

theorem Asset.slash_not_mem
    {a : Asset} (hvalid : a.IsValid) (hnonneg : 0 ≤ a.amount.toInt) : '/' ∉ a.writeAsString := by
  obtain ⟨hcode, -⟩ := Symbol.isCode_writeAsString hvalid.2
  have hwhole := slash_not_mem_of_digits
    (isDigit_writtenWhole a.amount.toInt.natAbs a.symbol.precision.toNat)
  have hfraction := slash_not_mem_of_digits
    (isDigit_writtenFraction a.amount.toInt.natAbs a.symbol.precision.toNat)
  have hletters := not_mem_of_isCodeLetter hcode.letters
  rw [writeAsString_eq hnonneg]
  cases hcase : writtenFraction a.amount.toInt.natAbs a.symbol.precision.toNat with
  | none => simp [writtenAmount, spaces, hwhole, hletters]
  | some fraction =>
      rw [hcase, decimals, Option.getD_some] at hfraction
      simp [writtenAmount, spaces, hwhole, hletters, hfraction]

end Fields

section Orders

/-- What the memo of a transfer can ask for. -/
inductive Order where
  | stake (productName prediction : Name)
  | bet (betId : ℕ) (side : Position)
  | deposit
  | exchange (pairToken : SymbolCode) (minExpected : Asset)

/-- The name of a side in a memo. -/
def Position.text : Position → Text
  | .long => "long".toList
  | .short => "short".toList

/-- The fields of the memo of an order. -/
def Order.fields : Order → List Text
  | .stake productName prediction =>
      ["stake".toList, productName.writeAsString, prediction.writeAsString]
  | .bet betId side => ["bet".toList, Nat.toDigits 10 betId, side.text]
  | .deposit => ["deposit".toList]
  | .exchange pairToken minExpected =>
      ["exchange".toList, pairToken.writeAsString, minExpected.writeAsString]

/-- The memo of an order. -/
def Order.memo (order : Order) : Text := ['/'].intercalate order.fields

/-- A code of letters. -/
structure SymbolCode.Writable (code : SymbolCode) : Prop where
  valid : code.isValid = true
  lt : code.raw.toNat < 2 ^ 56

/-- An amount that is not too long to be read again. -/
structure Asset.Writable (a : Asset) : Prop where
  valid : a.IsValid
  nonneg : 0 ≤ a.amount.toInt
  precision : a.symbol.precision.toNat ≤ 18
  short : ¬ (a.symbol.precision.toNat = 0 ∧ 10 ^ 18 ≤ a.amount.toInt.natAbs)

/-- An order whose parts have texts that the handler reads. -/
def Order.Writable : Order → Prop
  | .stake _ _ => True
  | .bet betId _ => betId < 2 ^ 64
  | .deposit => True
  | .exchange pairToken minExpected => pairToken.Writable ∧ minExpected.Writable

/-- What the contract does for an order. -/
def Order.run [Doubles] (env : Env) (ctx : Ctx) (s : State) (firstReceiver source : Name)
    (quantity : Asset) : Order → Result (State × List Inline)
  | .stake productName prediction =>
      Lemonade.stake env ctx s source quantity productName (some prediction)
  | .bet betId side => do
      let s ← Lemonade.bet ctx s source quantity betId side.text
      return (s, [])
  | .deposit => do
      check (env.isDexOpen = true) "DEX is not open"
      let s ← addSignedExtBalance s source ⟨quantity, firstReceiver⟩
      return (s, [])
  | .exchange pairToken minExpected => do
      check (env.isDexOpen = true) "DEX is not open"
      memoexchange env s source ⟨quantity, firstReceiver⟩ pairToken minExpected

variable {env : Env} {ctx : Ctx} {s : State} {firstReceiver source dest : Name}
  {quantity : Asset} {order order' : Order}

theorem SymbolCode.Writable.ofText {code : SymbolCode} (h : code.Writable) :
    SymbolCode.ofText code.writeAsString = .ok code :=
  (SymbolCode.isCode_writeAsString h.valid h.lt).2

theorem Asset.Writable.assetFromString {a : Asset} (h : a.Writable) :
    assetFromString a.writeAsString = .ok a := by
  have hn := h.valid.1.natAbs_lt
  have hle : (a.amount.toInt.natAbs : ℤ) ≤ maxAmount := by
    rw [Int.natAbs_of_nonneg h.nonneg]
    exact h.valid.1.2
  refine (assetFromString_writeAsString h.valid h.nonneg rfl rfl).mpr ⟨?_, ?_, ?_⟩
  · exact (isNumeral_written_iff hn h.precision).mpr h.short
  · rw [digitsValue_written hn]
    exact hle
  · exact denotes_written h.valid h.nonneg

theorem Position.slash_not_mem (side : Position) : '/' ∉ side.text := by
  cases side <;> decide

theorem Order.slash_not_mem (h : order.Writable) : ∀ text ∈ order.fields, '/' ∉ text := by
  cases order with
  | stake productName prediction =>
      simp only [fields, List.forall_mem_cons]
      exact ⟨by decide, productName.slash_not_mem, prediction.slash_not_mem, by simp⟩
  | bet betId side =>
      simp only [fields, List.forall_mem_cons]
      refine ⟨by decide, slash_not_mem_of_digits ?_, side.slash_not_mem, by simp⟩
      exact fun c hc => Nat.isDigit_of_mem_toDigits (by norm_num) (le_refl 10) hc
  | deposit =>
      simp only [fields, List.forall_mem_cons]
      exact ⟨by decide, by simp⟩
  | exchange pairToken minExpected =>
      obtain ⟨hcode, hasset⟩ := h
      simp only [fields, List.forall_mem_cons]
      refine ⟨by decide, ?_, Asset.slash_not_mem hasset.valid hasset.nonneg, by simp⟩
      exact not_mem_of_isCodeLetter (SymbolCode.isCode_writeAsString hcode.valid hcode.lt).1.letters

/-- The fields of the memo, which the parser doubles if there is only one. -/
theorem Order.memoParser_memo (h : order.Writable) :
    memoParser order.memo =
      if order.fields.length = 1 then order.fields ++ order.fields else order.fields := by
  cases order with
  | deposit => decide
  | stake productName prediction =>
      exact memoParser_intercalate (Order.slash_not_mem h) (by simp [fields])
  | bet betId side =>
      exact memoParser_intercalate (Order.slash_not_mem h) (by simp [fields])
  | exchange pairToken minExpected =>
      exact memoParser_intercalate (Order.slash_not_mem h) (by simp [fields])

theorem ok_bind {α β : Type} (a : α) (f : α → Result β) :
    ((Except.ok a : Result α) >>= f) = f a := rfl

variable {memo first second third : Text}

/-- The handler looks at the first field of an incoming transfer. -/
theorem transferEvent_of_fields [Doubles]
    {rest : List Text} (hin : Incoming env source dest)
    (hfields : memoParser memo = first :: rest) :
    transferEvent env ctx s firstReceiver source dest quantity memo =
      if first = "stake".toList then do
        let position ← predictionField (first :: rest)
        let position ← Name.ofText position
        let productName ← stakeProduct (first :: rest)
        stake env ctx s source quantity productName (some position)
      else if first = "bet".toList then do
        let (betId, position) ← betTarget (first :: rest)
        let s ← bet ctx s source quantity betId position
        return (s, [])
      else if first = "deposit".toList then do
        check (env.isDexOpen = true) "DEX is not open"
        let s ← addSignedExtBalance s source ⟨quantity, firstReceiver⟩
        return (s, [])
      else if first = "exchange".toList then do
        check (env.isDexOpen = true) "DEX is not open"
        if 3 ≤ (first :: rest).length then
          let pairToken ← field (first :: rest) 1
          let pairToken ← SymbolCode.ofText pairToken
          let minExpected ← field (first :: rest) 2
          let minExpected ← assetFromString minExpected
          memoexchange env s source ⟨quantity, firstReceiver⟩ pairToken minExpected
        else
          return (s, [])
      else
        return (s, []) := by
  rw [transferEvent, if_neg (not_not.mpr hin.1), if_neg hin.2, hfields]
  rfl

/-- The handler carries out the order of a memo. -/
theorem transferEvent_order [Doubles] (h : order.Writable) (hin : Incoming env source dest) :
    transferEvent env ctx s firstReceiver source dest quantity order.memo =
      order.run env ctx s firstReceiver source quantity := by
  have hfields := Order.memoParser_memo h
  cases order with
  | stake productName prediction =>
      have hprediction : predictionField ["stake".toList, productName.writeAsString,
          prediction.writeAsString] = .ok prediction.writeAsString := rfl
      have hproduct : stakeProduct ["stake".toList, productName.writeAsString,
          prediction.writeAsString] = .ok productName := productName.ofText_writeAsString
      rw [transferEvent_of_fields hin hfields, if_pos rfl, hprediction, ok_bind,
        Name.ofText_writeAsString, ok_bind, hproduct]
      rfl
  | bet betId side =>
      have htarget : betTarget ["bet".toList, Nat.toDigits 10 betId, side.text] =
          .ok (betId, side.text) := by
        have hread := stoull_toDigits h
        simp only [betTarget, bind_eq_ok_iff, pure_eq_ok_iff]
        exact ⟨_, rfl, _, hread, _, rfl, rfl⟩
      rw [transferEvent_of_fields hin hfields, if_neg (by decide), if_pos rfl, htarget]
      rfl
  | deposit =>
      rw [transferEvent_of_fields hin hfields, if_neg (by decide), if_neg (by decide), if_pos rfl]
      rfl
  | exchange pairToken minExpected =>
      obtain ⟨hcode, hasset⟩ := h
      have hpair := hcode.ofText
      have hread := hasset.assetFromString
      have hfirst : field ["exchange".toList, pairToken.writeAsString,
          minExpected.writeAsString] 1 = .ok pairToken.writeAsString := rfl
      have hsecond : field ["exchange".toList, pairToken.writeAsString,
          minExpected.writeAsString] 2 = .ok minExpected.writeAsString := rfl
      rw [transferEvent_of_fields hin hfields, if_neg (by decide), if_neg (by decide),
        if_neg (by decide), if_pos rfl, if_pos (by simp), hfirst, ok_bind, hpair, ok_bind, hsecond,
        ok_bind, hread]
      rfl

/-- The fields of a memo tell the order. -/
theorem Order.fields_inj (h : order.Writable) (h' : order'.Writable)
    (hfields : order'.fields = order.fields) : order' = order := by
  cases order with
  | stake productName prediction =>
      cases order' with
      | stake productName' prediction' =>
          simp only [fields, List.cons.injEq, and_true, true_and] at hfields
          have hproduct := productName'.ofText_writeAsString
          have hprediction := prediction'.ofText_writeAsString
          rw [hfields.1, Name.ofText_writeAsString] at hproduct
          rw [hfields.2, Name.ofText_writeAsString] at hprediction
          rw [Except.ok.inj hproduct, Except.ok.inj hprediction]
      | _ => exact absurd (List.cons.inj hfields).1 (by decide)
  | bet betId side =>
      cases order' with
      | bet betId' side' =>
          simp only [fields, List.cons.injEq, and_true, true_and] at hfields
          have hbetId := stoull_toDigits h'
          rw [hfields.1, stoull_toDigits h] at hbetId
          have hside : side' = side := by
            have htext := hfields.2
            revert htext
            cases side' <;> cases side <;> decide
          rw [Except.ok.inj hbetId, hside]
      | _ => exact absurd (List.cons.inj hfields).1 (by decide)
  | deposit =>
      cases order' with
      | deposit => rfl
      | _ => exact absurd (List.cons.inj hfields).1 (by decide)
  | exchange pairToken minExpected =>
      cases order' with
      | exchange pairToken' minExpected' =>
          simp only [fields, List.cons.injEq, and_true, true_and] at hfields
          have hpair := h'.1.ofText
          have hread := h'.2.assetFromString
          rw [hfields.1, h.1.ofText] at hpair
          rw [hfields.2, h.2.assetFromString] at hread
          rw [Except.ok.inj hpair, Except.ok.inj hread]
      | _ => exact absurd (List.cons.inj hfields).1 (by decide)

theorem Order.memo_inj (h : order.Writable) (h' : order'.Writable)
    (hmemo : order'.memo = order.memo) : order' = order := by
  have hsplit : ∀ o : Order, o.Writable → o.memo.splitOn '/' = o.fields := by
    intro o ho
    refine List.splitOn_intercalate '/' (Order.slash_not_mem ho) ?_
    cases o <;> simp [fields]
  refine Order.fields_inj h h' ?_
  rw [← hsplit order h, ← hsplit order' h', hmemo]

/-- Every order has a memo of its own, and a transfer with this memo carries it out. -/
theorem every_order_has_its_memo [Doubles] (h : order.Writable) (hin : Incoming env source dest) :
    transferEvent env ctx s firstReceiver source dest quantity order.memo =
        order.run env ctx s firstReceiver source quantity ∧
      ∀ order' : Order, order'.Writable → order'.memo = order.memo → order' = order :=
  ⟨transferEvent_order h hin, fun _ h' hmemo => Order.memo_inj h h' hmemo⟩

open Binary64

/-- Alice bets on a fall of the price. -/
theorem every_order_has_its_memo_sample :
    (Order.bet 7 .short).memo = "bet/7/short".toList ∧
      transferEvent sampleEnv (sampleCtx 1000 "alice") State.empty ledTokenContract
          (nameLiteral "alice") sampleEnv.self ⟨10000, ledSymbol⟩ (Order.bet 7 .short).memo =
        (Order.bet 7 .short).run sampleEnv (sampleCtx 1000 "alice") State.empty ledTokenContract
          (nameLiteral "alice") ⟨10000, ledSymbol⟩ := by
  have hbet : (Order.bet 7 .short).Writable := show 7 < 2 ^ 64 by norm_num
  exact ⟨by decide +kernel, (every_order_has_its_memo hbet (by decide +kernel)).1⟩

end Orders

end Lemonade
