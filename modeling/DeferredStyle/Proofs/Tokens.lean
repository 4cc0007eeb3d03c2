import DeferredStyle.Json.Printer
import DeferredStyle.Json.Scanner
import DeferredStyle.Proofs.Results
import Mathlib.Data.List.Basic
import Mathlib.Tactic.SplitIfs

/-!
# Reading written tokens

Every character of a string is written so that its bytes are read, and the digits of an integer are
read as the integer.  Whether the text of a double is read as the double is left open: the reader
rounds twice.  What stands behind a number does not change it, unless it continues the number.

* `Text.bytes` — the bytes of a text.
* `Json.readString_escaped` — a written string is read back.
* `Json.readNumber_append` — a number ends where nothing continues it.
* `Json.Rereads` — the text of a number is read as the number; `Json.rereads_natural` and
  `Json.rereads_negative`, all integers.
-/

set_option autoImplicit false

namespace DeferredStyle

/-! ## Bytes of texts -/

namespace Text

/-- The bytes of a text. -/
def bytes (text : String) : List UInt8 := text.toUTF8.toList

theorem toList_loop (bytes : ByteArray) (i : Nat) (front : List UInt8) :
    ByteArray.toList.loop bytes i front = front.reverse ++ bytes.data.toList.drop i := by
  fun_induction ByteArray.toList.loop bytes i front with
  | case1 i front h ih =>
    have hi : i < bytes.data.toList.length := h
    have hbyte : bytes.get! i = bytes.data.toList[i] := getElem!_pos bytes.data i h
    rw [ih, hbyte, List.drop_eq_getElem_cons hi, List.reverse_cons, List.append_assoc]
    rfl
  | case2 i front h =>
    rw [List.drop_eq_nil_of_le (Nat.le_of_not_lt h), List.append_nil]

theorem bytes_eq (text : String) : bytes text = text.toList.flatMap String.utf8EncodeChar := by
  have hdata : text.toUTF8 = (text.toList.flatMap String.utf8EncodeChar).toByteArray := by
    rw [← List.utf8Encode, ← String.toByteArray_ofList, String.ofList_toList]
    rfl
  have hloop := toList_loop text.toUTF8 0 []
  rw [hdata, List.data_toByteArray] at hloop
  rw [bytes, hdata]
  exact hloop

theorem bytes_append (text text' : String) : bytes (text ++ text') = bytes text ++ bytes text' := by
  rw [bytes_eq, bytes_eq, bytes_eq, String.toList_append, List.flatMap_append]

theorem bytes_ofList (cs : List Char) :
    bytes (String.ofList cs) = cs.flatMap String.utf8EncodeChar := by
  rw [bytes_eq, String.toList_ofList]

end Text

namespace Json

open Text (bytes bytes_eq bytes_append bytes_ofList)

/-! ## Strings -/

/-- A byte that stands for itself between quotes. -/
def IsPlain (b : UInt8) : Prop := b ≠ 0x22 ∧ b ≠ 0x5c ∧ ¬b < 0x20

theorem readStringFrom_plain {b : UInt8} (h : IsPlain b) (taken rest : List UInt8) :
    readStringFrom taken (b :: rest) = readStringFrom (b :: taken) rest := by
  obtain ⟨hquote, hescape, hcontrol⟩ := h
  rw [readStringFrom]
  · rw [if_neg hcontrol]
  · exact hquote
  -- every other pattern starts with a backslash
  all_goals
    intros
    exact hescape ‹b = 0x5c›

theorem readStringFrom_plains {bytes : List UInt8} (h : ∀ b ∈ bytes, IsPlain b)
    (taken rest : List UInt8) :
    readStringFrom taken (bytes ++ rest) = readStringFrom (bytes.reverse ++ taken) rest := by
  induction bytes generalizing taken with
  | nil => rfl
  | cons b bytes ih =>
    obtain ⟨hb, hbytes⟩ := List.forall_mem_cons.mp h
    rw [List.cons_append, readStringFrom_plain hb, ih hbytes, List.reverse_cons, List.append_assoc]
    rfl

theorem readStringFrom_shortEscape {b byte : UInt8} (hb : b ≠ 0x75) (h : shortEscape? b = some byte)
    (taken rest : List UInt8) :
    readStringFrom taken (0x5c :: b :: rest) = readStringFrom (byte :: taken) rest := by
  rw [readStringFrom]
  · rw [h]
  all_goals
    intros
    exact hb ‹b = 0x75›

theorem readStringFrom_unit {a b c d : UInt8} {unit : Nat} (h : hexUnit a b c d = .ok unit)
    (hunit : unit < 0xd800) (taken rest : List UInt8) :
    readStringFrom taken (0x5c :: 0x75 :: a :: b :: c :: d :: rest) =
      readStringFrom (pushCodePoint taken unit) rest := by
  have hlow : ¬(0xdc00 ≤ unit ∧ unit ≤ 0xdfff) := by omega
  rw [readStringFrom, h]
  dsimp only
  rw [if_neg hlow, if_pos (.inl hunit)]

theorem isPlain_iff {b : UInt8} :
    IsPlain b ↔ b.toNat ≠ 0x22 ∧ b.toNat ≠ 0x5c ∧ 0x20 ≤ b.toNat := by
  rw [IsPlain, Ne, Ne, ← UInt8.toNat_inj, ← UInt8.toNat_inj, UInt8.lt_iff_toNat_lt, Nat.not_lt]
  rfl

/-- The bytes of a character that is written as itself stand for themselves: they are the character
or not ASCII. -/
theorem isPlain_of_mem_utf8EncodeChar {c : Char} (hquote : c ≠ '"') (hescape : c ≠ '\\')
    (hcontrol : ¬c.toNat < 0x20) : ∀ b ∈ String.utf8EncodeChar c, IsPlain b := by
  have hquote : c.val.toNat ≠ 0x22 := fun h => hquote (Char.toNat_inj.mp h)
  have hescape : c.val.toNat ≠ 0x5c := fun h => hescape (Char.toNat_inj.mp h)
  have hcontrol : ¬c.val.toNat < 0x20 := hcontrol
  have hlarge (n : Nat) (hlow : 0x80 ≤ n) (hhigh : n < 0x100) : IsPlain (UInt8.ofNat n) := by
    rw [isPlain_iff, UInt8.toNat_ofNat_of_lt' hhigh]
    omega
  unfold String.utf8EncodeChar
  dsimp only
  split_ifs
  · have hsmall : c.val.toNat < UInt8.size := Nat.lt_of_le_of_lt ‹_› (by decide)
    rw [List.forall_mem_singleton, isPlain_iff, UInt8.toNat_ofNat_of_lt' hsmall]
    omega
  all_goals
    intro b hb
    simp only [List.mem_cons, List.not_mem_nil, or_false] at hb
    rcases hb with rfl | rfl | rfl | rfl
    all_goals exact hlarge _ (by omega) (by omega)

/-- The two digits of a control character. -/
theorem hexUnit_control : ∀ n < 0x20,
    let high := (hexChar (n / 16)).val.toUInt8
    let low := (hexChar (n % 16)).val.toUInt8
    [hexChar (n / 16), hexChar (n % 16)].flatMap String.utf8EncodeChar = [high, low] ∧
      hexUnit 0x30 0x30 high low = .ok n := by
  decide

/-- A written character is read as the bytes of the character. -/
theorem readStringFrom_escapeChar (c : Char) (taken rest : List UInt8) :
    readStringFrom taken ((escapeChar c).flatMap String.utf8EncodeChar ++ rest) =
      readStringFrom ((String.utf8EncodeChar c).reverse ++ taken) rest := by
  unfold escapeChar
  split_ifs with hquote hescape _ _ _ _ _ hcontrol
  on_goal 9 =>
    rw [List.flatMap_singleton]
    exact readStringFrom_plains (isPlain_of_mem_utf8EncodeChar hquote hescape hcontrol) taken rest
  on_goal 8 =>
    obtain ⟨hbytes, hunit⟩ := hexUnit_control c.toNat hcontrol
    show readStringFrom taken (([0x5c, 0x75, 0x30, 0x30] ++
      [hexChar (c.toNat / 16), hexChar (c.toNat % 16)].flatMap String.utf8EncodeChar) ++ rest) = _
    rw [hbytes]
    have hstep := readStringFrom_unit hunit (by omega) taken rest
    rw [pushCodePoint, Char.ofNat_toNat] at hstep
    exact hstep
  all_goals
    subst_vars
    exact readStringFrom_shortEscape (by decide) rfl taken rest

theorem readStringFrom_escapeChars (cs : List Char) (taken rest : List UInt8) :
    readStringFrom taken ((cs.flatMap escapeChar).flatMap String.utf8EncodeChar ++ rest) =
      readStringFrom ((cs.flatMap String.utf8EncodeChar).reverse ++ taken) rest := by
  induction cs generalizing taken with
  | nil => rfl
  | cons c cs ih =>
    rw [List.flatMap_cons, List.flatMap_append, List.append_assoc, readStringFrom_escapeChar, ih,
      List.flatMap_cons, List.reverse_append, List.append_assoc]

theorem finishString_reverse (s : String) : finishString (bytes s).reverse = .ok s := by
  have hbytes : (⟨(bytes s).reverse.reverse.toArray⟩ : ByteArray) = s.toByteArray := by
    rw [List.reverse_reverse, bytes_eq, ← List.data_toByteArray, ← List.utf8Encode,
      ← String.toByteArray_ofList, String.ofList_toList]
  rw [finishString, hbytes, String.fromUTF8?, dif_pos s.isValidUTF8]
  rfl

/-- What is written between the quotes of a string. -/
def escaped (s : String) : List UInt8 :=
  (s.toList.flatMap escapeChar).flatMap String.utf8EncodeChar

theorem bytes_quote (s : String) : bytes (quote s) = 0x22 :: (escaped s ++ [0x22]) := by
  rw [quote, bytes_ofList, List.flatMap_append]
  rfl

/-- **A written string is read back.** -/
theorem readString_escaped (s : String) (rest : List UInt8) :
    readString (escaped s ++ 0x22 :: rest) = .ok (s, rest) := by
  rw [readString, escaped, readStringFrom_escapeChars, List.append_nil, ← bytes_eq, readStringFrom,
    finishString_reverse]

/-! ## Numbers -/

/-- No digit, point or exponent mark stands here. -/
def Delimited (rest : List UInt8) : Prop :=
  ∀ b ∈ rest.head?, digit? b = none ∧ b ≠ 0x2e ∧ b ≠ 0x65 ∧ b ≠ 0x45

theorem spanDigits_append {rest : List UInt8} (h : ∀ b ∈ rest.head?, digit? b = none)
    (text : List UInt8) :
    spanDigits (text ++ rest) = ((spanDigits text).1, (spanDigits text).2 ++ rest) := by
  induction text with
  | nil =>
    cases rest with
    | nil => rfl
    | cons b rest =>
      show spanDigits (b :: rest) = ([], b :: rest)
      rw [spanDigits, h b rfl]
  | cons b text ih =>
    rw [List.cons_append, spanDigits, spanDigits]
    cases digit? b with
    | none => rfl
    | some digit => rw [ih]

theorem readWhole_eq_ok_iff {text behind : List UInt8} {digits : List Nat} :
    readWhole text = .ok (digits, behind) ↔
      spanDigits text = (digits, behind) ∧ digits ≠ [] ∧ ∀ d ds, digits ≠ 0 :: d :: ds := by
  unfold readWhole
  constructor
  · intro h
    split at h
    · cases h
    · cases h
    · rename_i hnil hzero hspan
      cases h
      exact ⟨hspan, hnil, hzero⟩
  · rintro ⟨hspan, hnil, hzero⟩
    rw [hspan]
    split
    all_goals
      rename_i heq
      cases heq
    · exact absurd rfl hnil
    · exact absurd rfl (hzero _ _)
    · rfl

/-- The text is a minus sign and the digits, or the digits alone. -/
inductive Signed : List UInt8 → Bool → List UInt8 → Prop
  | minus (digits : List UInt8) : Signed (0x2d :: digits) true digits
  | plain {digits : List UInt8} (h : ∀ b ∈ digits.head?, b ≠ 0x2d) : Signed digits false digits

theorem Signed.append {text digits : List UInt8} {negative : Bool}
    (h : Signed text negative digits) (hdigits : digits ≠ []) (rest : List UInt8) :
    Signed (text ++ rest) negative (digits ++ rest) := by
  cases h with
  | minus => exact .minus _
  | plain h =>
    refine .plain ?_
    rwa [List.head?_append_of_ne_nil _ hdigits]

theorem readNumber_eq_ok_iff {text behind : List UInt8} {n : Number} :
    readNumber text = .ok (n, behind) ↔ ∃ negative digits w, Signed text negative digits ∧
      readUnsigned negative digits = .ok (w, behind) ∧ w.value = .ok n := by
  have hvalue (result : Except Fault (Written × List UInt8)) :
      (result >>= fun read => read.1.value >>= fun n => pure (n, read.2)) = .ok (n, behind) ↔
      ∃ w, result = .ok (w, behind) ∧ w.value = .ok n := by
    constructor
    · intro h
      obtain ⟨⟨w, rest⟩, hresult, h⟩ := bind_eq_ok_iff.mp h
      obtain ⟨value, hvalue, h⟩ := bind_eq_ok_iff.mp h
      cases h
      exact ⟨w, hresult, hvalue⟩
    · rintro ⟨w, rfl, hvalue⟩
      exact bind_eq_ok_iff.mpr ⟨(w, behind), rfl, bind_eq_ok_iff.mpr ⟨n, hvalue, rfl⟩⟩
  constructor
  · intro h
    unfold readNumber at h
    dsimp only at h
    split at h
    · rename_i digits
      obtain ⟨w, hread, hw⟩ := (hvalue _).mp h
      exact ⟨true, digits, w, .minus digits, hread, hw⟩
    · rename_i hminus
      obtain ⟨w, hread, hw⟩ := (hvalue _).mp h
      refine ⟨false, text, w, .plain fun b hb heq => ?_, hread, hw⟩
      obtain ⟨tail, rfl⟩ := List.head?_eq_some_iff.mp hb
      exact hminus tail (by rw [heq])
  · rintro ⟨negative, digits, w, hsign, hread, hw⟩
    unfold readNumber
    dsimp only
    cases hsign with
    | minus => exact (hvalue _).mpr ⟨w, hread, hw⟩
    | plain h =>
      split
      · exact absurd rfl (h _ rfl)
      · exact (hvalue _).mpr ⟨w, hread, hw⟩

theorem readFraction_of_no_point {text : List UInt8} (h : ∀ b ∈ text.head?, b ≠ 0x2e) :
    readFraction text = .ok (none, text) := by
  unfold readFraction
  split
  · exact absurd rfl (h _ rfl)
  · rfl

theorem readExponent_of_no_mark {text : List UInt8}
    (h : ∀ b ∈ text.head?, b ≠ 0x65 ∧ b ≠ 0x45) : readExponent text = .ok (none, text) := by
  unfold readExponent
  split
  · rw [if_neg (not_or.mpr (h _ rfl))]
  · rfl

theorem forall_head?_append {p : UInt8 → Prop} {text rest : List UInt8}
    (htext : ∀ b tail, text = b :: tail → p b) (hrest : ∀ b ∈ rest.head?, p b) :
    ∀ b ∈ (text ++ rest).head?, p b := by
  cases text with
  | nil => exact hrest
  | cons b tail =>
    intro b' hb'
    cases hb'
    exact htext b tail rfl

section Append

variable {rest : List UInt8} (hrest : Delimited rest)

include hrest

theorem spanDigits_delimited (text : List UInt8) :
    spanDigits (text ++ rest) = ((spanDigits text).1, (spanDigits text).2 ++ rest) :=
  spanDigits_append (fun b hb => (hrest b hb).1) text

theorem readWhole_append {text behind : List UInt8} {digits : List Nat}
    (h : readWhole text = .ok (digits, behind)) :
    readWhole (text ++ rest) = .ok (digits, behind ++ rest) := by
  obtain ⟨hspan, hdigits⟩ := readWhole_eq_ok_iff.mp h
  refine readWhole_eq_ok_iff.mpr ⟨?_, hdigits⟩
  rw [spanDigits_delimited hrest, hspan]

theorem readFraction_append {text behind : List UInt8} {fraction : Option (List Nat)}
    (h : readFraction text = .ok (fraction, behind)) :
    readFraction (text ++ rest) = .ok (fraction, behind ++ rest) := by
  unfold readFraction at h
  split at h
  · rename_i text
    rw [List.cons_append, readFraction, spanDigits_delimited hrest]
    generalize spanDigits text = span at h
    obtain ⟨digits, tail⟩ := span
    cases digits with
    | nil => cases h
    | cons digit digits =>
      cases h
      rfl
  · rename_i hpoint
    cases h
    exact readFraction_of_no_point (forall_head?_append
      (fun b tail htext hb => hpoint tail (by rw [htext, hb])) fun b hb => (hrest b hb).2.1)

theorem readExponentDigits_append {negative : Bool} {text behind : List UInt8}
    {exponent : Option Int} (h : readExponentDigits negative text = .ok (exponent, behind)) :
    readExponentDigits negative (text ++ rest) = .ok (exponent, behind ++ rest) := by
  unfold readExponentDigits at *
  rw [spanDigits_delimited hrest]
  generalize spanDigits text = span at h
  obtain ⟨digits, tail⟩ := span
  cases digits with
  | nil => cases h
  | cons digit digits =>
    cases h
    rfl

theorem readExponent_append {text behind : List UInt8} {exponent : Option Int}
    (h : readExponent text = .ok (exponent, behind)) :
    readExponent (text ++ rest) = .ok (exponent, behind ++ rest) := by
  cases text with
  | nil =>
    cases h
    exact readExponent_of_no_mark fun b hb => (hrest b hb).2.2
  | cons mark text =>
    rw [List.cons_append]
    unfold readExponent at *
    dsimp only at *
    split
    · rename_i hmark
      rw [if_pos hmark] at h
      split at h
      · exact readExponentDigits_append hrest h
      · exact readExponentDigits_append hrest h
      · rename_i hplus hminus
        have hdigits := readExponentDigits_append hrest h
        -- a mark without digits is a fault, so the text goes on with a digit and not with a sign
        cases text with
        | nil => cases h
        | cons b tail =>
          split
          · rename_i heq
            cases heq
            exact absurd rfl (hplus _)
          · rename_i heq
            cases heq
            exact absurd rfl (hminus _)
          · exact hdigits
    · rename_i hmark
      rw [if_neg hmark] at h
      cases h
      rfl

theorem readUnsigned_append {negative : Bool} {text behind : List UInt8} {w : Written}
    (h : readUnsigned negative text = .ok (w, behind)) :
    readUnsigned negative (text ++ rest) = .ok (w, behind ++ rest) := by
  unfold readUnsigned at *
  obtain ⟨⟨whole, afterWhole⟩, hwhole, h⟩ := bind_eq_ok_iff.mp h
  obtain ⟨⟨fraction, afterFraction⟩, hfraction, h⟩ := bind_eq_ok_iff.mp h
  obtain ⟨⟨exponent, afterExponent⟩, hexponent, h⟩ := bind_eq_ok_iff.mp h
  cases h
  refine bind_eq_ok_iff.mpr ⟨_, readWhole_append hrest hwhole, ?_⟩
  refine bind_eq_ok_iff.mpr ⟨_, readFraction_append hrest hfraction, ?_⟩
  exact bind_eq_ok_iff.mpr ⟨_, readExponent_append hrest hexponent, rfl⟩

/-- **A number ends where nothing continues it.** -/
theorem readNumber_append {text behind : List UInt8} {n : Number}
    (h : readNumber text = .ok (n, behind)) :
    readNumber (text ++ rest) = .ok (n, behind ++ rest) := by
  obtain ⟨negative, digits, w, hsign, hread, hvalue⟩ := readNumber_eq_ok_iff.mp h
  have hdigits : digits ≠ [] := by
    rintro rfl
    cases hread
  exact readNumber_eq_ok_iff.mpr
    ⟨negative, digits ++ rest, w, hsign.append hdigits rest, readUnsigned_append hrest hread,
      hvalue⟩

end Append

/-- The text is made of the digits of the number, without zeros in front. -/
structure Denotes (text : List UInt8) (digits : List Nat) (n : Nat) : Prop where
  span : spanDigits text = (digits, [])
  ne_nil : digits ≠ []
  value : Decimal.ofDigits 0 digits = n
  head : 0 < n → ∀ rest, digits ≠ 0 :: rest
  single : n = 0 → digits = [0]

theorem spanDigits_append_of_digits {text : List UInt8} {digits : List Nat}
    (h : spanDigits text = (digits, [])) (rest : List UInt8) :
    spanDigits (text ++ rest) = (digits ++ (spanDigits rest).1, (spanDigits rest).2) := by
  induction text generalizing digits with
  | nil =>
    cases h
    rfl
  | cons b text ih =>
    rw [spanDigits] at h
    rw [List.cons_append, spanDigits]
    cases hdigit : digit? b with
    | none =>
      rw [hdigit] at h
      cases h
    | some digit =>
      rw [hdigit] at h
      generalize hspan : spanDigits text = span at h
      obtain ⟨tail, behind⟩ := span
      cases h
      rw [ih hspan]
      rfl

theorem spanDigits_digitChar : ∀ digit < 10,
    spanDigits (String.utf8EncodeChar (Nat.digitChar digit)) = ([digit], []) := by
  decide

theorem exists_denotes (n : Nat) : ∃ digits, Denotes (bytes (toString n)) digits n := by
  have hbytes (n : Nat) : bytes (toString n) = (Nat.toDigits 10 n).flatMap String.utf8EncodeChar :=
    bytes_ofList _
  rw [hbytes]
  induction n using Nat.strongRecOn with
  | ind n ih =>
    by_cases hsmall : n < 10
    · rw [Nat.toDigits_of_lt_base hsmall, List.flatMap_singleton]
      refine ⟨[n], spanDigits_digitChar n hsmall, by simp, by simp [Decimal.ofDigits],
        fun hpos rest h => ?_, fun hzero => by rw [hzero]⟩
      cases h
      omega
    · have hlarge : 10 ≤ n := Nat.le_of_not_lt hsmall
      obtain ⟨digits, hdigits⟩ := ih (n / 10) (by omega)
      have hlast := spanDigits_digitChar (n % 10) (by omega)
      rw [Nat.toDigits_of_base_le (by decide) hlarge, List.flatMap_append, List.flatMap_singleton]
      refine ⟨digits ++ [n % 10], ?_, by simp, ?_, fun _ rest h => ?_, by omega⟩
      · rw [spanDigits_append_of_digits hdigits.span, hlast]
      · have hvalue : Decimal.ofDigits 0 (digits ++ [n % 10]) =
            10 * Decimal.ofDigits 0 digits + n % 10 := List.foldl_append
        rw [hvalue, hdigits.value]
        omega
      · obtain ⟨first, tail, rfl⟩ := List.exists_cons_of_ne_nil hdigits.ne_nil
        cases h
        exact hdigits.head (by omega) tail rfl

theorem le_ofDigits (start : Nat) (digits : List Nat) : start ≤ Decimal.ofDigits start digits := by
  induction digits generalizing start with
  | nil => exact Nat.le_refl start
  | cons digit digits ih =>
    have hstep := ih (10 * start + digit)
    rw [Decimal.ofDigits, List.foldl_cons, ← Decimal.ofDigits]
    omega

theorem absorb_eq {significand : Nat} {digits : List Nat}
    (h : Decimal.ofDigits significand digits < UInt64.size) :
    absorb significand digits = (Decimal.ofDigits significand digits, digits.length, 0) := by
  induction digits generalizing significand with
  | nil => rfl
  | cons digit digits ih =>
    have hle : 10 * significand + digit ≤ Decimal.ofDigits significand (digit :: digits) :=
      le_ofDigits _ _
    rw [absorb, if_pos (Nat.lt_of_le_of_lt hle h), ih h]
    rfl

/-- The digits of a number of 64 bits are read as the number. -/
theorem readUnsigned_toString (negative : Bool) {n : Nat} (h : n < UInt64.size) :
    ∃ w, readUnsigned negative (bytes (toString n)) = .ok (w, []) ∧
      w.value = .ok (integer negative n) := by
  obtain ⟨digits, hdigits⟩ := exists_denotes n
  refine ⟨⟨negative, digits, none, none⟩, ?_, ?_⟩
  · refine bind_eq_ok_iff.mpr ⟨(digits, []), ?_, rfl⟩
    refine readWhole_eq_ok_iff.mpr ⟨hdigits.span, hdigits.ne_nil, fun d ds heq => ?_⟩
    rcases Nat.eq_zero_or_pos n with hzero | hpos
    · rw [hdigits.single hzero] at heq
      cases heq
    · exact hdigits.head hpos _ heq
  · rw [← hdigits.value] at h
    rw [Written.value, absorb_eq h, hdigits.value]
    rfl

/-- The text of a number is read as the number, and not as a number of another class. -/
def Rereads (n : Number) : Prop := readNumber (bytes (numberText n)) = .ok (n, [])

theorem rereads_natural (n : UInt64) : Rereads (.natural n) := by
  obtain ⟨w, hread, hvalue⟩ := readUnsigned_toString false n.toNat_lt
  have hinteger : integer false n.toNat = .natural n := by
    show Number.natural (UInt64.ofNat n.toNat) = .natural n
    rw [UInt64.ofNat_toNat]
  rw [hinteger] at hvalue
  refine readNumber_eq_ok_iff.mpr ⟨false, _, w, .plain fun b hb hminus => ?_, hread, hvalue⟩
  obtain ⟨tail, htail⟩ := List.head?_eq_some_iff.mp hb
  rw [numberText] at htail
  rw [htail, hminus] at hread
  cases hread

theorem rereads_negative {n : Int64} (h : n < 0) : Rereads (.negative n) := by
  have hneg : n.toInt < 0 := Int64.lt_iff_toInt_lt.mp h
  have hlow : -2 ^ 63 ≤ n.toInt := Int64.le_toInt n
  obtain ⟨m, hm⟩ := Int.eq_negSucc_of_lt_zero hneg
  have hsize : m + 1 ≤ 0x8000000000000000 := by
    rw [hm, Int.negSucc_eq] at hlow
    omega
  obtain ⟨w, hread, hvalue⟩ := readUnsigned_toString true (Nat.lt_of_le_of_lt hsize (by decide))
  have hinteger : integer true (m + 1) = .negative n := by
    rw [integer, if_neg (by decide), if_pos ⟨Nat.succ_pos m, hsize⟩]
    have hvalue : -((m + 1 : Nat) : Int) = n.toInt := by
      rw [hm, Int.negSucc_eq]
      rfl
    rw [hvalue, Int64.ofInt_toInt]
  have hminus : bytes "-" = [0x2d] := by
    rw [bytes_eq]
    rfl
  have htext : bytes (numberText (.negative n)) = 0x2d :: bytes (toString (m + 1)) := by
    have happend : numberText (.negative n) = "-" ++ toString (m + 1) := by
      rw [numberText, hm]
      rfl
    rw [happend, bytes_append, hminus]
    rfl
  rw [hinteger] at hvalue
  rw [Rereads, htext]
  exact readNumber_eq_ok_iff.mpr ⟨true, _, w, .minus _, hread, hvalue⟩

/-! ### Doubles -/

theorem divideByTens_of_le (x : Float) {n : Nat} (h : n ≤ 308) :
    divideByTens x n = if x == 0.0 then x else x / tenTo n := by
  rw [divideByTens, if_pos h]

/-- The value of a number with a fraction or an exponent. -/
theorem Written.value_eq_float {w : Written} (hfloat : w.fraction ≠ none ∨ w.exponent ≠ none)
    {whole read left significand taken dropped : Nat} {exponent : Int} {x : Float}
    (hwhole : absorb 0 w.whole = (whole, read, left))
    (hfraction : absorb whole (w.fraction.getD []) = (significand, taken, dropped))
    (hexponent : (left : Int) - taken + w.exponent.getD 0 = exponent)
    (hscale : scale? significand exponent = some x) :
    w.value = .ok (.float (if w.negative then -x else x)) := by
  rw [Written.value, hwhole]
  dsimp only
  split
  · rename_i hnoFraction hnoExponent
    exact absurd hfloat (by simp [hnoFraction, hnoExponent])
  · rw [hfraction]
    dsimp only
    rw [hexponent, hscale]

/-- Not every double is read back, as there is one rounding for the power of ten and another for the
product. -/
theorem not_rereads_float : (3e23 : Float).isFinite = true ∧ ¬Rereads (.float 3e23) := by
  have htext : numberText (.float 3e23) = "3e+23" := by decide +kernel
  have hbytes : bytes "3e+23" = [0x33, 0x65, 0x2b, 0x32, 0x33] := (bytes_eq _).trans rfl
  obtain ⟨y, hscale, hne⟩ : ∃ y, scale? 3 23 = some y ∧ y ≠ 3e23 :=
    ⟨3.0 * tenTo 23, by decide +kernel, by decide +kernel⟩
  have hvalue : (Written.mk false [3] none (some 23)).value = .ok (.float y) :=
    Written.value_eq_float (.inr (by decide)) rfl rfl rfl hscale
  have hread : readNumber [0x33, 0x65, 0x2b, 0x32, 0x33] = .ok (.float y, []) :=
    readNumber_eq_ok_iff.mpr ⟨false, _, _, .plain (by simp), rfl, hvalue⟩
  refine ⟨by decide +kernel, fun h => ?_⟩
  rw [Rereads, htext, hbytes, hread] at h
  exact hne (Number.float.inj (congrArg Prod.fst (Except.ok.inj h)))

/-- The text of a number starts with a minus sign or a digit. -/
theorem Rereads.start {n : Number} (h : Rereads n) :
    ∃ b rest, bytes (numberText n) = b :: rest ∧ (b = 0x2d ∨ (0x30 ≤ b ∧ b ≤ 0x39)) := by
  obtain ⟨negative, digits, w, hsign, hread, -⟩ := readNumber_eq_ok_iff.mp h
  generalize bytes (numberText n) = text at hsign
  cases hsign with
  | minus => exact ⟨_, _, rfl, .inl rfl⟩
  | plain =>
    obtain ⟨⟨whole, behind⟩, hwhole, -⟩ := bind_eq_ok_iff.mp hread
    obtain ⟨hspan, hne, -⟩ := readWhole_eq_ok_iff.mp hwhole
    cases digits with
    | nil =>
      cases hspan
      exact absurd rfl hne
    | cons b rest =>
      refine ⟨b, rest, rfl, .inr ?_⟩
      rw [spanDigits, digit?] at hspan
      by_contra hrange
      rw [if_neg hrange] at hspan
      cases hspan
      exact hne rfl

/-- What starts a number starts no other value, and is no gap and no end of a list. -/
theorem ne_of_startsNumber {b : UInt8} (h : b = 0x2d ∨ (0x30 ≤ b ∧ b ≤ 0x39)) :
    isGap b = false ∧ b ≠ 0x5d ∧ b ≠ 0x6e ∧ b ≠ 0x74 ∧ b ≠ 0x66 := by
  rcases h with rfl | ⟨hlow, hhigh⟩
  · decide
  · have hlow : 0x30 ≤ b.toNat := hlow
    have hhigh : b.toNat ≤ 0x39 := hhigh
    have hdigits : ∀ n < 0x3a, 0x30 ≤ n → isGap (UInt8.ofNat n) = false ∧
        UInt8.ofNat n ≠ 0x5d ∧ UInt8.ofNat n ≠ 0x6e ∧ UInt8.ofNat n ≠ 0x74 ∧
          UInt8.ofNat n ≠ 0x66 := by
      decide
    have hb := hdigits b.toNat (by omega) hlow
    rwa [UInt8.ofNat_toNat] at hb

end Json

end DeferredStyle
