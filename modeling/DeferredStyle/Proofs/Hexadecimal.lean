import DeferredStyle.Style.Color
import Mathlib.Data.List.Basic

/-!
# Hexadecimal colors

Three, six or eight hexadecimal digits are a color, with or without one `#` in front.  The shorter
forms are abbreviations of eight digits, and a color that was read is written as its eight digits
in upper case.

* `Color.IsHexText` — the digits of a color; `Color.Stands` — with or without `#`.
* `Color.expand` — the eight digits that they abbreviate; `Color.ofDigits?_expand` — they are the
  same color.
* `Color.hex_of_ofDigits?` — writing gives back the eight digits.
* `hexadecimal_colors` — what is read, which texts are read alike, and what is written.
-/

set_option autoImplicit false

namespace DeferredStyle

namespace Color

/-! ## Digits -/

/-- An ASCII digit, or a letter up to `f` in either case. -/
def IsHexDigit (c : Char) : Prop :=
  ('0' ≤ c ∧ c ≤ '9') ∨ ('a' ≤ c ∧ c ≤ 'f') ∨ ('A' ≤ c ∧ c ≤ 'F')

instance (c : Char) : Decidable (IsHexDigit c) :=
  inferInstanceAs (Decidable (_ ∨ _ ∨ _))

/-- The value of a hexadecimal digit. -/
def digitValue (c : Char) : Nat := (hexDigit? c).getD 0

theorem IsHexDigit.toNat_lt {c : Char} (h : IsHexDigit c) : c.toNat < 128 := by
  have hle {d : Char} (hd : c ≤ d) : c.toNat ≤ d.toNat := hd
  have hnine : '9'.toNat = 57 := rfl
  have hlower : 'f'.toNat = 102 := rfl
  have hupper : 'F'.toNat = 70 := rfl
  rcases h with ⟨-, h⟩ | ⟨-, h⟩ | ⟨-, h⟩
  · have := hle h
    omega
  · have := hle h
    omega
  · have := hle h
    omega

/-- What holds of the hexadecimal digits of ASCII holds of all. -/
theorem forall_hexDigit {P : Char → Prop}
    (h : ∀ n < 128, IsHexDigit (Char.ofNat n) → P (Char.ofNat n)) {c : Char} (hc : IsHexDigit c) :
    P c := by
  have hn := h c.toNat hc.toNat_lt
  rw [Char.ofNat_toNat] at hn
  exact hn hc

theorem hexDigit?_eq_some_iff {c : Char} {digit : Nat} :
    hexDigit? c = some digit ↔ IsHexDigit c ∧ digitValue c = digit := by
  by_cases hc : IsHexDigit c
  · have hsome : hexDigit? c = some (digitValue c) := by
      refine forall_hexDigit (P := fun c => hexDigit? c = some (digitValue c)) ?_ hc
      decide
    rw [hsome, Option.some.injEq]
    exact (and_iff_right hc).symm
  · have hnone : hexDigit? c = none := by
      unfold IsHexDigit at hc
      rw [not_or, not_or] at hc
      rw [hexDigit?, if_neg hc.1, if_neg hc.2.1, if_neg hc.2.2]
    simp [hnone, hc]

theorem digitValue_lt {c : Char} (h : IsHexDigit c) : digitValue c < 16 :=
  forall_hexDigit (P := fun c => digitValue c < 16) (by decide) h

theorem hexChar_digitValue {c : Char} (h : IsHexDigit c) : hexChar (digitValue c) = c.toUpper :=
  forall_hexDigit (P := fun c => hexChar (digitValue c) = c.toUpper) (by decide) h

theorem isHexDigit_toUpper {c : Char} (h : IsHexDigit c) : IsHexDigit c.toUpper :=
  forall_hexDigit (P := fun c => IsHexDigit c.toUpper) (by decide) h

/-- Only small letters change in upper case. -/
theorem toUpper_of_not_lower {c : Char} (h : ¬('a'.val ≤ c.val ∧ c.val ≤ 'z'.val)) :
    c.toUpper = c :=
  dif_neg h

/-- The letter case of a digit does not matter. -/
theorem hexDigit?_toUpper (c : Char) : hexDigit? c.toUpper = hexDigit? c := by
  by_cases hlt : c.toNat < 128
  · have hascii : ∀ n < 128, hexDigit? (Char.ofNat n).toUpper = hexDigit? (Char.ofNat n) := by
      decide
    have hc := hascii c.toNat hlt
    rwa [Char.ofNat_toNat] at hc
  · have hz : 'z'.toNat = 122 := rfl
    have hlower : ¬('a'.val ≤ c.val ∧ c.val ≤ 'z'.val) := fun ⟨_, hle⟩ => by
      have hle : c.toNat ≤ 'z'.toNat := hle
      omega
    rw [toUpper_of_not_lower hlower]

theorem hexDigits?_eq_some_iff {cs : List Char} {digits : List Nat} :
    hexDigits? cs = some digits ↔ (∀ c ∈ cs, IsHexDigit c) ∧ cs.map digitValue = digits := by
  induction cs generalizing digits with
  | nil => simp [hexDigits?]
  | cons c cs ih =>
    rw [hexDigits?, List.forall_mem_cons, List.map_cons]
    constructor
    · intro h
      split at h
      · rename_i digit rest hdigit hrest
        cases h
        obtain ⟨hc, rfl⟩ := hexDigit?_eq_some_iff.mp hdigit
        obtain ⟨hcs, rfl⟩ := ih.mp hrest
        exact ⟨⟨hc, hcs⟩, rfl⟩
      · cases h
    · rintro ⟨⟨hc, hcs⟩, rfl⟩
      rw [hexDigit?_eq_some_iff.mpr ⟨hc, rfl⟩, ih.mpr ⟨hcs, rfl⟩]

theorem hexDigits?_map_toUpper (cs : List Char) :
    hexDigits? (cs.map Char.toUpper) = hexDigits? cs := by
  induction cs with
  | nil => rfl
  | cons c cs ih => rw [List.map_cons, hexDigits?, hexDigits?, hexDigit?_toUpper, ih]

/-! ## Texts -/

/-- The digits of a color: three, six or eight of them. -/
structure IsHexText (digits : List Char) : Prop where
  hex : ∀ c ∈ digits, IsHexDigit c
  length : digits.length = 3 ∨ digits.length = 6 ∨ digits.length = 8

/-- The text is made of these characters, with or without one `#` in front. -/
def Stands (text : String) (digits : List Char) : Prop :=
  text.toList = digits ∨ text.toList = '#' :: digits

theorem not_isHexDigit_hash : ¬IsHexDigit '#' := by decide

theorem digitsPart_of_hex {digits : List Char} (h : ∀ c ∈ digits, IsHexDigit c) :
    digitsPart digits = digits := by
  unfold digitsPart
  split
  · exact absurd (h '#' List.mem_cons_self) not_isHexDigit_hash
  · rfl

/-- One `#` is dropped at most. -/
theorem stands_digitsPart (text : String) : Stands text (digitsPart text.toList) := by
  unfold Stands digitsPart
  split
  · rename_i heq
    exact .inr heq
  · exact .inl rfl

theorem ofHex?_of_stands {text : String} {digits : List Char} (hstands : Stands text digits)
    (h : ∀ c ∈ digits, IsHexDigit c) : ofHex? text = ofDigits? (digits.map digitValue) := by
  have hpart : digitsPart text.toList = digits := by
    rcases hstands with heq | heq
    · rw [heq, digitsPart_of_hex h]
    · rw [heq, digitsPart]
  rw [ofHex?, hpart, hexDigits?_eq_some_iff.mpr ⟨h, rfl⟩, Option.bind_some]

theorem ofDigits?_isSome_iff {digits : List Nat} :
    (ofDigits? digits).isSome = true ↔
      digits.length = 3 ∨ digits.length = 6 ∨ digits.length = 8 := by
  unfold ofDigits?
  split
  · simp
  · simp
  · simp
  · rename_i hthree hsix height
    simp only [Option.isSome_none, Bool.false_eq_true, false_iff]
    rintro (hlength | hlength | hlength)
    · obtain ⟨a, b, c, rfl⟩ := List.length_eq_three.mp hlength
      exact hthree a b c rfl
    · match digits with
      | [a, b, c, d, e, f] => exact hsix a b c d e f rfl
    · match digits with
      | [a, b, c, d, e, f, g, h] => exact height a b c d e f g h rfl

/-- **A text is a color exactly if it stands for the digits of one.** -/
theorem ofHex?_isSome_iff {text : String} :
    (ofHex? text).isSome = true ↔ ∃ digits, IsHexText digits ∧ Stands text digits := by
  constructor
  · intro h
    obtain ⟨color, hcolor⟩ := Option.isSome_iff_exists.mp h
    obtain ⟨digits, hdigits, hvalue⟩ := Option.bind_eq_some_iff.mp hcolor
    obtain ⟨hhex, rfl⟩ := hexDigits?_eq_some_iff.mp hdigits
    have hlength := ofDigits?_isSome_iff.mp (Option.isSome_iff_exists.mpr ⟨color, hvalue⟩)
    rw [List.length_map] at hlength
    exact ⟨_, ⟨hhex, hlength⟩, stands_digitsPart text⟩
  · rintro ⟨digits, hdigits, hstands⟩
    rw [ofHex?_of_stands hstands hdigits.hex, ofDigits?_isSome_iff, List.length_map]
    exact hdigits.length

/-- Nothing but `#` becomes `#` in upper case. -/
theorem toUpper_eq_hash_iff {c : Char} : c.toUpper = '#' ↔ c = '#' := by
  by_cases hlower : 'a'.val ≤ c.val ∧ c.val ≤ 'z'.val
  · have hle : 'a'.toNat ≤ c.toNat := hlower.1
    have hle' : c.toNat ≤ 'z'.toNat := hlower.2
    have hz : 'z'.toNat = 122 := rfl
    have hascii : ∀ n < 128, 'a'.toNat ≤ n → (Char.ofNat n).toUpper ≠ '#' ∧ Char.ofNat n ≠ '#' := by
      decide
    have hc := hascii c.toNat (by omega) hle
    rw [Char.ofNat_toNat] at hc
    exact iff_of_false hc.1 hc.2
  · rw [toUpper_of_not_lower hlower]

theorem digitsPart_map_toUpper (cs : List Char) :
    digitsPart (cs.map Char.toUpper) = (digitsPart cs).map Char.toUpper := by
  cases cs with
  | nil => rfl
  | cons c cs =>
    by_cases hc : c = '#'
    · subst hc
      rfl
    · have hupper : c.toUpper ≠ '#' := mt toUpper_eq_hash_iff.mp hc
      rw [List.map_cons, digitsPart, digitsPart, List.map_cons]
      · exact fun _ h => hc (List.head_eq_of_cons_eq h)
      · exact fun _ h => hupper (List.head_eq_of_cons_eq h)

/-- The letter case of a text does not matter. -/
theorem ofHex?_congr_case {text text' : String}
    (h : text.toList.map Char.toUpper = text'.toList.map Char.toUpper) :
    ofHex? text = ofHex? text' := by
  have hupper (text : String) :
      ofHex? text = (hexDigits? (digitsPart (text.toList.map Char.toUpper))).bind ofDigits? := by
    rw [digitsPart_map_toUpper, hexDigits?_map_toUpper]
    rfl
  rw [hupper text, hupper text', h]

/-- Hexadecimal digits take one byte each. -/
theorem utf8ByteSize_of_hex {digits : List Char} (h : ∀ c ∈ digits, IsHexDigit c) :
    (String.ofList digits).utf8ByteSize = digits.length := by
  induction digits with
  | nil => rfl
  | cons c digits ih =>
    obtain ⟨hc, hdigits⟩ := List.forall_mem_cons.mp h
    have hsize : c.utf8Size = 1 := Char.utf8Size_eq_one_iff.mpr (Nat.le_of_lt_succ hc.toNat_lt)
    rw [String.ofList_cons, String.utf8ByteSize_append, String.utf8ByteSize_singleton, hsize,
      ih hdigits, List.length_cons, Nat.add_comm]

/-- A cut behind any number of digits is a cut between characters. -/
theorem isValid_of_hex {digits : List Char} (h : ∀ c ∈ digits, IsHexDigit c) {index : Nat}
    (hindex : index ≤ digits.length) :
    (String.Pos.Raw.mk index).IsValid (String.ofList digits) := by
  have htake : (String.ofList (digits.take index)).utf8ByteSize = index := by
    rw [utf8ByteSize_of_hex fun c hc => h c (List.mem_of_mem_take hc), List.length_take]
    omega
  exact String.Pos.Raw.isValid_ofList.mpr ⟨index, htake.symm⟩

/-! ## Abbreviations -/

section Expand

variable {α β : Type}

/-- Every digit twice. -/
def doubled (digits : List α) : List α := digits.flatMap fun digit => [digit, digit]

/-- The eight digits of a color.  A form of three doubles each of its digits, and a form without
opacity is opaque. -/
def expand (full : α) (digits : List α) : List α :=
  if digits.length = 3 then doubled digits ++ [full, full]
  else if digits.length = 6 then digits ++ [full, full]
  else digits

theorem length_doubled (digits : List α) : (doubled digits).length = 2 * digits.length := by
  induction digits with
  | nil => rfl
  | cons digit digits ih =>
    rw [doubled, List.flatMap_cons, List.length_append, ← doubled, ih, List.length_cons]
    simp only [List.length_cons, List.length_nil]
    omega

theorem mem_doubled {digit : α} {digits : List α} : digit ∈ doubled digits ↔ digit ∈ digits := by
  simp [doubled]

theorem map_doubled (f : α → β) (digits : List α) :
    (doubled digits).map f = doubled (digits.map f) := by
  rw [doubled, doubled, List.map_flatMap, List.flatMap_map]
  rfl

theorem map_expand (f : α → β) (full : α) (digits : List α) :
    (expand full digits).map f = expand (f full) (digits.map f) := by
  rw [expand, expand, List.length_map]
  split
  · rw [List.map_append, map_doubled]
    rfl
  · split
    · rw [List.map_append]
      rfl
    · rfl

theorem mem_of_mem_expand {full digit : α} {digits : List α} (h : digit ∈ expand full digits) :
    digit = full ∨ digit ∈ digits := by
  unfold expand at h
  split at h
  · rcases List.mem_append.mp h with h | h
    · exact .inr (mem_doubled.mp h)
    · exact .inl (by simpa using h)
  · split at h
    · rcases List.mem_append.mp h with h | h
      · exact .inr h
      · exact .inl (by simpa using h)
    · exact .inr h

theorem length_expand {full : α} {digits : List α}
    (h : digits.length = 3 ∨ digits.length = 6 ∨ digits.length = 8) :
    (expand full digits).length = 8 := by
  rcases h with h | h | h
  · rw [expand, if_pos h, List.length_append, length_doubled, h]
    rfl
  · rw [expand, if_neg (by omega), if_pos h, List.length_append, h]
    rfl
  · rw [expand, if_neg (by omega), if_neg (by omega), h]

end Expand

theorem channelOf_full : channelOf 15 15 = 1.0 := by decide +kernel

theorem ofDigits?_doubled {digits : List Nat} (h : digits.length = 3) :
    ofDigits? (doubled digits) = ofDigits? digits := by
  obtain ⟨r, g, b, rfl⟩ := List.length_eq_three.mp h
  rfl

theorem ofDigits?_full {digits : List Nat} (h : digits.length = 6) :
    ofDigits? (digits ++ [15, 15]) = ofDigits? digits := by
  match digits with
  | [r, r', g, g', b, b'] =>
    rw [ofDigits?, rgb, ← channelOf_full]
    rfl

/-- The eight digits of a form are the same color. -/
theorem ofDigits?_expand (digits : List Nat) : ofDigits? (expand 15 digits) = ofDigits? digits := by
  unfold expand
  split
  · rename_i hthree
    have hsix : (doubled digits).length = 6 := by rw [length_doubled, hthree]
    rw [ofDigits?_full hsix, ofDigits?_doubled hthree]
  · split
    · rename_i hsix
      exact ofDigits?_full hsix
    · rfl

/-! ## Writing -/

/-- Every byte is the nearest to its channel. -/
theorem channelByte_channel : ∀ byte < 256, (channelByte (channel byte)).toNat = byte := by
  decide +kernel

theorem byteChars_channelOf {high low : Nat} (hhigh : high < 16) (hlow : low < 16) :
    byteChars (channelByte (channelOf high low)) = [hexChar high, hexChar low] := by
  have hbyte := channelByte_channel (16 * high + low) (by omega)
  rw [channelOf, byteChars, hbyte, Nat.mul_add_div (by decide), Nat.mul_add_mod,
    Nat.div_eq_of_lt hlow, Nat.mod_eq_of_lt hlow, Nat.add_zero]

/-- A color is written as the eight digits it was read from. -/
theorem hex_of_ofDigits? {digits : List Nat} {color : Color} (hdigits : ∀ d ∈ digits, d < 16)
    (h : ofDigits? digits = some color) :
    color.hex = String.ofList ('#' :: (expand 15 digits).map hexChar) := by
  have hlength := ofDigits?_isSome_iff.mp (Option.isSome_iff_exists.mpr ⟨color, h⟩)
  have height : (expand 15 digits).length = 8 := length_expand hlength
  have hlt : ∀ d ∈ expand 15 digits, d < 16 := fun d hd => by
    rcases mem_of_mem_expand hd with rfl | hd
    · decide
    · exact hdigits d hd
  rw [← ofDigits?_expand] at h
  match hexpand : expand 15 digits, height with
  | [r, r', g, g', b, b', o, o'], _ =>
    rw [hexpand] at h hlt
    cases h
    simp only [List.forall_mem_cons] at hlt
    obtain ⟨hr, hr', hg, hg', hb, hb', ho, ho', -⟩ := hlt
    rw [hex, byteChars_channelOf hr hr', byteChars_channelOf hg hg', byteChars_channelOf hb hb',
      byteChars_channelOf ho ho']
    rfl

/-- The text that a color of these digits is written as. -/
def canonical (digits : List Char) : String :=
  String.ofList ('#' :: (expand 'F' digits).map Char.toUpper)

theorem isHexDigit_of_mem_expand {digits : List Char} (h : ∀ c ∈ digits, IsHexDigit c) :
    ∀ c ∈ expand 'F' digits, IsHexDigit c := fun c hc => by
  rcases mem_of_mem_expand hc with rfl | hc
  · decide
  · exact h c hc

theorem hex_of_stands {text : String} {digits : List Char} {color : Color}
    (hstands : Stands text digits) (hhex : ∀ c ∈ digits, IsHexDigit c)
    (h : ofHex? text = some color) : color.hex = canonical digits := by
  rw [ofHex?_of_stands hstands hhex] at h
  have hvalues : ∀ d ∈ digits.map digitValue, d < 16 := fun d hd => by
    obtain ⟨c, hc, rfl⟩ := List.mem_map.mp hd
    exact digitValue_lt (hhex c hc)
  have hfull : digitValue 'F' = 15 := by decide
  have hchars : (expand 15 (digits.map digitValue)).map hexChar =
      (expand 'F' digits).map Char.toUpper := by
    rw [← hfull, ← map_expand, List.map_map]
    exact List.map_congr_left fun c hc =>
      hexChar_digitValue (isHexDigit_of_mem_expand hhex c hc)
  rw [hex_of_ofDigits? hvalues h, hchars, canonical]

/-- The text of a color is read as the color. -/
theorem ofHex?_canonical {digits : List Char} (hhex : ∀ c ∈ digits, IsHexDigit c) :
    ofHex? (canonical digits) = ofDigits? (digits.map digitValue) := by
  have hupper : ∀ c ∈ (expand 'F' digits).map Char.toUpper, IsHexDigit c := fun c hc => by
    obtain ⟨d, hd, rfl⟩ := List.mem_map.mp hc
    exact isHexDigit_toUpper (isHexDigit_of_mem_expand hhex d hd)
  have hstands : Stands (canonical digits) ((expand 'F' digits).map Char.toUpper) :=
    .inr String.toList_ofList
  have hfull : digitValue 'F' = 15 := by decide
  have hvalue (c : Char) : digitValue c.toUpper = digitValue c := by
    rw [digitValue, hexDigit?_toUpper, digitValue]
  rw [← ofDigits?_expand (digits.map digitValue), ← hfull, ← map_expand,
    ofHex?_of_stands hstands hupper, List.map_map]
  exact congrArg ofDigits? (List.map_congr_left fun c _ => hvalue c)

theorem ofHex?_hex {text : String} {color : Color} (h : ofHex? text = some color) :
    ofHex? color.hex = some color := by
  obtain ⟨digits, hdigits, hstands⟩ :=
    ofHex?_isSome_iff.mp (Option.isSome_iff_exists.mpr ⟨color, h⟩)
  rw [hex_of_stands hstands hdigits.hex h, ofHex?_canonical hdigits.hex,
    ← ofHex?_of_stands hstands hdigits.hex, h]

/-- **Hexadecimal colors have one grammar and one written form.**  A text is a color exactly if it
is three, six or eight hexadecimal digits with at most one `#` in front; the digits can be cut
anywhere.  Letter case and `#` do not matter, three digits are six with each doubled, and six are
eight with `FF` behind.  A color that was read is written as `#` and its eight digits in upper case,
and read again as the same color. -/
theorem hexadecimal_colors :
    (∀ text : String,
      (ofHex? text).isSome = true ↔ ∃ digits, IsHexText digits ∧ Stands text digits) ∧
    (∀ digits, IsHexText digits →
      (String.ofList digits).utf8ByteSize = digits.length ∧
        ∀ index ≤ digits.length, (String.Pos.Raw.mk index).IsValid (String.ofList digits)) ∧
    (∀ text text' : String, text.toList.map Char.toUpper = text'.toList.map Char.toUpper →
      ofHex? text = ofHex? text') ∧
    (∀ digits, IsHexText digits →
      ofHex? (String.ofList ('#' :: digits)) = ofHex? (String.ofList digits)) ∧
    (∀ digits, (∀ c ∈ digits, IsHexDigit c) → digits.length = 3 →
      ofHex? (String.ofList digits) = ofHex? (String.ofList (doubled digits))) ∧
    (∀ digits, (∀ c ∈ digits, IsHexDigit c) → digits.length = 6 →
      ofHex? (String.ofList digits) = ofHex? (String.ofList (digits ++ ['F', 'F']))) ∧
    (∀ text digits color, IsHexText digits → Stands text digits → ofHex? text = some color →
      color.hex = String.ofList ('#' :: (expand 'F' digits).map Char.toUpper)) ∧
    ∀ text color, ofHex? text = some color → ofHex? color.hex = some color := by
  have hplain {digits : List Char} (h : ∀ c ∈ digits, IsHexDigit c) :
      ofHex? (String.ofList digits) = ofDigits? (digits.map digitValue) :=
    ofHex?_of_stands (.inl String.toList_ofList) h
  refine ⟨fun text => ofHex?_isSome_iff, ?_, fun text text' => ofHex?_congr_case, ?_, ?_, ?_, ?_,
    fun text color => ofHex?_hex⟩
  · intro digits h
    exact ⟨utf8ByteSize_of_hex h.hex, fun index hindex => isValid_of_hex h.hex hindex⟩
  · intro digits h
    rw [hplain h.hex, ofHex?_of_stands (.inr String.toList_ofList) h.hex]
  · intro digits h hthree
    have hdoubled : ∀ c ∈ doubled digits, IsHexDigit c := fun c hc => h c (mem_doubled.mp hc)
    rw [hplain h, hplain hdoubled, map_doubled, ofDigits?_doubled (by rwa [List.length_map])]
  · intro digits h hsix
    have hfull : ∀ c ∈ digits ++ ['F', 'F'], IsHexDigit c := fun c hc => by
      rcases List.mem_append.mp hc with hc | hc
      · exact h c hc
      · simp only [List.mem_cons, List.not_mem_nil, or_false, or_self] at hc
        rw [hc]
        decide
    have hlength : (digits.map digitValue).length = 6 := by rwa [List.length_map]
    rw [hplain h, hplain hfull, List.map_append, ← ofDigits?_full hlength]
    rfl
  · intro text digits color h hstands hcolor
    exact hex_of_stands hstands h.hex hcolor

/-- One color in all its forms, and the form it is written in. -/
theorem hexadecimal_colors_short :
    let color : Color := ⟨channelOf 15 15, channelOf 10 10, channelOf 0 0, 1.0⟩
    IsHexText "Fa0".toList ∧ Stands "#Fa0" "Fa0".toList ∧ ofHex? "#Fa0" = some color ∧
      ofHex? "#fA0" = some color ∧ ofHex? "Fa0" = some color ∧ ofHex? "FFaa00" = some color ∧
      ofHex? "FFaa00FF" = some color ∧ color.hex = "#FFAA00FF" ∧
      ofHex? "#FFAA00FF" = some color ∧ ofHex? "##fa0" = none := by
  intro color
  obtain ⟨-, -, hcase, hhash, hdouble, hfull, hwritten, hagain⟩ := hexadecimal_colors
  have hhex : ∀ c ∈ ['F', 'a', '0'], IsHexDigit c := by
    simp only [List.forall_mem_cons, List.not_mem_nil, false_imp_iff, implies_true, and_true]
    decide
  have htext : IsHexText "Fa0".toList := ⟨hhex, .inl rfl⟩
  have hstands : Stands "#Fa0" "Fa0".toList := .inr (by decide)
  have hread : ofHex? "#Fa0" = some color := by
    rw [ofHex?_of_stands hstands htext.hex]
    rfl
  have hswapped : ofHex? "#fA0" = some color := (hcase "#fA0" "#Fa0" (by decide)).trans hread
  have hplain : ofHex? "Fa0" = some color := (hhash _ htext).symm.trans hread
  have hsix : ofHex? "FFaa00" = some color := (hdouble _ htext.hex rfl).symm.trans hplain
  have hdoubled : ∀ c ∈ "FFaa00".toList, IsHexDigit c := fun c hc => hhex c (mem_doubled.mp hc)
  have height : ofHex? "FFaa00FF" = some color := (hfull _ hdoubled rfl).symm.trans hsix
  have hlong := hwritten _ _ color htext hstands hread
  have hcanonical : String.ofList ('#' :: (expand 'F' "Fa0".toList).map Char.toUpper) =
      "#FFAA00FF" := by decide
  rw [hcanonical] at hlong
  exact ⟨htext, hstands, hread, hswapped, hplain, hsix, height, hlong,
    hlong ▸ hagain _ color hread, rfl⟩

end Color

end DeferredStyle
