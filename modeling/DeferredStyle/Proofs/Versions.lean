import DeferredStyle.Proofs.ClassLists
import DeferredStyle.Version
import Mathlib.Data.List.DropRight
import Mathlib.Data.List.Forall2

/-!
# Version texts

A version text is one to three numerals with points between them.  A numeral may have a plus sign
and leading zeros, but its number has to fit 32 bits.  The text of a version is read back as the
version.

* `Text.trimChars_eq_iff`, `Text.splitAt_eq_iff` — what trimming and cutting give.
* `Decimal.IsNumeral` — the numerals; `Decimal.uint32?_eq_some_iff` — they are what is read.
* `Version.Spelled` — the grammar of version texts.
* `version_text_grammar` — reading follows the grammar and inverts writing.
-/

set_option autoImplicit false

namespace DeferredStyle

/-! ## Trimming and cutting -/

namespace Text

/-- What is left of a text without the blanks at its ends. -/
structure HasCore (cs core : List Char) : Prop where
  exists_blanks : ∃ lead trail, AllBlank lead ∧ AllBlank trail ∧ cs = lead ++ core ++ trail
  head_solid : ∀ c ∈ core.head?, isBlank c = false
  last_solid : ∀ c ∈ core.getLast?, isBlank c = false

theorem dropWhile_append_of_allBlank {lead rest : List Char} (hlead : AllBlank lead)
    (hrest : ∀ c ∈ rest.head?, isBlank c = false) : (lead ++ rest).dropWhile isBlank = rest := by
  rw [List.dropWhile_append_of_pos hlead]
  cases rest with
  | nil => rfl
  | cons c rest => exact List.dropWhile_cons_of_neg (by simp [hrest c rfl])

/-- The blanks behind a text are those in front of its reverse. -/
theorem rdropWhile_append_of_allBlank {front trail : List Char} (htrail : AllBlank trail)
    (hfront : ∀ c ∈ front.getLast?, isBlank c = false) :
    (front ++ trail).rdropWhile isBlank = front := by
  have hreversed : (trail.reverse ++ front.reverse).dropWhile isBlank = front.reverse := by
    refine dropWhile_append_of_allBlank (fun c hc => htrail c (List.mem_reverse.mp hc)) ?_
    rwa [List.head?_reverse]
  rw [List.rdropWhile, List.reverse_append, hreversed, List.reverse_reverse]

/-- **Trimming takes the blanks away from both ends, and nothing else.** -/
theorem trimChars_eq_iff {cs core : List Char} : trimChars cs = core ↔ HasCore cs core := by
  have htrim : trimChars cs = (cs.dropWhile isBlank).rdropWhile isBlank := rfl
  constructor
  · rintro rfl
    rw [htrim]
    refine ⟨⟨cs.takeWhile isBlank, (cs.dropWhile isBlank).rtakeWhile isBlank,
      fun c hc => List.mem_takeWhile_imp hc, fun c hc => List.mem_rtakeWhile_imp hc, ?_⟩, ?_, ?_⟩
    · rw [List.append_assoc, List.rdropWhile_append_rtakeWhile, List.takeWhile_append_dropWhile]
    · intro c hc
      obtain ⟨trail, htrail⟩ := List.rdropWhile_prefix isBlank (cs.dropWhile isBlank)
      have hhead : (cs.dropWhile isBlank).head? = some c := by
        rw [← htrail, List.head?_append, Option.mem_def.mp hc]
        rfl
      have hsolid := List.head?_dropWhile_not isBlank cs
      rw [hhead] at hsolid
      simpa using hsolid
    · intro c hc
      have hsolid := List.head?_dropWhile_not isBlank (cs.dropWhile isBlank).reverse
      rw [List.rdropWhile, List.getLast?_reverse] at hc
      rw [hc] at hsolid
      simpa using hsolid
  · rintro ⟨⟨lead, trail, hlead, htrail, rfl⟩, hhead, hlast⟩
    rw [htrim]
    cases core with
    | nil =>
      have hblank : AllBlank (lead ++ [] ++ trail) := fun c hc => by
        rcases List.mem_append.mp hc with hc | hc
        · exact hlead c (by simpa using hc)
        · exact htrail c hc
      rw [List.dropWhile_eq_nil_iff.mpr hblank, List.rdropWhile_nil]
    | cons c core =>
      rw [List.append_assoc, dropWhile_append_of_allBlank hlead (by simpa using hhead),
        rdropWhile_append_of_allBlank htrail hlast]

theorem hasCore_of_solid {cs : List Char} (h : ∀ c ∈ cs, isBlank c = false) : HasCore cs cs where
  exists_blanks := ⟨[], [], nofun, nofun, by simp⟩
  head_solid c hc := h c (List.mem_of_mem_head? hc)
  last_solid c hc := h c (List.mem_of_getLast? hc)

theorem eq_or_mem_of_mem_intercalate {sep c : Char} {pieces : List (List Char)}
    (h : c ∈ [sep].intercalate pieces) : c = sep ∨ ∃ piece ∈ pieces, c ∈ piece := by
  induction pieces with
  | nil => cases h
  | cons piece pieces ih =>
    by_cases hnil : pieces = []
    · rw [hnil, List.intercalate_singleton] at h
      exact .inr ⟨piece, List.mem_cons_self, h⟩
    · rw [List.intercalate_cons_of_ne_nil hnil, List.mem_append, List.mem_append,
        List.mem_singleton] at h
      rcases h with (h | h) | h
      · exact .inr ⟨piece, List.mem_cons_self, h⟩
      · exact .inl h
      · refine (ih h).imp_right ?_
        rintro ⟨later, hlater, hc⟩
        exact ⟨later, List.mem_cons_of_mem piece hlater, hc⟩

/-- **Cutting at a character gives the pieces that it joins.** -/
theorem splitAt_eq_iff {sep : Char} {cs : List Char} {pieces : List (List Char)} :
    splitAt (· == sep) cs = pieces ↔
      pieces ≠ [] ∧ (∀ piece ∈ pieces, sep ∉ piece) ∧ [sep].intercalate pieces = cs := by
  constructor
  · rintro rfl
    refine ⟨splitAt_ne_nil _ _, ?_⟩
    induction cs with
    | nil => simp [splitAt]
    | cons c cs ih =>
      obtain ⟨hfree, hjoin⟩ := ih
      by_cases hc : c = sep
      · subst hc
        rw [splitAt, if_pos (beq_self_eq_true c)]
        refine ⟨List.forall_mem_cons.mpr ⟨List.not_mem_nil, hfree⟩, ?_⟩
        rw [List.intercalate_cons_of_ne_nil (splitAt_ne_nil _ _), hjoin]
        rfl
      · rw [splitAt, if_neg (by simpa using hc)]
        cases hpieces : splitAt (· == sep) cs with
        | nil => exact absurd hpieces (splitAt_ne_nil _ _)
        | cons piece pieces =>
          rw [hpieces] at hfree hjoin
          obtain ⟨hpiece, hrest⟩ := List.forall_mem_cons.mp hfree
          refine ⟨List.forall_mem_cons.mpr ⟨?_, hrest⟩, ?_⟩
          · exact List.not_mem_cons_of_ne_of_not_mem (Ne.symm hc) hpiece
          · rw [← hjoin]
            exact List.intercalate_cons_cons_left
  · rintro ⟨hne, hfree, rfl⟩
    induction pieces with
    | nil => exact absurd rfl hne
    | cons piece pieces ih =>
      obtain ⟨hpiece, hrest⟩ := List.forall_mem_cons.mp hfree
      have hsolid : ∀ c ∈ piece, (c == sep) = false := fun c hc =>
        beq_eq_false_iff_ne.mpr fun heq => hpiece (heq ▸ hc)
      have hcut := splitAt_append_cons (p := (· == sep)) (beq_self_eq_true sep) piece
        ([sep].intercalate pieces)
      rw [splitAt_of_none hsolid] at hcut
      by_cases hnil : pieces = []
      · rw [hnil, List.intercalate_singleton, splitAt_of_none hsolid]
      · rw [List.intercalate_cons_of_ne_nil hnil, List.append_assoc, List.singleton_append, hcut,
          ih hnil hrest]
        rfl

end Text

/-! ## Numerals -/

namespace Decimal

/-- One ASCII digit or more. -/
structure IsDigits (cs : List Char) : Prop where
  ne_nil : cs ≠ []
  digits : ∀ c ∈ cs, c.isDigit = true

/-- ASCII digits after an optional plus sign, and the number they denote. -/
inductive IsNumeral : List Char → Nat → Prop
  | plain {cs : List Char} (h : IsDigits cs) : IsNumeral cs (Nat.ofDigitChars 10 cs 0)
  | signed {cs : List Char} (h : IsDigits cs) : IsNumeral ('+' :: cs) (Nat.ofDigitChars 10 cs 0)

theorem digitValue?_eq_some_iff {c : Char} {digit : Nat} :
    digitValue? c = some digit ↔ c.isDigit = true ∧ c.toNat - '0'.toNat = digit := by
  have hdigit : c.isDigit = true ↔ '0' ≤ c ∧ c ≤ '9' := by
    rw [Char.isDigit, Bool.and_eq_true, decide_eq_true_eq, decide_eq_true_eq]
    rfl
  rw [digitValue?, hdigit]
  split
  · rename_i h
    simp [h]
  · rename_i h
    simp [h]

theorem digitValues?_eq_some_iff {cs : List Char} {digits : List Nat} :
    digitValues? cs = some digits ↔
      (∀ c ∈ cs, c.isDigit = true) ∧ cs.map (fun c => c.toNat - '0'.toNat) = digits := by
  induction cs generalizing digits with
  | nil => simp [digitValues?]
  | cons c cs ih =>
    rw [digitValues?, List.forall_mem_cons, List.map_cons]
    constructor
    · intro h
      split at h
      · rename_i digit rest hdigit hrest
        cases h
        obtain ⟨hc, rfl⟩ := digitValue?_eq_some_iff.mp hdigit
        obtain ⟨hcs, rfl⟩ := ih.mp hrest
        exact ⟨⟨hc, hcs⟩, rfl⟩
      · cases h
    · rintro ⟨⟨hc, hcs⟩, rfl⟩
      rw [digitValue?_eq_some_iff.mpr ⟨hc, rfl⟩, ih.mpr ⟨hcs, rfl⟩]

theorem natOfDigits?_eq_some_iff {cs : List Char} {n : Nat} :
    natOfDigits? cs = some n ↔ IsDigits cs ∧ Nat.ofDigitChars 10 cs 0 = n := by
  rw [natOfDigits?]
  by_cases hnil : cs = []
  · subst hnil
    simpa using fun h : IsDigits [] => absurd rfl h.ne_nil
  · rw [if_neg (by simpa using hnil), Option.map_eq_some_iff]
    constructor
    · rintro ⟨digits, hdigits, rfl⟩
      obtain ⟨hcs, rfl⟩ := digitValues?_eq_some_iff.mp hdigits
      refine ⟨⟨hnil, hcs⟩, ?_⟩
      rw [ofDigits, List.foldl_map, Nat.ofDigitChars_eq_foldl]
    · rintro ⟨hcs, rfl⟩
      refine ⟨_, digitValues?_eq_some_iff.mpr ⟨hcs.digits, rfl⟩, ?_⟩
      rw [ofDigits, List.foldl_map, Nat.ofDigitChars_eq_foldl]

theorem unsigned?_eq_some_iff {cs : List Char} {n : Nat} :
    unsigned? cs = some n ↔ IsNumeral cs n := by
  unfold unsigned?
  split
  · rename_i digits
    rw [natOfDigits?_eq_some_iff]
    constructor
    · rintro ⟨h, rfl⟩
      exact .signed h
    · intro h
      cases h with
      | plain h => exact absurd (h.digits '+' List.mem_cons_self) (by decide)
      | signed h => exact ⟨h, rfl⟩
  · rename_i hplus
    rw [natOfDigits?_eq_some_iff]
    constructor
    · rintro ⟨h, rfl⟩
      exact .plain h
    · intro h
      cases h with
      | plain h => exact ⟨h, rfl⟩
      | signed h => exact absurd rfl (hplus _)

/-- A number that is too large is no 32-bit number of any numeral. -/
theorem uint32?_eq_some_iff {cs : List Char} {n : UInt32} :
    uint32? cs = some n ↔ IsNumeral cs n.toNat := by
  rw [uint32?]
  constructor
  · intro h
    split at h
    · rename_i m hm
      split at h
      · rename_i hlt
        cases h
        rw [UInt32.toNat_ofNat_of_lt' hlt]
        exact unsigned?_eq_some_iff.mp hm
      · cases h
    · cases h
  · intro h
    rw [unsigned?_eq_some_iff.mpr h]
    dsimp only
    rw [if_pos n.toNat_lt, UInt32.ofNat_toNat]

/-- A numeral has no point. -/
theorem IsNumeral.no_point {cs : List Char} {n : Nat} (h : IsNumeral cs n) : '.' ∉ cs := by
  intro hmem
  cases h with
  | plain h => exact absurd (h.digits '.' hmem) (by decide)
  | signed h =>
    rcases List.mem_cons.mp hmem with heq | hmem
    · exact absurd heq (by decide)
    · exact absurd (h.digits '.' hmem) (by decide)

/-- The digits of a number are a numeral of it. -/
theorem isNumeral_digitsOf (n : Nat) : IsNumeral (digitsOf n) n := by
  have hdigits : IsDigits (digitsOf n) :=
    ⟨Nat.toDigits_ne_nil, fun c hc => Nat.isDigit_of_mem_toDigits (by decide) (by decide) hc⟩
  have hnumeral := IsNumeral.plain hdigits
  rwa [digitsOf, Nat.ofDigitChars_ten_toDigits] at hnumeral

end Decimal

/-! ## Versions -/

namespace Version

/-- Blanks at its ends apart, the text is made of one to three numerals of numbers below `2^32` with
points between them.  The version has these numbers in order, and zero for each that is missing. -/
structure Spelled (text : String) (v : Version) (parts : List (List Char)) (numbers : List Nat) :
    Prop where
  core : Text.HasCore text.toList (['.'].intercalate parts)
  numerals : List.Forall₂ (fun part n => Decimal.IsNumeral part n ∧ n < UInt32.size) parts numbers
  atLeastOne : 1 ≤ numbers.length
  atMostThree : numbers.length ≤ 3
  major : v.major.toNat = numbers.getD 0 0
  minor : v.minor.toNat = numbers.getD 1 0
  patch : v.patch.toNat = numbers.getD 2 0

theorem components?_eq_some_iff {parts : List (List Char)} {numbers : List UInt32} :
    components? parts = some numbers ↔
      List.Forall₂ (fun part n => Decimal.IsNumeral part n.toNat) parts numbers := by
  induction parts generalizing numbers with
  | nil =>
    rw [components?, Option.some.injEq, List.forall₂_nil_left_iff]
    exact eq_comm
  | cons part parts ih =>
    rw [components?, List.forall₂_cons_left_iff]
    constructor
    · intro h
      split at h
      · rename_i n ns hn hns
        cases h
        exact ⟨n, ns, Decimal.uint32?_eq_some_iff.mp hn, ih.mp hns, rfl⟩
      · cases h
    · rintro ⟨n, ns, hn, hns, rfl⟩
      rw [Decimal.uint32?_eq_some_iff.mpr hn, ih.mpr hns]

/-- The components of a version, missing ones being zero. -/
theorem ofComponents?_eq_some_iff {numbers : List UInt32} {v : Version} :
    ofComponents? numbers = some v ↔
      1 ≤ numbers.length ∧ numbers.length ≤ 3 ∧ v.major = numbers.getD 0 0 ∧
        v.minor = numbers.getD 1 0 ∧ v.patch = numbers.getD 2 0 := by
  obtain ⟨major, minor, patch⟩ := v
  unfold ofComponents?
  split
  · simp [eq_comm]
  · simp [eq_comm]
  · simp [eq_comm]
  · rename_i hone htwo hthree
    simp only [reduceCtorEq, false_iff, not_and]
    intro hlow hhigh
    match numbers with
    | [a] => exact absurd rfl (hone a)
    | [a, b] => exact absurd rfl (htwo a b)
    | [a, b, c] => exact absurd rfl (hthree a b c)

theorem getD_map_toNat (numbers : List UInt32) (index : Nat) :
    (numbers.map UInt32.toNat).getD index 0 = (numbers.getD index 0).toNat := by
  rw [List.getD_eq_getElem?_getD, List.getElem?_map, List.getD_eq_getElem?_getD]
  cases numbers[index]? <;> rfl

/-- Numerals of small numbers are read as components. -/
theorem exists_components {parts : List (List Char)} {numbers : List Nat}
    (h : List.Forall₂ (fun part n => Decimal.IsNumeral part n ∧ n < UInt32.size) parts numbers) :
    ∃ words, components? parts = some words ∧ words.map UInt32.toNat = numbers := by
  induction h with
  | nil => exact ⟨[], rfl, rfl⟩
  | @cons part n parts numbers hhead _ ih =>
    obtain ⟨words, hwords, rfl⟩ := ih
    have hn : (UInt32.ofNat n).toNat = n := UInt32.toNat_ofNat_of_lt' hhead.2
    have hpart : Decimal.uint32? part = some (UInt32.ofNat n) :=
      Decimal.uint32?_eq_some_iff.mpr (by rw [hn]; exact hhead.1)
    exact ⟨UInt32.ofNat n :: words, by rw [components?, hpart, hwords], by rw [List.map_cons, hn]⟩

theorem no_point_of_numerals {parts : List (List Char)} {numbers : List Nat}
    (h : List.Forall₂ (fun part n => Decimal.IsNumeral part n ∧ n < UInt32.size) parts numbers) :
    ∀ part ∈ parts, '.' ∉ part := by
  induction h with
  | nil => exact nofun
  | cons hhead _ ih => exact List.forall_mem_cons.mpr ⟨hhead.1.no_point, ih⟩

/-- **A text is read as a version exactly if it spells it.** -/
theorem ofText?_eq_some_iff {text : String} {v : Version} :
    ofText? text = some v ↔ ∃ parts numbers, Spelled text v parts numbers := by
  rw [ofText?, Option.bind_eq_some_iff]
  constructor
  · rintro ⟨words, hwords, hversion⟩
    obtain ⟨-, -, hjoin⟩ := Text.splitAt_eq_iff.mp
      (rfl : Text.splitAt (· == '.') (Text.trimChars text.toList) = _)
    obtain ⟨hone, hthree, hmajor, hminor, hpatch⟩ := ofComponents?_eq_some_iff.mp hversion
    have hnumerals := (components?_eq_some_iff.mp hwords).imp fun part n hn =>
      (⟨hn, n.toNat_lt_size⟩ : Decimal.IsNumeral part n.toNat ∧ n.toNat < UInt32.size)
    refine ⟨_, words.map UInt32.toNat, Text.trimChars_eq_iff.mp hjoin.symm,
      List.forall₂_map_right_iff.mpr hnumerals, by simpa using hone, by simpa using hthree,
      ?_, ?_, ?_⟩
    · rw [hmajor, getD_map_toNat]
    · rw [hminor, getD_map_toNat]
    · rw [hpatch, getD_map_toNat]
  · rintro ⟨parts, numbers, h⟩
    have hlength := h.numerals.length_eq
    have hone := h.atLeastOne
    have hthree := h.atMostThree
    have hparts : parts ≠ [] := by
      rintro rfl
      rw [List.length_nil] at hlength
      omega
    have hsplit : Text.splitAt (· == '.') (Text.trimChars text.toList) = parts :=
      Text.splitAt_eq_iff.mpr ⟨hparts, no_point_of_numerals h.numerals,
        (Text.trimChars_eq_iff.mpr h.core).symm⟩
    have hmajor := h.major
    have hminor := h.minor
    have hpatch := h.patch
    obtain ⟨words, hwords, rfl⟩ := exists_components h.numerals
    rw [List.length_map] at hone hthree
    rw [getD_map_toNat, UInt32.toNat_inj] at hmajor hminor hpatch
    exact ⟨words, by rw [hsplit, hwords],
      ofComponents?_eq_some_iff.mpr ⟨hone, hthree, hmajor, hminor, hpatch⟩⟩

/-! ## The text of a version -/

/-- The numerals of a version's text; a patch of zero is left out. -/
def numerals (v : Version) : List Nat :=
  if v.patch = 0 then [v.major.toNat, v.minor.toNat]
  else [v.major.toNat, v.minor.toNat, v.patch.toNat]

theorem toList_text (v : Version) :
    v.text.toList = ['.'].intercalate (v.numerals.map Decimal.digitsOf) := by
  unfold text numerals
  split
  · simp [Decimal.digitsOf, List.intercalate]
  · simp [Decimal.digitsOf, List.intercalate]

theorem lt_of_mem_numerals {v : Version} : ∀ n ∈ v.numerals, n < UInt32.size := by
  intro n hn
  unfold numerals at hn
  split at hn
  · simp only [List.mem_cons, List.not_mem_nil, or_false] at hn
    rcases hn with rfl | rfl <;> exact UInt32.toNat_lt_size _
  · simp only [List.mem_cons, List.not_mem_nil, or_false] at hn
    rcases hn with rfl | rfl | rfl <;> exact UInt32.toNat_lt_size _

theorem solid_of_isDigit {c : Char} (h : c.isDigit = true) : Text.isBlank c = false := by
  have hzero : '0'.toNat = 48 := rfl
  have hnine : '9'.toNat = 57 := rfl
  rw [Char.isDigit_iff_toNat] at h
  simp only [Text.isBlank, Text.blankRanges, List.any_cons, List.any_nil, Bool.or_eq_false_iff,
    Bool.and_eq_false_iff, decide_eq_false_iff_not, and_true]
  omega

/-- The text of a version has no blanks. -/
theorem solid_of_mem_text {v : Version} : ∀ c ∈ v.text.toList, Text.isBlank c = false := by
  intro c hc
  rw [toList_text] at hc
  rcases Text.eq_or_mem_of_mem_intercalate hc with rfl | ⟨piece, hpiece, hc⟩
  · decide
  · obtain ⟨n, -, rfl⟩ := List.mem_map.mp hpiece
    exact solid_of_isDigit (Nat.isDigit_of_mem_toDigits (by decide) (by decide) hc)

/-- The text of a version spells it. -/
theorem spelled_text (v : Version) :
    Spelled v.text v (v.numerals.map Decimal.digitsOf) v.numerals where
  core := by
    rw [← toList_text]
    exact Text.hasCore_of_solid solid_of_mem_text
  numerals := by
    rw [List.forall₂_map_left_iff, List.forall₂_same]
    exact fun n hn => ⟨Decimal.isNumeral_digitsOf n, lt_of_mem_numerals n hn⟩
  atLeastOne := by
    unfold numerals
    split <;> simp
  atMostThree := by
    unfold numerals
    split <;> simp
  major := by
    unfold numerals
    split <;> rfl
  minor := by
    unfold numerals
    split <;> rfl
  patch := by
    unfold numerals
    split
    · rename_i hzero
      rw [hzero]
      rfl
    · rfl

theorem ofText?_text (v : Version) : ofText? v.text = some v :=
  ofText?_eq_some_iff.mpr ⟨_, _, spelled_text v⟩

end Version

/-- **Version texts follow one grammar, and versions survive their text.**  The text of a version is
read as the version.  A text is read as a version exactly if, blanks at its ends apart, it is one to
three numerals below `2^32` with points between them, and the version has their numbers.  So the
text of a version that was read is read as the same version. -/
theorem version_text_grammar :
    (∀ v : Version, Version.ofText? v.text = some v) ∧
    (∀ (text : String) (v : Version),
      Version.ofText? text = some v ↔ ∃ parts numbers, Version.Spelled text v parts numbers) ∧
    ∀ (text : String) (v : Version), Version.ofText? text = some v →
      Version.ofText? v.text = some v :=
  ⟨Version.ofText?_text, fun _ _ => Version.ofText?_eq_some_iff, fun _ v _ => v.ofText?_text⟩

/-- A sign, leading zeros, blanks and the greatest component; the next number is refused. -/
theorem version_text_grammar_padded :
    let v : Version := ⟨7, 4294967295, 0⟩
    let text := "\u00a0+007.4294967295\n"
    Version.ofText? text = some v ∧ v.text = "7.4294967295" ∧
      Version.ofText? "7.4294967295" = some v ∧ Version.ofText? "7.4294967296" = none := by
  intro v text
  obtain ⟨-, hgrammar, hagain⟩ := version_text_grammar
  have hspelled : Version.Spelled text v ["+007".toList, "4294967295".toList] [7, 4294967295] :=
    { core := ⟨⟨['\u00a0'], ['\n'], List.all_eq_true.mp rfl, List.all_eq_true.mp rfl, by decide⟩,
        fun c hc => Option.some.inj hc ▸ rfl, fun c hc => Option.some.inj hc ▸ rfl⟩
      numerals := .cons ⟨.signed ⟨by decide, List.all_eq_true.mp rfl⟩, by decide⟩
        (.cons ⟨.plain ⟨by decide, List.all_eq_true.mp rfl⟩, by decide⟩ .nil)
      atLeastOne := by decide
      atMostThree := by decide
      major := rfl
      minor := rfl
      patch := rfl }
  have hread := (hgrammar text v).mpr ⟨_, _, hspelled⟩
  have htext : v.text = "7.4294967295" := by decide
  exact ⟨hread, htext, htext ▸ hagain text v hread, by decide +kernel⟩

end DeferredStyle
