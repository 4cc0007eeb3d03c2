import DeferredStyle.Proofs.Tokens
import DeferredStyle.Proofs.WellFormed

/-!
# Reading written values

A JSON value that is written without gaps is read back, provided that the texts of its doubles are.

* `Json.toSource` — the source of a value.
* `Json.Rereadable` — the doubles of a value are read back, and it is not nested too deep.
* `Json.scan_compact` — the text of such a value is scanned as its source.
* `Json.parse_compact` — a written value is read back; `Json.parse_toUTF8`, for a text that is
  given.
-/

set_option autoImplicit false

namespace DeferredStyle.Json

open Text (bytes bytes_eq bytes_append bytes_ofList)

/-! ## Values -/

mutual

/-- The source of the text that a value is written as. -/
def toSource : Json → Source
  | .null => .null
  | .bool b => .bool b
  | .number n => .number n
  | .string s => .string s
  | .array items => .array (itemSources items) none
  | .object members => .object (memberSources members) none

/-- The sources of the items of a list. -/
def itemSources : List Json → List Source
  | [] => []
  | item :: items => item.toSource :: itemSources items

/-- The sources of the members of an object. -/
def memberSources : List (String × Json) → List (String × Source)
  | [] => []
  | (key, value) :: members => (key, value.toSource) :: memberSources members

end

/-- The text of every number in the value is read as the number, and no more than `depth` lists and
objects are open at once. -/
inductive Rereadable : Nat → Json → Prop
  | null (depth : Nat) : Rereadable depth .null
  | bool (depth : Nat) (b : Bool) : Rereadable depth (.bool b)
  | number {depth : Nat} {n : Number} (h : Rereads n) : Rereadable depth (.number n)
  | string (depth : Nat) (s : String) : Rereadable depth (.string s)
  | array {depth : Nat} {items : List Json} (h : ∀ item ∈ items, Rereadable depth item) :
      Rereadable (depth + 1) (.array items)
  | object {depth : Nat} {members : List (String × Json)}
      (h : ∀ member ∈ members, Rereadable depth member.2) : Rereadable (depth + 1) (.object members)

attribute [simp] Rereadable.null Rereadable.bool Rereadable.string

@[simp] theorem rereadable_number_iff {depth : Nat} {n : Number} :
    Rereadable depth (.number n) ↔ Rereads n :=
  ⟨fun h => match h with | .number h => h, .number⟩

@[simp] theorem rereadable_array_iff {depth : Nat} {items : List Json} :
    Rereadable (depth + 1) (.array items) ↔ ∀ item ∈ items, Rereadable depth item :=
  ⟨fun h => match h with | .array h => h, .array⟩

@[simp] theorem rereadable_object_iff {depth : Nat} {members : List (String × Json)} :
    Rereadable (depth + 1) (.object members) ↔ ∀ member ∈ members, Rereadable depth member.2 :=
  ⟨fun h => match h with | .object h => h, .object⟩

/-- The items of a list behind the first, and its end. -/
def itemsTail (items : List Json) : List UInt8 :=
  items.flatMap (fun item => 0x2c :: bytes item.compact) ++ [0x5d]

/-- The bytes of a member. -/
def memberBytes (member : String × Json) : List UInt8 :=
  0x22 :: (escaped member.1 ++ 0x22 :: 0x3a :: bytes member.2.compact)

/-- The members of an object behind the first, and its end. -/
def membersTail (members : List (String × Json)) : List UInt8 :=
  members.flatMap (fun member => 0x2c :: memberBytes member) ++ [0x7d]

theorem bytes_bracketed_cons (opening closing text : String) (texts : List String) :
    bytes (bracketed opening closing (text :: texts)) =
      bytes opening ++ (bytes text ++ (texts.flatMap (fun text => 0x2c :: bytes text) ++
        bytes closing)) := by
  have hcomma : bytes "," = [0x2c] := by
    rw [bytes_eq]
    rfl
  have hjoined : bytes (String.intercalate "," (text :: texts)) =
      bytes text ++ texts.flatMap (fun text => 0x2c :: bytes text) := by
    induction texts generalizing text with
    | nil => rw [String.intercalate_singleton, List.flatMap_nil, List.append_nil]
    | cons next texts ih =>
      rw [String.intercalate_cons_cons, bytes_append, bytes_append, ih, hcomma, List.flatMap_cons]
      simp
  rw [bracketed, bytes_append, bytes_append, hjoined, List.append_assoc, List.append_assoc]

theorem compactItems_eq (items : List Json) : compactItems items = items.map compact := by
  induction items with
  | nil => rfl
  | cons item items ih => rw [compactItems, ih, List.map_cons]

theorem bytes_compactMember (member : String × Json) :
    bytes (quote member.1 ++ ":" ++ member.2.compact) = memberBytes member := by
  have hcolon : bytes ":" = [0x3a] := by
    rw [bytes_eq]
    rfl
  rw [bytes_append, bytes_append, bytes_quote, hcolon, memberBytes]
  simp

theorem compactMembers_eq (members : List (String × Json)) :
    compactMembers members =
      members.map fun member => quote member.1 ++ ":" ++ member.2.compact := by
  induction members with
  | nil => rfl
  | cons member members ih => rw [compactMembers, ih, List.map_cons]

theorem bytes_compact_array_nil : bytes (compact (.array [])) = [0x5b, 0x5d] :=
  (bytes_eq _).trans rfl

theorem bytes_compact_array_cons (item : Json) (items : List Json) :
    bytes (compact (.array (item :: items))) = 0x5b :: (bytes item.compact ++ itemsTail items) := by
  have hopening : bytes "[" = [0x5b] := (bytes_eq _).trans rfl
  have hclosing : bytes "]" = [0x5d] := (bytes_eq _).trans rfl
  rw [compact, compactItems_eq, List.map_cons, bytes_bracketed_cons, hopening, hclosing,
    List.flatMap_map]
  rfl

theorem bytes_compact_object_nil : bytes (compact (.object [])) = [0x7b, 0x7d] :=
  (bytes_eq _).trans rfl

theorem bytes_compact_object_cons (member : String × Json) (members : List (String × Json)) :
    bytes (compact (.object (member :: members))) =
      0x7b :: (memberBytes member ++ membersTail members) := by
  have hopening : bytes "\x7b" = [0x7b] := (bytes_eq _).trans rfl
  have hclosing : bytes "\x7d" = [0x7d] := (bytes_eq _).trans rfl
  rw [compact, compactMembers_eq, List.map_cons, bytes_bracketed_cons, hopening, hclosing,
    List.flatMap_map, bytes_compactMember]
  simp only [bytes_compactMember]
  rfl

/-! ## Scanning

`3 * n` steps of fuel are enough for `n` bytes of text: at most three calls in a row pass no byte.
-/

theorem skipGap_cons {b : UInt8} (h : isGap b = false) (text : List UInt8) :
    skipGap (b :: text) = b :: text :=
  List.dropWhile_cons_of_neg (by simp [h])

/-- The text of a value starts with a byte that is neither a gap nor the end of a list. -/
theorem Rereadable.start {depth : Nat} {j : Json} (h : j.Rereadable depth) :
    ∃ b rest, bytes j.compact = b :: rest ∧ isGap b = false ∧ b ≠ 0x5d := by
  cases h with
  | null => exact ⟨_, _, (bytes_eq _).trans rfl, rfl, by decide⟩
  | bool _ b => cases b <;> exact ⟨_, _, (bytes_eq _).trans rfl, rfl, by decide⟩
  | number h =>
    obtain ⟨b, rest, hbytes, hb⟩ := h.start
    obtain ⟨hgap, hend, -⟩ := ne_of_startsNumber hb
    exact ⟨b, rest, hbytes, hgap, hend⟩
  | string _ s => exact ⟨_, _, bytes_quote s, rfl, by decide⟩
  | array =>
    rename_i items _
    cases items with
    | nil => exact ⟨_, _, bytes_compact_array_nil, rfl, by decide⟩
    | cons item items => exact ⟨_, _, bytes_compact_array_cons item items, rfl, by decide⟩
  | object =>
    rename_i members _
    cases members with
    | nil => exact ⟨_, _, bytes_compact_object_nil, rfl, by decide⟩
    | cons member members => exact ⟨_, _, bytes_compact_object_cons member members, rfl, by decide⟩

/-- With enough fuel, the text of a value is scanned as the source of the value. -/
def ScansBack (j : Json) : Prop :=
  ∀ (fuel depth : Nat) (rest : List UInt8), j.Rereadable depth → Delimited rest →
    3 * (bytes j.compact).length ≤ fuel + 1 →
      scanValue (fuel + 1) depth (bytes j.compact ++ rest) = ⟨j.toSource, some rest⟩

theorem scansBack_null : ScansBack .null := by
  intro fuel depth rest _ _ _
  have hbytes : bytes (compact .null) = [0x6e, 0x75, 0x6c, 0x6c] := (bytes_eq _).trans rfl
  rw [hbytes, scanValue]
  rfl

theorem scansBack_bool (b : Bool) : ScansBack (.bool b) := by
  intro fuel depth rest _ _ _
  cases b with
  | true =>
    have hbytes : bytes (compact (.bool true)) = [0x74, 0x72, 0x75, 0x65] :=
      (bytes_eq _).trans rfl
    rw [hbytes, scanValue]
    rfl
  | false =>
    have hbytes : bytes (compact (.bool false)) = [0x66, 0x61, 0x6c, 0x73, 0x65] :=
      (bytes_eq _).trans rfl
    rw [hbytes, scanValue]
    rfl

theorem scansBack_number (n : Number) : ScansBack (.number n) := by
  intro fuel depth rest h hrest _
  cases h with
  | number h =>
    obtain ⟨b, tail, hbytes, hb⟩ := h.start
    have hread := readNumber_append hrest h
    rw [hbytes, List.cons_append] at hread
    obtain ⟨hgap, -, hnull, htrue, hfalse⟩ := ne_of_startsNumber hb
    rw [compact, hbytes, List.cons_append, scanValue, skipGap_cons hgap]
    dsimp only
    rw [if_neg hnull, if_neg htrue, if_neg hfalse, if_pos hb, hread]
    rfl

theorem scansBack_string (s : String) : ScansBack (.string s) := by
  intro fuel depth rest _ _ _
  rw [compact, bytes_quote, List.cons_append, List.append_assoc, scanValue, skipGap_cons rfl]
  show Scanned.ofExcept .string (readString (escaped s ++ 0x22 :: rest)) = _
  rw [readString_escaped]
  rfl

/-! ### Lists -/

theorem delimited_cons {b : UInt8} (h : digit? b = none ∧ b ≠ 0x2e ∧ b ≠ 0x65 ∧ b ≠ 0x45)
    (rest : List UInt8) : Delimited (b :: rest) := by
  intro b' hb'
  cases hb'
  exact h

theorem delimited_itemsTail (items : List Json) (rest : List UInt8) :
    Delimited (itemsTail items ++ rest) := by
  cases items with
  | nil => exact delimited_cons (by decide) _
  | cons item items => exact delimited_cons (by decide) _

theorem delimited_membersTail (members : List (String × Json)) (rest : List UInt8) :
    Delimited (membersTail members ++ rest) := by
  cases members with
  | nil => exact delimited_cons (by decide) _
  | cons member members => exact delimited_cons (by decide) _

theorem scanItems_end (fuel depth : Nat) (first : Bool) (rest : List UInt8) :
    scanItems (fuel + 1) depth first (0x5d :: rest) = ⟨⟨[], none⟩, some rest⟩ := by
  unfold scanItems
  rfl

theorem scanItems_first {b : UInt8} (hgap : isGap b = false) (hend : b ≠ 0x5d) (fuel depth : Nat)
    (text : List UInt8) :
    scanItems (fuel + 1) depth true (b :: text) = scanItem fuel depth (b :: text) := by
  unfold scanItems
  rw [skipGap_cons hgap]
  split
  · cases ‹b :: text = []›
  · exact absurd (List.head_eq_of_cons_eq ‹b :: text = _›) hend
  · rfl
  · cases ‹true = false›
  · cases ‹true = false›

theorem scanItems_next {b : UInt8} (hgap : isGap b = false) (hend : b ≠ 0x5d) (fuel depth : Nat)
    (text : List UInt8) :
    scanItems (fuel + 1) depth false (0x2c :: b :: text) = scanItem fuel depth (b :: text) := by
  unfold scanItems
  rw [skipGap_cons rfl]
  split
  · cases ‹0x2c :: b :: text = []›
  · cases ‹0x2c :: b :: text = 0x5d :: _›
  · cases ‹false = true›
  · cases ‹0x2c :: b :: text = 0x2c :: _›
    rw [skipGap_cons hgap]
    split
    · cases ‹b :: text = []›
    · exact absurd (List.head_eq_of_cons_eq ‹b :: text = _›) hend
    · rfl
  · rename_i hcomma
    exact absurd rfl (hcomma _)

theorem scanValue_array {fuel depth : Nat} {text : List UInt8} {items : List Source}
    {rest : List UInt8} (h : scanItems fuel depth true text = ⟨⟨items, none⟩, some rest⟩) :
    scanValue (fuel + 1) (depth + 1) (0x5b :: text) = ⟨.array items none, some rest⟩ := by
  rw [scanValue, skipGap_cons rfl]
  show (let items := scanItems fuel depth true text
    (⟨.array items.value.parts items.value.close, items.rest⟩ : Scanned Source)) = _
  rw [h]

theorem scanValue_object {fuel depth : Nat} {text : List UInt8} {members : List (String × Source)}
    {rest : List UInt8} (h : scanMembers fuel depth true text = ⟨⟨members, none⟩, some rest⟩) :
    scanValue (fuel + 1) (depth + 1) (0x7b :: text) = ⟨.object members none, some rest⟩ := by
  rw [scanValue, skipGap_cons rfl]
  show (let members := scanMembers fuel depth true text
    (⟨.object members.value.parts members.value.close, members.rest⟩ : Scanned Source)) = _
  rw [h]

section Items

variable {depth : Nat}

/-- An item, and what is behind it in its list. -/
theorem scanItem_of_scansBack {item : Json} (hitem : ScansBack item)
    (hdepth : item.Rereadable depth) (fuel : Nat)
    (hfuel : 3 * (bytes item.compact).length ≤ fuel + 1) (items : List Json)
    (rest : List UInt8) :
    scanItem (fuel + 2) depth (bytes item.compact ++ (itemsTail items ++ rest)) =
      Scanned.cons item.toSource (scanItems (fuel + 1) depth false (itemsTail items ++ rest)) := by
  rw [scanItem, hitem fuel depth _ hdepth (delimited_itemsTail items rest) hfuel]

theorem scanItems_itemsTail {items : List Json} (hitems : ∀ item ∈ items, ScansBack item)
    (hdepth : ∀ item ∈ items, item.Rereadable depth) {fuel : Nat}
    (hfuel : 3 * (itemsTail items).length ≤ fuel + 1) (rest : List UInt8) :
    scanItems (fuel + 1) depth false (itemsTail items ++ rest) =
      ⟨⟨itemSources items, none⟩, some rest⟩ := by
  induction items generalizing fuel with
  | nil => exact scanItems_end fuel depth false rest
  | cons item items ih =>
    obtain ⟨hitem, hitems⟩ := List.forall_mem_cons.mp hitems
    obtain ⟨hhead, htail⟩ := List.forall_mem_cons.mp hdepth
    have htext : itemsTail (item :: items) = 0x2c :: (bytes item.compact ++ itemsTail items) := by
      simp [itemsTail]
    rw [htext, List.length_cons, List.length_append] at hfuel
    obtain ⟨b, text, hbytes, hgap, hend⟩ := hhead.start
    have hlength : 0 < (bytes item.compact).length := by simp [hbytes]
    obtain ⟨fuel, rfl⟩ := Nat.exists_eq_add_of_le' (show 2 ≤ fuel by omega)
    have hscan := scanItem_of_scansBack hitem hhead fuel (by omega) items rest
    rw [ih hitems htail (by omega)] at hscan
    rw [hbytes] at hscan
    rw [htext, List.cons_append, List.append_assoc, hbytes]
    exact (scanItems_next hgap hend (fuel + 2) depth _).trans hscan

/-- The items of a list, and the end of the list. -/
theorem scanItems_of_scansBack {item : Json} {items : List Json}
    (hitems : ∀ i ∈ item :: items, ScansBack i)
    (hdepth : ∀ i ∈ item :: items, i.Rereadable depth) (fuel : Nat)
    (hfuel : 3 * (bytes item.compact ++ itemsTail items).length ≤ fuel) (rest : List UInt8) :
    scanItems (fuel + 1) depth true (bytes item.compact ++ (itemsTail items ++ rest)) =
      ⟨⟨itemSources (item :: items), none⟩, some rest⟩ := by
  obtain ⟨hitem, hitems⟩ := List.forall_mem_cons.mp hitems
  obtain ⟨hhead, htail⟩ := List.forall_mem_cons.mp hdepth
  rw [List.length_append] at hfuel
  obtain ⟨b, text, hbytes, hgap, hend⟩ := hhead.start
  have hlength : 0 < (bytes item.compact).length := by simp [hbytes]
  have htailLength : 0 < (itemsTail items).length := by simp [itemsTail]
  obtain ⟨fuel, rfl⟩ := Nat.exists_eq_add_of_le' (show 2 ≤ fuel by omega)
  have hscan := scanItem_of_scansBack hitem hhead fuel (by omega) items rest
  rw [scanItems_itemsTail hitems htail (by omega)] at hscan
  rw [hbytes] at hscan ⊢
  exact (scanItems_first hgap hend (fuel + 2) depth _).trans hscan

theorem scansBack_array {items : List Json} (hitems : ∀ item ∈ items, ScansBack item) :
    ScansBack (.array items) := by
  intro fuel depth rest h _ hfuel
  cases h with
  | array h =>
    cases items with
    | nil =>
      rw [bytes_compact_array_nil, List.length_cons] at hfuel
      obtain ⟨fuel, rfl⟩ := Nat.exists_eq_add_of_le' (show 1 ≤ fuel by omega)
      rw [bytes_compact_array_nil]
      exact scanValue_array (scanItems_end fuel _ true rest)
    | cons item items =>
      rw [bytes_compact_array_cons, List.length_cons] at hfuel
      obtain ⟨fuel, rfl⟩ := Nat.exists_eq_add_of_le' (show 1 ≤ fuel by omega)
      have hscan := scanItems_of_scansBack hitems h fuel (by omega) rest
      rw [bytes_compact_array_cons, List.cons_append, List.append_assoc]
      exact scanValue_array hscan

end Items

/-! ### Objects -/

theorem scanMembers_end (fuel depth : Nat) (first : Bool) (rest : List UInt8) :
    scanMembers (fuel + 1) depth first (0x7d :: rest) = ⟨⟨[], none⟩, some rest⟩ := by
  unfold scanMembers
  rfl

theorem scanMembers_first (fuel depth : Nat) (text : List UInt8) :
    scanMembers (fuel + 1) depth true (0x22 :: text) = scanMember fuel depth text := by
  unfold scanMembers
  rfl

theorem scanMembers_next (fuel depth : Nat) (text : List UInt8) :
    scanMembers (fuel + 1) depth false (0x2c :: 0x22 :: text) = scanMember fuel depth text := by
  unfold scanMembers
  rfl

theorem readKey_escaped (key : String) (rest : List UInt8) :
    readKey (escaped key ++ 0x22 :: 0x3a :: rest) = .ok (key, .ok rest) := by
  rw [readKey, readString_escaped]
  refine bind_eq_ok_iff.mpr ⟨_, rfl, ?_⟩
  dsimp only
  rw [skipGap_cons rfl]
  rfl

section Members

variable {depth : Nat}

/-- A member behind its opening quote, and what is behind it in its object. -/
theorem scanMember_of_scansBack {member : String × Json} (hmember : ScansBack member.2)
    (hdepth : member.2.Rereadable depth) (fuel : Nat)
    (hfuel : 3 * (bytes member.2.compact).length ≤ fuel + 1) (members : List (String × Json))
    (rest : List UInt8) :
    scanMember (fuel + 2) depth (escaped member.1 ++ 0x22 :: 0x3a ::
        (bytes member.2.compact ++ (membersTail members ++ rest))) =
      Scanned.cons (member.1, member.2.toSource)
        (scanMembers (fuel + 1) depth false (membersTail members ++ rest)) := by
  rw [scanMember, readKey_escaped]
  dsimp only
  rw [hmember fuel depth _ hdepth (delimited_membersTail members rest) hfuel]

theorem scanMembers_membersTail {members : List (String × Json)}
    (hmembers : ∀ member ∈ members, ScansBack member.2)
    (hdepth : ∀ member ∈ members, member.2.Rereadable depth) {fuel : Nat}
    (hfuel : 3 * (membersTail members).length ≤ fuel + 1) (rest : List UInt8) :
    scanMembers (fuel + 1) depth false (membersTail members ++ rest) =
      ⟨⟨memberSources members, none⟩, some rest⟩ := by
  induction members generalizing fuel with
  | nil => exact scanMembers_end fuel depth false rest
  | cons member members ih =>
    obtain ⟨hmember, hmembers⟩ := List.forall_mem_cons.mp hmembers
    obtain ⟨hhead, htail⟩ := List.forall_mem_cons.mp hdepth
    have htext : membersTail (member :: members) ++ rest =
        0x2c :: 0x22 :: (escaped member.1 ++ 0x22 :: 0x3a ::
          (bytes member.2.compact ++ (membersTail members ++ rest))) := by
      simp [membersTail, memberBytes]
    have hlength : (membersTail (member :: members)).length =
        (escaped member.1).length + (bytes member.2.compact).length +
          (membersTail members).length + 4 := by
      simp [membersTail, memberBytes]
      omega
    obtain ⟨fuel, rfl⟩ := Nat.exists_eq_add_of_le' (show 2 ≤ fuel by omega)
    have hscan := scanMember_of_scansBack hmember hhead fuel (by omega) members rest
    rw [ih hmembers htail (by omega)] at hscan
    rw [htext]
    exact (scanMembers_next (fuel + 2) depth _).trans hscan

theorem scansBack_object {members : List (String × Json)}
    (hmembers : ∀ member ∈ members, ScansBack member.2) : ScansBack (.object members) := by
  intro fuel depth rest h _ hfuel
  cases h with
  | object h =>
    cases members with
    | nil =>
      rw [bytes_compact_object_nil, List.length_cons] at hfuel
      obtain ⟨fuel, rfl⟩ := Nat.exists_eq_add_of_le' (show 1 ≤ fuel by omega)
      rw [bytes_compact_object_nil]
      exact scanValue_object (scanMembers_end fuel _ true rest)
    | cons member members =>
      obtain ⟨hmember, hmembers⟩ := List.forall_mem_cons.mp hmembers
      obtain ⟨hhead, htail⟩ := List.forall_mem_cons.mp h
      have hlength : (bytes (compact (.object (member :: members)))).length =
          (escaped member.1).length + (bytes member.2.compact).length +
            (membersTail members).length + 4 := by
        rw [bytes_compact_object_cons]
        simp [memberBytes]
        omega
      obtain ⟨fuel, rfl⟩ := Nat.exists_eq_add_of_le' (show 3 ≤ fuel by omega)
      have hscan := scanMember_of_scansBack hmember hhead fuel (by omega) members rest
      rw [scanMembers_membersTail hmembers htail (by omega)] at hscan
      have htext : bytes (compact (.object (member :: members))) ++ rest =
          0x7b :: 0x22 :: (escaped member.1 ++ 0x22 :: 0x3a ::
            (bytes member.2.compact ++ (membersTail members ++ rest))) := by
        rw [bytes_compact_object_cons]
        simp [memberBytes]
      rw [htext]
      exact scanValue_object ((scanMembers_first (fuel + 2) _ _).trans hscan)

end Members

/-! ## Documents -/

theorem scansBack (j : Json) : ScansBack j := by
  induction j with
  | null => exact scansBack_null
  | bool b => exact scansBack_bool b
  | number n => exact scansBack_number n
  | string s => exact scansBack_string s
  | array items ih => exact scansBack_array ih
  | object members ih => exact scansBack_object ih

/-- **The text of a value is scanned as the value, without a fault.** -/
theorem scan_compact {j : Json} (h : j.Rereadable maxDepth) :
    scan (bytes j.compact) = ⟨j.toSource, none⟩ := by
  have hscan := scansBack j (3 * (bytes j.compact).length + 2) maxDepth [] h nofun (by omega)
  rw [List.append_nil] at hscan
  rw [scan, hscan]
  rfl

theorem itemsToJson_itemSources {items : List Json}
    (h : ∀ item ∈ items, item.toSource.toJson = .ok item) :
    Source.itemsToJson (itemSources items) = .ok items := by
  induction items with
  | nil => rfl
  | cons item items ih =>
    obtain ⟨hitem, hitems⟩ := List.forall_mem_cons.mp h
    rw [itemSources, Source.itemsToJson, hitem]
    dsimp only
    rw [ih hitems]

theorem membersToJson_memberSources {members : List (String × Json)}
    (h : ∀ member ∈ members, member.2.toSource.toJson = .ok member.2) :
    Source.membersToJson (memberSources members) = .ok members := by
  induction members with
  | nil => rfl
  | cons member members ih =>
    obtain ⟨hmember, hmembers⟩ := List.forall_mem_cons.mp h
    obtain ⟨key, value⟩ := member
    rw [memberSources, Source.membersToJson, hmember]
    dsimp only
    rw [ih hmembers]

/-- The source of a valid value has the value. -/
theorem Valid.toJson_toSource {j : Json} (h : j.Valid) : j.toSource.toJson = .ok j := by
  induction j with
  | null => rfl
  | bool b => rfl
  | number n => rfl
  | string s => rfl
  | array items ih =>
    cases h with
    | array h =>
      rw [toSource, Source.toJson, itemsToJson_itemSources fun item hitem =>
        ih item hitem (h item hitem)]
      rfl
  | object members ih =>
    cases h with
    | object hkeys h =>
      rw [toSource, Source.toJson, membersToJson_memberSources fun member hmember =>
        ih member hmember (h member hmember)]
      show Except.ok (ofMembers members) = .ok (.object members)
      rw [ofMembers, Table.entries_ofList hkeys]

/-- **A value that was written is read back.** -/
theorem parse_compact {j : Json} (hvalid : j.Valid) (h : j.Rereadable maxDepth) :
    parse (bytes j.compact) = .ok j := by
  rw [parse, scan_compact h, Document.toJson, hvalid.toJson_toSource]
  rfl

/-! ### Given texts -/

theorem scan_toUTF8 {text : String} {j : Json} (htext : text = j.compact)
    (h : j.Rereadable maxDepth) : scan text.toUTF8.toList = ⟨j.toSource, none⟩ := by
  rw [htext]
  exact scan_compact h

theorem parse_toUTF8 {text : String} {j : Json} (htext : text = j.compact) (hvalid : j.Valid)
    (h : j.Rereadable maxDepth) : parse text.toUTF8.toList = .ok j := by
  rw [htext]
  exact parse_compact hvalid h

end DeferredStyle.Json
