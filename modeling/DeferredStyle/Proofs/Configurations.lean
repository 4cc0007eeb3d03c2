import DeferredStyle.Config
import DeferredStyle.Proofs.Image
import DeferredStyle.Proofs.Rereading
import DeferredStyle.Proofs.Versions

/-!
# Configurations

Environments and call trees read literals in two ways: an environment tries the classes of literals
one after the other, a call tree looks at the class of the JSON value.  They agree.  A configuration
that is written as a document is read back from it.

* `Literal.ofJson?_eq_some_iff` — the two readers of literals agree.
* `Config.DoublesReread` — the texts of the doubles of a configuration are read as the doubles.
* `Config.parse_compact` — a configuration is read back; `Config.isFinite_of_parse`, what was read
  has only finite doubles.
* `configurations_reread` — all of this.
-/

set_option autoImplicit false

namespace DeferredStyle

open Text (bytes)

/-! ## Literals -/

namespace Wire

theorem readAttribute?_ne_literal (items : List Json) (l : Literal) :
    readAttribute? items ≠ .ok (some (.literal l)) := by
  intro h
  unfold readAttribute? at h
  repeat' split at h
  all_goals cases h

/-- A list is no literal in a call tree. -/
theorem readTerm_array_ne_literal (items : List Json) (l : Literal) :
    readTerm (.array items) ≠ .ok (.literal l) := by
  intro h
  rw [readTerm] at h
  split at h
  · cases h
  · rename_i reference hreference
    cases h
    exact readAttribute?_ne_literal items l hreference
  · split at h
    · obtain ⟨node, -, hnode⟩ := map_eq_ok_iff.mp h
      cases hnode
    · obtain ⟨terms, -, hterms⟩ := map_eq_ok_iff.mp h
      cases hterms

end Wire

namespace Literal

theorem ofJson?_number (n : Number) : ofJson? (.number n) = some (ofNumber n) := by
  rw [ofNumber]
  cases hint : n.toInt64? <;>
    simp [ofJson?, List.findSome?_cons, ofNull?, ofBool?, ofInteger?, ofFloat?, hint]

/-- **Environments and call trees read the same literals.** -/
theorem ofJson?_eq_some_iff {j : Json} {l : Literal} :
    ofJson? j = some l ↔ Wire.readTerm j = .ok (.literal l) := by
  cases j with
  | null => exact ⟨fun h => by cases h; rfl, fun h => by cases h; rfl⟩
  | bool b => exact ⟨fun h => by cases h; rfl, fun h => by cases h; rfl⟩
  | number n =>
    rw [ofJson?_number, Wire.readTerm]
    simp
  | string s => exact ⟨fun h => by cases h; rfl, fun h => by cases h; rfl⟩
  | array items => exact ⟨fun h => (by cases h), fun h => absurd h (Wire.readTerm_array_ne_literal items l)⟩
  | object members => exact ⟨fun h => (by cases h), fun h => (by cases h)⟩

/-- A number is an integer if it fits 64 bits with a sign, and a double otherwise. -/
theorem ofJson?_int_iff {n : Number} {i : Int64} :
    ofJson? (.number n) = some (int i) ↔ n.integer? = some i.toInt := by
  rw [ofJson?_number, Option.some.injEq, ← Wire.toInt64?_eq_some_iff, ofNumber]
  cases n.toInt64? <;> simp

theorem ofJson?_float {n : Number} (h : ∀ i : Int64, n.integer? ≠ some i.toInt) :
    ofJson? (.number n) = some (float n.toFloat) := by
  have hnone : n.toInt64? = none :=
    Option.eq_none_iff_forall_ne_some.mpr fun i hi => h i (Wire.toInt64?_eq_some_iff.mp hi)
  rw [ofJson?_number, ofNumber, hnone]

theorem ofJson?_toJson (l : Literal) : ofJson? l.toJson = some l := by
  cases l with
  | int n => exact ofJson?_int_iff.mpr (Wire.integer?_numberOfInt n)
  | float x => exact ofJson?_float nofun
  | nil | bool _ | string _ => rfl

theorem rereads_numberOfInt (n : Int64) : Json.Rereads (numberOfInt n) := by
  unfold numberOfInt
  split
  · exact Json.rereads_negative ‹_›
  · exact Json.rereads_natural _

theorem rereadable_toJson {l : Literal} (h : ∀ x, l = .float x → Json.Rereads (.float x))
    (depth : Nat) : l.toJson.Rereadable depth := by
  cases l with
  | nil => exact .null depth
  | bool b => exact .bool depth b
  | int n => exact .number (rereads_numberOfInt n)
  | float x => exact .number (h x rfl)
  | string s => exact .string depth s

end Literal

/-- A JSON value that is neither a list nor an object. -/
inductive Json.IsScalar : Json → Prop
  | null : IsScalar .null
  | bool (b : Bool) : IsScalar (.bool b)
  | number (n : Number) : IsScalar (.number n)
  | string (s : String) : IsScalar (.string s)

theorem Literal.exists_ofJson?_iff {j : Json} :
    (∃ l, Literal.ofJson? j = some l) ↔ j.IsScalar := by
  constructor
  · rintro ⟨l, h⟩
    cases j with
    | null => exact .null
    | bool b => exact .bool b
    | number n => exact .number n
    | string s => exact .string s
    | array items => cases h
    | object members => cases h
  · intro h
    cases h with
    | null => exact ⟨_, rfl⟩
    | bool b => exact ⟨_, rfl⟩
    | number n => exact ⟨_, ofJson?_number n⟩
    | string s => exact ⟨_, rfl⟩

namespace Config

theorem readLiteral_eq_ok_iff {source : Json.Source} {l : Literal} :
    readLiteral source = .ok l ↔ ∃ j, source.toJson = .ok j ∧ Literal.ofJson? j = some l := by
  rw [readLiteral]
  cases source.toJson with
  | error fault => simp
  | ok j => cases hl : Literal.ofJson? j <;> simp [hl]

/-! ## Reading a written configuration -/

theorem readLiteral_toSource (l : Literal) : readLiteral l.toJson.toSource = .ok l := by
  refine readLiteral_eq_ok_iff.mpr ⟨l.toJson, ?_, Literal.ofJson?_toJson l⟩
  cases l <;> rfl

theorem readValues_memberSources (values : Table Literal) (entries : List (String × Literal)) :
    readValues values (Json.memberSources (entries.map fun entry => (entry.1, entry.2.toJson))) =
      .ok (entries.foldl (fun table entry => table.insert entry.1 entry.2) values) := by
  induction entries generalizing values with
  | nil => rfl
  | cons entry entries ih =>
    rw [List.map_cons, Json.memberSources, readValues, readLiteral_toSource]
    exact ih _

theorem ofList_entries (values : Table Literal) : Table.ofList values.entries = values :=
  Table.ext (Table.entries_ofList values.increasing)

/-- The environment of a written configuration. -/
theorem readEnvironment_toSource (values : Table Literal) :
    readEnvironment (Json.object (values.map Literal.toJson).entries).toSource = .ok values := by
  rw [Json.toSource, readEnvironment, Table.map, readValues_memberSources]
  show readClose none (Table.ofList values.entries) = _
  rw [ofList_entries]
  rfl

/-- A text names a platform if it is its name up to the case of ASCII letters. -/
theorem ofText?_eq_some_iff {text : String} {platform : Platform} :
    Platform.ofText? text = some platform ↔
      Platform.lowerCase text = Platform.lowerCase platform.name := by
  constructor
  · intro h
    unfold Platform.ofText? at h
    split at h
    case h_6 => cases h
    all_goals
      rename_i htext
      cases h
      exact htext
  · intro h
    rw [Platform.ofText?, h]
    cases platform <;> rfl

theorem ofText?_name (platform : Platform) : Platform.ofText? platform.name = some platform :=
  ofText?_eq_some_iff.mpr rfl

theorem ofSource_toSource (config : Config) : ofSource config.toJson.toSource = .ok config := by
  obtain ⟨platform, version, values⟩ := config
  have hplatform : readPlatform (.string platform.name) = .ok platform := by
    rw [readPlatform, readText]
    dsimp only
    rw [ofText?_name]
  have hversion : readVersion (.string version.text) = .ok version := by
    rw [readVersion, readText]
    dsimp only
    rw [Version.ofText?_text]
  have hvalues := readEnvironment_toSource values
  have hsource : (toJson ⟨platform, version, values⟩).toSource =
      .object [("platform", .string platform.name), ("runtimeVersion", .string version.text),
        ("environment", (Json.object (values.map Literal.toJson).entries).toSource)] none := rfl
  have hfields : readFields .none
      [("platform", .string platform.name), ("runtimeVersion", .string version.text),
        ("environment", (Json.object (values.map Literal.toJson).entries).toSource)] =
      .ok ⟨some platform, some version, some values⟩ := by
    simp [readFields, readField, Fields.none, hplatform, hversion, hvalues, Except.map]
  rw [hsource, ofSource, hfields]
  rfl

/-- The texts of the doubles of a configuration are read as the doubles. -/
def DoublesReread (config : Config) : Prop :=
  ∀ key x, (key, Literal.float x) ∈ config.environment.entries → x.isFinite = true →
    Json.Rereads (.float x)

/-- The doubles among values are finite. -/
def FiniteValues (values : Table Literal) : Prop :=
  ∀ entry ∈ values.entries, entry.2.IsFinite

/-- The doubles of a configuration are finite. -/
def IsFinite (config : Config) : Prop := FiniteValues config.environment

/-- **A configuration is read back from its document**, provided that its doubles are. -/
theorem parse_compact {config : Config} (hfinite : config.IsFinite)
    (hdoubles : config.DoublesReread) : parse (bytes config.toJson.compact) = .ok config := by
  have hvalue (depth : Nat) : ∀ member ∈ (config.environment.map Literal.toJson).entries,
      member.2.Rereadable depth := by
    intro member hmember
    obtain ⟨⟨key, l⟩, hentry, rfl⟩ := List.mem_map.mp hmember
    refine Literal.rereadable_toJson (fun x hx => ?_) depth
    cases hx
    exact hdoubles key x hentry (hfinite _ hentry)
  have hdocument : config.toJson.Rereadable Json.maxDepth := by
    refine .object ?_
    simp only [List.forall_mem_cons, List.not_mem_nil, false_imp_iff, implies_true, and_true]
    exact ⟨.string _ _, .string _ _, .object (hvalue _)⟩
  rw [parse, Json.scan_compact hdocument, ofDocument, ofSource_toSource]
  rfl

/-! ## Configurations that were read -/

theorem isFinite_of_readLiteral {source : Json.Source} {l : Literal} (hsource : source.Valid)
    (h : readLiteral source = .ok l) : l.IsFinite := by
  obtain ⟨j, hj, hl⟩ := readLiteral_eq_ok_iff.mp h
  have hvalid := hsource.toJson hj
  cases j with
  | null | bool _ | string _ =>
    cases hl
    trivial
  | number n =>
    rw [Literal.ofJson?_number, Option.some.injEq] at hl
    subst hl
    cases hvalid with
    | number hn =>
      unfold Literal.ofNumber
      split
      · trivial
      · exact hn.isFinite_toFloat
  | array items => cases hl
  | object members => cases hl

theorem finite_empty : FiniteValues .empty :=
  fun _ hentry => absurd hentry List.not_mem_nil

theorem finite_of_readValues {values result : Table Literal}
    {members : List (String × Json.Source)} (hmembers : ∀ member ∈ members, member.2.Valid)
    (hvalues : FiniteValues values) (h : readValues values members = .ok result) :
    FiniteValues result := by
  induction members generalizing values with
  | nil =>
    cases h
    exact hvalues
  | cons member members ih =>
    obtain ⟨key, source⟩ := member
    obtain ⟨hsource, hmembers⟩ := List.forall_mem_cons.mp hmembers
    rw [readValues] at h
    split at h
    · cases h
    · rename_i l hl
      refine ih hmembers (fun entry hentry => ?_) h
      rcases Table.mem_insertEntry hentry with rfl | hold
      · exact isFinite_of_readLiteral hsource hl
      · exact hvalues entry hold

theorem readClose_eq_ok_iff {α : Type} {close : Option Json.Fault} {value result : α} :
    readClose close value = .ok result ↔ close = none ∧ value = result := by
  cases close <;> simp [readClose, Json.closing, Except.mapError]

theorem finite_of_readEnvironment {source : Json.Source} {values : Table Literal}
    (hsource : source.Valid) (h : readEnvironment source = .ok values) : FiniteValues values := by
  cases hsource with
  | object hmembers =>
    rw [readEnvironment] at h
    split at h
    · cases h
    · rename_i result hresult
      obtain ⟨-, rfl⟩ := readClose_eq_ok_iff.mp h
      exact finite_of_readValues hmembers finite_empty hresult
  | _ => cases h

/-- The doubles of the environment are finite, if it has been read. -/
def Fields.IsFinite (fields : Fields) : Prop :=
  ∀ values, fields.environment = some values → FiniteValues values

theorem isFinite_none : Fields.none.IsFinite := fun _ h => nomatch h

theorem finite_of_readField {fields result : Fields} {key : String} {source : Json.Source}
    (hsource : source.Valid) (hfields : fields.IsFinite)
    (h : readField fields key source = .ok result) : result.IsFinite := by
  unfold readField at h
  split_ifs at h
  · obtain ⟨platform, -, rfl⟩ := map_eq_ok_iff.mp h
    exact hfields
  · obtain ⟨version, -, rfl⟩ := map_eq_ok_iff.mp h
    exact hfields
  · obtain ⟨values, hvalues, rfl⟩ := map_eq_ok_iff.mp h
    intro values' hvalues'
    cases hvalues'
    exact finite_of_readEnvironment hsource hvalues

theorem finite_of_readFields {fields result : Fields} {members : List (String × Json.Source)}
    (hmembers : ∀ member ∈ members, member.2.Valid) (hfields : fields.IsFinite)
    (h : readFields fields members = .ok result) : result.IsFinite := by
  induction members generalizing fields with
  | nil =>
    cases h
    exact hfields
  | cons member members ih =>
    obtain ⟨key, source⟩ := member
    obtain ⟨hsource, hmembers⟩ := List.forall_mem_cons.mp hmembers
    rw [readFields] at h
    split at h
    · cases h
    · rename_i next hnext
      exact ih hmembers (finite_of_readField hsource hfields hnext) h

theorem finite_of_readListed {items : List Json.Source} {fields : Fields}
    (hitems : ∀ item ∈ items, item.Valid) (h : readListed items = .ok fields) :
    fields.IsFinite := by
  match items with
  | [] =>
    cases h
    exact isFinite_none
  | platform :: rest =>
    rw [readListed] at h
    split at h
    · cases h
    match rest with
    | [] =>
      cases h
      exact fun _ h => nomatch h
    | version :: rest =>
      dsimp only at h
      split at h
      · cases h
      match rest with
      | [] =>
        cases h
        exact fun _ h => nomatch h
      | environment :: rest =>
        obtain ⟨values, hvalues, rfl⟩ := map_eq_ok_iff.mp h
        intro values' hvalues'
        cases hvalues'
        exact finite_of_readEnvironment (hitems environment (by simp)) hvalues

theorem finite_complete {fields : Fields} (h : fields.IsFinite) : fields.complete.IsFinite := by
  cases henvironment : fields.environment with
  | none =>
    rw [IsFinite, Fields.complete, henvironment]
    exact finite_empty
  | some values =>
    rw [IsFinite, Fields.complete, henvironment]
    exact h values henvironment

theorem finite_of_ofSource {source : Json.Source} {config : Config} (hsource : source.Valid)
    (h : ofSource source = .ok config) : config.IsFinite := by
  cases hsource with
  | object hmembers =>
    rw [ofSource] at h
    split at h
    · cases h
    · rename_i fields hfields
      obtain ⟨-, rfl⟩ := readClose_eq_ok_iff.mp h
      exact finite_complete (finite_of_readFields hmembers isFinite_none hfields)
  | array hitems =>
    rw [ofSource] at h
    split at h
    · cases h
    · rename_i fields hfields
      obtain ⟨-, rfl⟩ := readClose_eq_ok_iff.mp h
      exact finite_complete (finite_of_readListed hitems hfields)
  | _ => cases h

/-- The doubles of a configuration that was read are finite. -/
theorem isFinite_of_parse {text : List UInt8} {config : Config} (h : parse text = .ok config) :
    config.IsFinite := by
  rw [parse, ofDocument] at h
  split at h
  · cases h
  · rename_i result hresult
    obtain ⟨-, rfl⟩ := readClose_eq_ok_iff.mp h
    exact finite_of_ofSource (Json.valid_scan text) hresult

end Config

/-- **Both readers of literals agree, and configurations are read back.**  A JSON value is a literal
of an environment exactly if it is the same literal of a call tree: if it is no list and no object,
a number being an integer exactly if it is written as one that fits 64 bits with a sign.  A
configuration with finite doubles is read back from its document, and so is a configuration that was
read from any document, which has only finite doubles.  The texts of these doubles are assumed to be
read as the doubles. -/
theorem configurations_reread :
    (∀ (source : Json.Source) (l : Literal), Config.readLiteral source = .ok l ↔
      ∃ j, source.toJson = .ok j ∧ Literal.ofJson? j = some l) ∧
    (∀ (j : Json) (l : Literal),
      Literal.ofJson? j = some l ↔ Wire.readTerm j = .ok (.literal l)) ∧
    (∀ j : Json, (∃ l, Literal.ofJson? j = some l) ↔ j.IsScalar) ∧
    (∀ (n : Number) (i : Int64),
      Literal.ofJson? (.number n) = some (.int i) ↔ n.integer? = some i.toInt) ∧
    (∀ n : Number, (∀ i : Int64, n.integer? ≠ some i.toInt) →
      Literal.ofJson? (.number n) = some (.float n.toFloat)) ∧
    (∀ config : Config, config.IsFinite → config.DoublesReread →
      Config.parse config.toJson.compact.toUTF8.toList = .ok config) ∧
    ∀ (text : List UInt8) (config : Config), Config.parse text = .ok config →
      config.IsFinite ∧
        (config.DoublesReread →
          Config.parse config.toJson.compact.toUTF8.toList = .ok config) := by
  refine ⟨fun source l => Config.readLiteral_eq_ok_iff, fun j l => Literal.ofJson?_eq_some_iff,
    fun j => Literal.exists_ofJson?_iff, fun n i => Literal.ofJson?_int_iff,
    fun n => Literal.ofJson?_float, fun config => Config.parse_compact, ?_⟩
  intro text config h
  have hfinite := Config.isFinite_of_parse h
  exact ⟨hfinite, Config.parse_compact hfinite⟩

theorem rereads_half : Json.Rereads (.float 0.5) := by
  have htext : Json.numberText (.float 0.5) = "0.5" := by decide +kernel
  have hbytes : bytes "0.5" = [0x30, 0x2e, 0x35] := (Text.bytes_eq _).trans rfl
  have hscale : Json.scale? 5 (-1) = some 0.5 := by
    rw [Json.scale?, Json.divideByTens_of_le _ (by decide)]
    decide +kernel
  have hvalue : (Json.Written.mk false [0] (some [5]) none).value = .ok (.float 0.5) :=
    Json.Written.value_eq_float (.inl (by decide)) rfl rfl rfl hscale
  rw [Json.Rereads, htext, hbytes]
  exact Json.readNumber_eq_ok_iff.mpr ⟨false, _, _, .plain (by simp), rfl, hvalue⟩

theorem rereads_negativeZero : Json.Rereads (.float (-0.0)) := by
  have htext : Json.numberText (.float (-0.0)) = "-0.0" := by decide +kernel
  have hbytes : bytes "-0.0" = [0x2d, 0x30, 0x2e, 0x30] := (Text.bytes_eq _).trans rfl
  have hscale : Json.scale? 0 (-1) = some 0.0 := by
    rw [Json.scale?, Json.divideByTens_of_le _ (by decide)]
    decide +kernel
  have hvalue : (Json.Written.mk true [0] (some [0]) none).value = .ok (.float (-0.0)) :=
    Json.Written.value_eq_float (.inl (by decide)) rfl rfl rfl hscale
  rw [Json.Rereads, htext, hbytes]
  exact Json.readNumber_eq_ok_iff.mpr ⟨true, _, _, .minus _, rfl, hvalue⟩

/-- Literals of every class, among them the least integer, half and negative zero; and a number that
is too large for an integer. -/
theorem configurations_reread_mixed :
    let pairs : List (String × Literal) :=
      [("a", .nil), ("b", .bool true), ("c", .int (-9223372036854775808)), ("d", .float 0.5),
        ("e", .float (-0.0)), ("f", .string "\"é\n")]
    let config : Config := ⟨.macos, ⟨14, 2, 1⟩, .ofList pairs⟩
    config.IsFinite ∧ config.DoublesReread ∧
      Config.parse config.toJson.compact.toUTF8.toList = .ok config ∧
      (∀ i : Int64, (Number.natural 0x8000000000000000).integer? ≠ some i.toInt) ∧
      Literal.ofJson? (.number (.natural 0x8000000000000000)) =
        some (.float 9223372036854775808.0) := by
  intro pairs config
  have hkeys : (pairs.map Prod.fst).Pairwise (· < ·) := by decide
  have hentries : config.environment.entries = pairs :=
    Table.entries_ofList (List.pairwise_map.mp hkeys)
  have hhalf : (0.5 : Float).isFinite = true := by decide +kernel
  have hzero : (-0.0 : Float).isFinite = true := by decide +kernel
  have hfinite : config.IsFinite := by
    rw [Config.IsFinite, Config.FiniteValues, hentries]
    simp only [pairs, List.forall_mem_cons, List.not_mem_nil, false_imp_iff, implies_true, and_true]
    exact ⟨trivial, trivial, trivial, hhalf, hzero, trivial⟩
  have hdoubles : config.DoublesReread := by
    intro key x hx _
    rw [hentries] at hx
    simp only [pairs, List.mem_cons, Prod.mk.injEq, reduceCtorEq, and_false, List.not_mem_nil,
      or_false, false_or, Literal.float.injEq] at hx
    rcases hx with ⟨-, rfl⟩ | ⟨-, rfl⟩
    · exact rereads_half
    · exact rereads_negativeZero
  have hlarge : ∀ i : Int64, (Number.natural 0x8000000000000000).integer? ≠ some i.toInt := by
    intro i hi
    have hlt := Int64.toInt_lt i
    rw [← Option.some.inj hi] at hlt
    exact absurd hlt (by decide)
  have htoFloat : (Number.natural 0x8000000000000000).toFloat = 9223372036854775808.0 := by
    decide +kernel
  obtain ⟨-, -, -, -, hfloat, hreread, hagain⟩ := configurations_reread
  have hread := hreread config hfinite hdoubles
  obtain ⟨-, hdocument⟩ := hagain _ config hread
  exact ⟨hfinite, hdoubles, hdocument hdoubles, hlarge, htoFloat ▸ hfloat _ hlarge⟩

end DeferredStyle
