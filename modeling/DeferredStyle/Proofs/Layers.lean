import DeferredStyle.CommandLine.Run
import DeferredStyle.Proofs.Configurations

/-!
# Layers of settings

What a command works with comes from three layers: options, the configuration file and the standard.
An option overrides the file and the file overrides the standard; values of the environment are
overridden key by key.

* `lastValue?` — the last of the pairs of a name.
* `Config.parse_layers` — a configuration is what its document sets, over the standard.
* `CommandLine.FileSets` — what the configuration file sets; `CommandLine.exists_fileSets`, a
  configuration that was loaded is that, over the standard.
* `CommandLine.settings_layers` — the settings of a command, layer over layer.
-/

set_option autoImplicit false

namespace DeferredStyle

/-! ## The last of pairs -/

section Pairs

variable {α β : Type}

/-- The value of the last pair of a name. -/
def lastValue? (name : String) (pairs : List (String × α)) : Option α :=
  (pairs.filter fun pair => pair.1 = name).getLast?.map Prod.snd

theorem lastValue?_cons (name : String) (pair : String × α) (pairs : List (String × α)) :
    lastValue? name (pair :: pairs) =
      (lastValue? name pairs).or (if pair.1 = name then some pair.2 else none) := by
  unfold lastValue?
  by_cases h : pair.1 = name
  · simp only [h, decide_true, List.filter_cons_of_pos, if_true]
    rw [List.getLast?_cons]
    cases (List.filter (fun pair => pair.1 = name) pairs).getLast? <;> simp
  · simp [h]

/-- **After the insertion of pairs a name has the value of its last pair**, and the old one if there
is none. -/
theorem Table.find?_insertAll (f : α → β) (pairs : List (String × α)) (table : Table β)
    (name : String) :
    (pairs.foldl (fun table pair => table.insert pair.1 (f pair.2)) table).find? name =
      ((lastValue? name pairs).map f).or (table.find? name) := by
  induction pairs generalizing table with
  | nil => rfl
  | cons pair pairs ih =>
    rw [List.foldl_cons, ih, Table.find?_insert, lastValue?_cons]
    by_cases h : name = pair.1
    · subst h
      cases lastValue? pair.1 pairs <;> simp
    · rw [if_neg h, if_neg (Ne.symm h), Option.or_none]

theorem Table.find?_ofList (pairs : List (String × α)) (name : String) :
    (Table.ofList pairs).find? name = lastValue? name pairs := by
  have hinserted := Table.find?_insertAll id pairs .empty name
  rw [Option.map_id, Table.find?_empty, Option.or_none] at hinserted
  exact hinserted

end Pairs

/-! ## The document of a configuration -/

/-- What a document says under a name: a member of an object, or an item of a list. -/
def Json.setting? (name : String) : Json → Option Json
  | .object members => Table.lookup? name members
  | .array items => Table.lookup? name (["platform", "runtimeVersion", "environment"].zip items)
  | _ => none

namespace Config

/-- The name of a platform. -/
def IsPlatform (json : Json) (platform : Platform) : Prop :=
  ∃ text, json = .string text ∧ Platform.ofText? text = some platform

/-- The text of a version. -/
def IsVersion (json : Json) (version : Version) : Prop :=
  ∃ text, json = .string text ∧ Version.ofText? text = some version

/-- An object with these literals. -/
def IsEnvironment (json : Json) (values : Table Literal) : Prop :=
  ∃ members, json = .object members ∧
    ∀ key, (Table.lookup? key members).map Literal.ofJson? = (values.find? key).map some

/-- What is found for a setting is its value from now on, and where nothing is found it stays as it
was. -/
inductive Sets {α : Type} (Is : Json → α → Prop) (before : Option α) :
    Option Json → Option α → Prop
  | kept : Sets Is before none before
  | read {json : Json} {a : α} (h : Is json a) : Sets Is before (some json) (some a)

theorem Sets.trans {α : Type} {Is : Json → α → Prop} {before middle after : Option α}
    {first second : Option Json} (hfirst : Sets Is before first middle)
    (hsecond : Sets Is middle second after) : Sets Is before (second.or first) after := by
  cases hsecond with
  | kept => exact hfirst
  | read h => exact .read h

/-- Members are what is found for them over what they were before. -/
structure Fields.Sets (before : Fields) (found : String → Option Json) (after : Fields) :
    Prop where
  platform : Config.Sets IsPlatform before.platform (found "platform") after.platform
  runtimeVersion :
    Config.Sets IsVersion before.runtimeVersion (found "runtimeVersion") after.runtimeVersion
  environment :
    Config.Sets IsEnvironment before.environment (found "environment") after.environment

theorem readPlatform_ok {source : Json.Source} {platform : Platform}
    (h : readPlatform source = .ok platform) :
    ∃ json, source.toJson = .ok json ∧ IsPlatform json platform := by
  cases source with
  | string text =>
    rw [readPlatform, readText] at h
    dsimp only at h
    split at h <;> cases h
    exact ⟨.string text, rfl, text, rfl, ‹_›⟩
  | _ => cases h

theorem readVersion_ok {source : Json.Source} {version : Version}
    (h : readVersion source = .ok version) :
    ∃ json, source.toJson = .ok json ∧ IsVersion json version := by
  cases source with
  | string text =>
    rw [readVersion, readText] at h
    dsimp only at h
    split at h <;> cases h
    exact ⟨.string text, rfl, text, rfl, ‹_›⟩
  | _ => cases h

/-- Members of an environment are literals, the last of a key over those in front of it. -/
theorem readValues_ok {members : List (String × Json.Source)} {values result : Table Literal}
    (h : readValues values members = .ok result) :
    ∃ jsons, Json.Source.membersToJson members = .ok jsons ∧ ∀ key,
      (result.find? key).map some =
        ((lastValue? key jsons).map Literal.ofJson?).or ((values.find? key).map some) := by
  induction members generalizing values with
  | nil =>
    cases h
    exact ⟨[], rfl, fun key => rfl⟩
  | cons member members ih =>
    obtain ⟨name, source⟩ := member
    rw [readValues] at h
    split at h
    · cases h
    · rename_i literal hliteral
      obtain ⟨json, hjson, hvalue⟩ := readLiteral_eq_ok_iff.mp hliteral
      obtain ⟨jsons, hjsons, hkeys⟩ := ih h
      refine ⟨(name, json) :: jsons, ?_, fun key => ?_⟩
      · rw [Json.Source.membersToJson, hjson, hjsons]
      · rw [hkeys, Table.find?_insert, lastValue?_cons]
        by_cases hkey : key = name
        · subst hkey
          cases lastValue? key jsons <;> simp [hvalue]
        · rw [if_neg hkey, if_neg (Ne.symm hkey), Option.or_none]

theorem readEnvironment_ok {source : Json.Source} {values : Table Literal}
    (h : readEnvironment source = .ok values) :
    ∃ json, source.toJson = .ok json ∧ IsEnvironment json values := by
  cases source with
  | object members close =>
    rw [readEnvironment] at h
    split at h
    · cases h
    · rename_i result hresult
      obtain ⟨rfl, rfl⟩ := readClose_eq_ok_iff.mp h
      obtain ⟨jsons, hjsons, hkeys⟩ := readValues_ok hresult
      refine ⟨.ofMembers jsons, ?_, _, rfl, fun key => ?_⟩
      · rw [Json.Source.toJson, hjsons]
        rfl
      · have hlookup : Table.lookup? key (Table.ofList jsons).entries = lastValue? key jsons :=
          Table.find?_ofList jsons key
        rw [hlookup, hkeys, Table.find?_empty, Option.map_none, Option.or_none]
  | _ => cases h

/-- One member. -/
theorem readField_ok {fields next : Fields} {key : String} {source : Json.Source}
    (h : readField fields key source = .ok next) :
    ∃ json, source.toJson = .ok json ∧
      fields.Sets (fun name => if key = name then some json else none) next := by
  unfold readField at h
  split_ifs at h with hplatform _ hversion _ henvironment _
  · obtain ⟨platform, hread, rfl⟩ := map_eq_ok_iff.mp h
    obtain ⟨json, hjson, his⟩ := readPlatform_ok hread
    subst hplatform
    exact ⟨json, hjson, .read his, .kept, .kept⟩
  · obtain ⟨version, hread, rfl⟩ := map_eq_ok_iff.mp h
    obtain ⟨json, hjson, his⟩ := readVersion_ok hread
    subst hversion
    exact ⟨json, hjson, .kept, .read his, .kept⟩
  · obtain ⟨values, hread, rfl⟩ := map_eq_ok_iff.mp h
    obtain ⟨json, hjson, his⟩ := readEnvironment_ok hread
    subst henvironment
    exact ⟨json, hjson, .kept, .kept, .read his⟩

theorem Fields.Sets.trans {before middle after : Fields} {first second : String → Option Json}
    (hfirst : before.Sets first middle) (hsecond : middle.Sets second after) :
    before.Sets (fun name => (second name).or (first name)) after :=
  ⟨hfirst.platform.trans hsecond.platform, hfirst.runtimeVersion.trans hsecond.runtimeVersion,
    hfirst.environment.trans hsecond.environment⟩

/-- All members of an object. -/
theorem readFields_ok {members : List (String × Json.Source)} {fields result : Fields}
    (h : readFields fields members = .ok result) :
    ∃ jsons, Json.Source.membersToJson members = .ok jsons ∧
      fields.Sets (fun name => lastValue? name jsons) result := by
  induction members generalizing fields with
  | nil =>
    cases h
    exact ⟨[], rfl, .kept, .kept, .kept⟩
  | cons member members ih =>
    obtain ⟨key, source⟩ := member
    rw [readFields] at h
    split at h
    · cases h
    · rename_i next hnext
      obtain ⟨json, hjson, hset⟩ := readField_ok hnext
      obtain ⟨jsons, hjsons, hsets⟩ := ih h
      refine ⟨(key, json) :: jsons, ?_, ?_⟩
      · rw [Json.Source.membersToJson, hjson, hjsons]
      · simp only [lastValue?_cons]
        exact hset.trans hsets

/-- The items of a list that ends behind the third one. -/
theorem readListed_ok {items : List Json.Source} {fields : Fields}
    (h : readListed items = .ok fields) (hitems : items.length ≤ 3) :
    ∃ jsons, Json.Source.itemsToJson items = .ok jsons ∧
      Fields.none.Sets (Json.array jsons).setting? fields := by
  cases items with
  | nil =>
    cases h
    exact ⟨[], rfl, .kept, .kept, .kept⟩
  | cons first rest =>
    rw [readListed] at h
    split at h
    · cases h
    rename_i platform hplatform
    obtain ⟨json, hjson, his⟩ := readPlatform_ok hplatform
    cases rest with
    | nil =>
      cases h
      refine ⟨[json], ?_, .read his, .kept, .kept⟩
      rw [Json.Source.itemsToJson, hjson]
      rfl
    | cons second rest =>
      dsimp only at h
      split at h
      · cases h
      rename_i version hversion
      obtain ⟨json', hjson', his'⟩ := readVersion_ok hversion
      cases rest with
      | nil =>
        cases h
        refine ⟨[json, json'], ?_, .read his, .read his', .kept⟩
        rw [Json.Source.itemsToJson, hjson, Json.Source.itemsToJson, hjson']
        rfl
      | cons third rest =>
        obtain ⟨values, hvalues, rfl⟩ := map_eq_ok_iff.mp h
        obtain ⟨json'', hjson'', his''⟩ := readEnvironment_ok hvalues
        obtain rfl : rest = [] := by
          refine List.length_eq_zero_iff.mp ?_
          simp only [List.length_cons] at hitems
          omega
        refine ⟨[json, json', json''], ?_, .read his, .read his', .read his''⟩
        rw [Json.Source.itemsToJson, hjson, Json.Source.itemsToJson, hjson',
          Json.Source.itemsToJson, hjson'']
        rfl

/-- A list without a fault behind its items has at most three of them. -/
theorem listedFault?_eq_none {count : Nat} {close : Option Json.Fault}
    (h : listedFault? count close = none) : count ≤ 3 ∧ close = none := by
  unfold listedFault? at h
  split_ifs at h with hfew hmany
  · exact ⟨by omega, h⟩
  · split at h
    · cases h
    · cases h
    · exact ⟨by omega, h⟩

theorem ofSource_ok {source : Json.Source} {config : Config} (h : ofSource source = .ok config) :
    ∃ json fields, source.toJson = .ok json ∧ Fields.none.Sets json.setting? fields ∧
      config = fields.complete := by
  cases source with
  | object members close =>
    rw [ofSource] at h
    split at h
    · cases h
    · rename_i fields hfields
      obtain ⟨rfl, rfl⟩ := readClose_eq_ok_iff.mp h
      obtain ⟨jsons, hjsons, hsets⟩ := readFields_ok hfields
      refine ⟨.ofMembers jsons, fields, ?_, ?_, rfl⟩
      · rw [Json.Source.toJson, hjsons]
        rfl
      · have hfound : (Json.ofMembers jsons).setting? = fun name => lastValue? name jsons :=
          funext (Table.find?_ofList jsons)
        rw [hfound]
        exact hsets
  | array items close =>
    rw [ofSource] at h
    split at h
    · cases h
    · rename_i fields hfields
      obtain ⟨hclose, rfl⟩ := readClose_eq_ok_iff.mp h
      obtain ⟨hcount, rfl⟩ := listedFault?_eq_none hclose
      obtain ⟨jsons, hjsons, hsets⟩ := readListed_ok hfields hcount
      refine ⟨.array jsons, fields, ?_, hsets, rfl⟩
      rw [Json.Source.toJson, hjsons]
      rfl
  | _ => cases h

/-- **A configuration is what its document sets, over the standard.** -/
theorem parse_layers {text : List UInt8} {config : Config} (h : parse text = .ok config) :
    ∃ json fields, Json.parse text = .ok json ∧ Fields.none.Sets json.setting? fields ∧
      config = fields.complete := by
  rw [parse, ofDocument] at h
  split at h
  · cases h
  · rename_i result hresult
    obtain ⟨hrest, rfl⟩ := readClose_eq_ok_iff.mp h
    obtain ⟨json, fields, hjson, hsets, hconfig⟩ := ofSource_ok hresult
    refine ⟨json, fields, ?_, hsets, hconfig⟩
    rw [Json.parse, Json.Document.toJson, hjson, hrest]
    rfl

end Config

/-! ## The settings of a command -/

namespace CommandLine

/-- What the configuration file sets, if one is named. -/
inductive FileSets (files : Files) : Option String → Config.Fields → Prop
  | absent : FileSets files none .none
  | read {path : String} {text : List UInt8} {json : Json} {fields : Config.Fields}
      (hfile : files path = .ok text) (hjson : Json.parse text = .ok json)
      (hfields : Config.Fields.none.Sets json.setting? fields) : FileSets files (some path) fields

theorem exists_fileSets {files : Files} {path : Option String} {config : Config}
    (h : loadConfig files path = .ok config) :
    ∃ fields, FileSets files path fields ∧ config = fields.complete := by
  cases path with
  | none =>
    cases h
    exact ⟨.none, .absent, rfl⟩
  | some path =>
    rw [loadConfig] at h
    split at h
    · cases h
    · rename_i text hfile
      cases hparse : Config.parse text with
      | error e =>
        rw [hparse] at h
        cases h
      | ok given =>
        rw [hparse] at h
        cases h
        obtain ⟨json, fields, hjson, hfields, hconfig⟩ := Config.parse_layers hparse
        exact ⟨fields, .read hfile hjson hfields, hconfig⟩

/-- **Settings, layer over layer.** -/
structure Layered (options : Options) (fields : Config.Fields) (s : Settings) : Prop where
  decoder : s.decoder = (Registry.standard s.context.environment.platform).decoder
  platform : s.context.environment.platform = (options.platform.or fields.platform).getD .ios
  runtimeVersion : s.context.environment.runtimeVersion =
    (options.runtimeVersion.or fields.runtimeVersion).getD (.ofMinor 18 0)
  values : ∀ key, s.context.environment.value? key =
    ((lastValue? key options.environment).map .string).or
      (fields.environment.bind fun values => values.find? key)
  attributes : ∀ name, s.context.attribute? name =
    (lastValue? name options.attributes).map .string

theorem settings_layers (options : Options) (fields : Config.Fields) :
    Layered options fields (settings options fields.complete) := by
  obtain ⟨config, platform, version, attributes, environment⟩ := options
  obtain ⟨filePlatform, fileVersion, values⟩ := fields
  constructor
  · rfl
  · cases platform <;> rfl
  · cases version <;> rfl
  · intro key
    refine (Table.find?_insertAll Literal.string environment _ key).trans ?_
    cases values <;> rfl
  · intro name
    have helement (element : Element) :
        (attributes.foldl (fun element pair => element.set pair.1 (.string pair.2))
          element).attributes =
          attributes.foldl (fun table pair => table.insert pair.1 (.string pair.2))
            element.attributes := by
      induction attributes generalizing element with
      | nil => rfl
      | cons pair attributes ih => exact ih _
    have hvalue := Table.find?_insertAll Literal.string attributes .empty name
    rw [Table.find?_empty, Option.or_none] at hvalue
    rw [← hvalue]
    exact congrArg (Table.find? · name) (helement .empty)

end CommandLine

end DeferredStyle
