import DeferredStyle.Availability
import Mathlib.Data.List.Induction
import Mathlib.Data.List.Perm.Basic
import Mathlib.Data.Prod.Lex

/-!
# Runs of introductions

An availability is made by saying, as often as one likes, since which version a shape works on a
platform.  What counts afterwards is the last that was said for each platform, in whatever order
the platforms were spoken of.

* `Version.numbers` — a version as a triple in lexicographic order.
* `Availability.introduceAll` — a run of introductions; `requiredIn_introduceAll` — the version it
  leaves for a platform.
* `LastFor`, `ReorderedAcross` — the last version of a platform, and runs that differ in the order
  of platforms only.
* `gate_of_introductions` — the gate that any run leaves.
-/

set_option autoImplicit false

namespace DeferredStyle

/-! ## The order of versions -/

/-- The components of a version, of which the first that differs decides. -/
def Version.numbers (v : Version) : ℕ ×ₗ ℕ ×ₗ ℕ :=
  toLex (v.major.toNat, toLex (v.minor.toNat, v.patch.toNat))

theorem Version.lt_iff_numbers {v w : Version} : v < w ↔ v.numbers < w.numbers := by
  change Version.before v w ↔ _
  simp only [before, numbers, Prod.Lex.toLex_lt_toLex, UInt32.lt_iff_toNat_lt,
    ← UInt32.toNat_inj]

/-- A gate refuses a system for the version it requires, if the system is older. -/
theorem RuntimeGate.check_eq_error_iff {gate : RuntimeGate} {environment : Environment}
    {required : Version} :
    gate.check environment = .error required ↔
      gate.required? environment.platform = some required ∧
        environment.runtimeVersion.numbers < required.numbers := by
  unfold check
  cases hrequired : gate.required? environment.platform with
  | none => simp
  | some version =>
    rw [Option.some.injEq, ← Version.lt_iff_numbers]
    by_cases hold : environment.runtimeVersion < version
    · simp only [if_pos hold, Except.error.injEq]
      exact ⟨fun h => ⟨h, h ▸ hold⟩, And.left⟩
    · simp only [if_neg hold, reduceCtorEq, false_iff]
      rintro ⟨rfl, h⟩
      exact hold h

/-- A gate that lets a system pass lets newer versions of it pass. -/
theorem RuntimeGate.check_of_atLeast {gate : RuntimeGate} {platform : Platform}
    {version version' : Version} {values : Table Literal} (hle : version.numbers ≤ version'.numbers)
    (h : gate.check ⟨platform, version, values⟩ = .ok ()) :
    gate.check ⟨platform, version', values⟩ = .ok () := by
  cases hcheck : gate.check ⟨platform, version', values⟩ with
  | ok _ => rfl
  | error required =>
    obtain ⟨hrequired, hold⟩ := check_eq_error_iff.mp hcheck
    have herror : gate.check ⟨platform, version, values⟩ = .error required :=
      check_eq_error_iff.mpr ⟨hrequired, lt_of_le_of_lt hle hold⟩
    rw [h] at herror
    cases herror

/-! ## Introductions -/

/-- The availability after introductions, in order. -/
def Availability.introduceAll (a : Availability) (calls : List (Platform × Version)) :
    Availability :=
  calls.foldl (fun a call => a.introducedIn call.1 call.2) a

/-- The last of some introductions for a platform gives this version. -/
def LastFor (platform : Platform) (calls : List (Platform × Version)) (version : Version) : Prop :=
  ∃ before after, calls = before ++ (platform, version) :: after ∧
    ∀ call ∈ after, call.1 ≠ platform

/-- The same introductions in another order, in which those for any single platform stand in the
same order. -/
structure ReorderedAcross (calls calls' : List (Platform × Version)) : Prop where
  perm : calls.Perm calls'
  order : ∀ platform,
    calls.filter (fun call => call.1 = platform) = calls'.filter (fun call => call.1 = platform)

/-- The version of the last introduction for a platform. -/
def lastFor? (platform : Platform) (calls : List (Platform × Version)) : Option Version :=
  (calls.filter fun call => call.1 = platform).getLast?.map Prod.snd

theorem lastFor?_concat (platform : Platform) (calls : List (Platform × Version))
    (call : Platform × Version) :
    lastFor? platform (calls ++ [call]) =
      if call.1 = platform then some call.2 else lastFor? platform calls := by
  by_cases h : call.1 = platform <;> simp [lastFor?, h]

theorem lastFor?_eq_some_iff {platform : Platform} {calls : List (Platform × Version)}
    {version : Version} :
    lastFor? platform calls = some version ↔ LastFor platform calls version := by
  constructor
  · intro h
    obtain ⟨⟨own, given⟩, hlast, rfl⟩ := Option.map_eq_some_iff.mp h
    obtain ⟨earlier, hfilter⟩ := List.getLast?_eq_some_iff.mp hlast
    obtain ⟨front, back, rfl, -, hback⟩ := List.filter_eq_append_iff.mp hfilter
    obtain ⟨skipped, after, rfl, -, hown, hafter⟩ := List.filter_eq_cons_iff.mp hback
    obtain rfl : own = platform := by simpa using hown
    refine ⟨front ++ skipped, after, by simp, fun call hcall => ?_⟩
    simpa using List.filter_eq_nil_iff.mp hafter call hcall
  · rintro ⟨before, after, rfl, hafter⟩
    have hnone : after.filter (fun call => call.1 = platform) = [] :=
      List.filter_eq_nil_iff.mpr fun call hcall => by simpa using hafter call hcall
    simp [lastFor?, List.filter_append, hnone]

theorem lastFor?_eq_none_iff {platform : Platform} {calls : List (Platform × Version)} :
    lastFor? platform calls = none ↔ ∀ call ∈ calls, call.1 ≠ platform := by
  simp [lastFor?]

/-! ## What a run leaves -/

section Runs

variable (a : Availability) (platform : Platform) (version : Version)
  (calls : List (Platform × Version))

theorem introduceAll_concat (call : Platform × Version) :
    a.introduceAll (calls ++ [call]) = (a.introduceAll calls).introducedIn call.1 call.2 :=
  List.foldl_concat _ _ _ _

/-- An introduction is seen for its platform and for no other. -/
theorem requiredIn_introducedIn (own : Platform) :
    RuntimeGate.requiredIn platform (a.introducedIn own version).introduced =
      if own = platform then some version
      else RuntimeGate.requiredIn platform a.introduced := by
  unfold Availability.introducedIn
  induction a.introduced with
  | nil => simp [RuntimeGate.requiredIn]
  | cons entry entries ih => grind [RuntimeGate.requiredIn]

/-- An introduction takes the place of the one before for its platform. -/
theorem nodup_introducedIn {a : Availability} (h : (a.introduced.map Prod.fst).Nodup) :
    ((a.introducedIn platform version).introduced.map Prod.fst).Nodup := by
  have hkept : ((a.introduced.filter fun entry => entry.1 ≠ platform).map Prod.fst).Nodup :=
    h.sublist (List.filter_sublist.map Prod.fst)
  unfold Availability.introducedIn
  rw [List.map_append]
  refine List.nodup_append.mpr ⟨hkept, List.pairwise_singleton _ _, fun own hown other hother => ?_⟩
  obtain ⟨entry, hentry, rfl⟩ := List.mem_map.mp hown
  rw [List.mem_singleton.mp hother]
  simpa using (List.mem_filter.mp hentry).2

/-- A run keeps one entry for each platform. -/
theorem nodup_introduceAll {a : Availability} (h : (a.introduced.map Prod.fst).Nodup) :
    ((a.introduceAll calls).introduced.map Prod.fst).Nodup := by
  induction calls using List.reverseRecOn with
  | nil => exact h
  | append_singleton calls call ih =>
    rw [introduceAll_concat]
    exact nodup_introducedIn _ _ ih

/-- A run leaves the last version of each platform. -/
theorem requiredIn_introduceAll :
    RuntimeGate.requiredIn platform (a.introduceAll calls).introduced =
      (lastFor? platform calls).or (RuntimeGate.requiredIn platform a.introduced) := by
  induction calls using List.reverseRecOn with
  | nil => rfl
  | append_singleton calls call ih =>
    rw [introduceAll_concat, requiredIn_introducedIn, lastFor?_concat, ih]
    split <;> rfl

/-- Introductions say nothing about where a shape exists. -/
theorem platforms_introduceAll : (a.introduceAll calls).platforms = a.platforms := by
  induction calls using List.reverseRecOn with
  | nil => rfl
  | append_singleton calls call ih =>
    rw [introduceAll_concat]
    exact ih

/-- There is something to require as soon as anything was introduced. -/
theorem introduced_introduceAll_eq_nil_iff :
    (a.introduceAll calls).introduced = [] ↔ calls = [] ∧ a.introduced = [] := by
  rcases List.eq_nil_or_concat calls with rfl | ⟨init, last, rfl⟩
  · simp [Availability.introduceAll]
  · simp [introduceAll_concat, Availability.introducedIn]

end Runs

/-! ## The gate -/

/-- The gate requires of each platform the last version that was introduced for it, and refuses
exactly the systems below. -/
structure RuntimeGate.Enforces (gate : RuntimeGate) (calls : List (Platform × Version)) :
    Prop where
  last : ∀ platform version,
    gate.required? platform = some version ↔ LastFor platform calls version
  free : ∀ platform, gate.required? platform = none ↔ ∀ call ∈ calls, call.1 ≠ platform
  refuses : ∀ environment required, gate.check environment = .error required ↔
    gate.required? environment.platform = some required ∧
      environment.runtimeVersion.numbers < required.numbers
  newer : ∀ platform version version' values, version.numbers ≤ version'.numbers →
    gate.check ⟨platform, version, values⟩ = .ok () →
    gate.check ⟨platform, version', values⟩ = .ok ()

section Gate

variable {start : Availability} {calls calls' : List (Platform × Version)} {gate : RuntimeGate}

theorem runtimeGate_eq_none_iff (hstart : start.introduced = []) :
    (start.introduceAll calls).runtimeGate = none ↔ calls = [] := by
  have hnil := introduced_introduceAll_eq_nil_iff start calls
  rw [hstart, and_iff_left rfl] at hnil
  rw [← hnil]
  simp [Availability.runtimeGate]

theorem required?_of_runtimeGate (hstart : start.introduced = [])
    (hgate : (start.introduceAll calls).runtimeGate = some gate) (platform : Platform) :
    gate.required? platform = lastFor? platform calls := by
  unfold Availability.runtimeGate at hgate
  split at hgate
  · cases hgate
  · cases hgate
    rw [RuntimeGate.required?, requiredIn_introduceAll, hstart]
    exact Option.or_none

theorem enforces_of_runtimeGate (hstart : start.introduced = [])
    (hgate : (start.introduceAll calls).runtimeGate = some gate) : gate.Enforces calls where
  last platform version := by rw [required?_of_runtimeGate hstart hgate, lastFor?_eq_some_iff]
  free platform := by rw [required?_of_runtimeGate hstart hgate, lastFor?_eq_none_iff]
  refuses _ _ := RuntimeGate.check_eq_error_iff
  newer _ _ _ _ hle hcheck := RuntimeGate.check_of_atLeast hle hcheck

theorem lastFor?_of_reordered (h : ReorderedAcross calls calls') (platform : Platform) :
    lastFor? platform calls = lastFor? platform calls' := by
  rw [lastFor?, h.order platform]
  rfl

/-- A gate decides by what it requires. -/
theorem check_congr {gate' : RuntimeGate}
    (h : ∀ platform, gate.required? platform = gate'.required? platform)
    (environment : Environment) : gate.check environment = gate'.check environment := by
  rw [RuntimeGate.check, RuntimeGate.check, h]

/-- Introductions for different platforms may change places. -/
theorem exists_gate_of_reordered (hstart : start.introduced = []) (h : ReorderedAcross calls calls')
    (hgate : (start.introduceAll calls).runtimeGate = some gate) :
    ∃ gate', (start.introduceAll calls').runtimeGate = some gate' ∧
      (∀ platform, gate.required? platform = gate'.required? platform) ∧
      ∀ environment, gate.check environment = gate'.check environment := by
  have hsome : (start.introduceAll calls').runtimeGate ≠ none := fun hnone => by
    have hcalls' := (runtimeGate_eq_none_iff hstart).mp hnone
    have hcalls := (runtimeGate_eq_none_iff hstart).mpr (hcalls' ▸ h.perm).eq_nil
    rw [hgate] at hcalls
    cases hcalls
  obtain ⟨gate', hgate'⟩ := Option.ne_none_iff_exists'.mp hsome
  have hrequired : ∀ platform, gate.required? platform = gate'.required? platform :=
    fun platform => by
      rw [required?_of_runtimeGate hstart hgate, required?_of_runtimeGate hstart hgate',
        lastFor?_of_reordered h]
  exact ⟨gate', hgate', hrequired, check_congr hrequired⟩

end Gate

/-- **The last introduction for each platform counts.**  Whatever is introduced for a shape that
exists everywhere or on some platforms only: one entry is kept for each platform, there is a gate as
soon as anything was introduced, the shape exists where it did, the gate enforces the last versions,
and introductions for different platforms may change places. -/
theorem gate_of_introductions (start : Availability)
    (hstart : start = .everywhere ∨ ∃ platforms, start = .only platforms)
    (calls : List (Platform × Version)) :
    ((start.introduceAll calls).introduced.map Prod.fst).Nodup ∧
    ((start.introduceAll calls).runtimeGate = none ↔ calls = []) ∧
    (∀ platform,
      (start.introduceAll calls).isAvailableOn platform = start.isAvailableOn platform) ∧
    (∀ gate, (start.introduceAll calls).runtimeGate = some gate → gate.Enforces calls) ∧
    ∀ calls', ReorderedAcross calls calls' →
      ∀ gate, (start.introduceAll calls).runtimeGate = some gate →
        ∃ gate', (start.introduceAll calls').runtimeGate = some gate' ∧
          (∀ platform, gate.required? platform = gate'.required? platform) ∧
          ∀ environment, gate.check environment = gate'.check environment := by
  have hnil : start.introduced = [] := by
    rcases hstart with rfl | ⟨platforms, rfl⟩ <;> rfl
  refine ⟨?_, runtimeGate_eq_none_iff hnil, ?_, ?_, ?_⟩
  · refine nodup_introduceAll calls ?_
    rw [hnil]
    exact List.nodup_nil
  · intro platform
    rw [Availability.isAvailableOn, platforms_introduceAll]
    rfl
  · intro gate hgate
    exact enforces_of_runtimeGate hnil hgate
  · intro calls' hreordered gate hgate
    exact exists_gate_of_reordered hnil hreordered hgate

/-- A version that is taken back, with another platform spoken of in between or before. -/
theorem gate_of_introductions_ios :
    let start := Availability.only [.ios, .macos]
    let calls := [(Platform.ios, Version.mk 16 1 0), (.macos, .mk 13 0 0), (.ios, .mk 15 4 2)]
    let calls' := [(Platform.macos, Version.mk 13 0 0), (.ios, .mk 16 1 0), (.ios, .mk 15 4 2)]
    let gate : RuntimeGate := ⟨[(.macos, .mk 13 0 0), (.ios, .mk 15 4 2)]⟩
    (start.introduceAll calls).runtimeGate = some gate ∧ gate.Enforces calls ∧
      ReorderedAcross calls calls' ∧
      ∃ gate', (start.introduceAll calls').runtimeGate = some gate' ∧
        ∀ environment, gate.check environment = gate'.check environment := by
  intro start calls calls' gate
  have hlaws := gate_of_introductions start (.inr ⟨_, rfl⟩) calls
  have hgate : (start.introduceAll calls).runtimeGate = some gate := by decide
  have hreordered : ReorderedAcross calls calls' :=
    ⟨by decide, fun platform => by cases platform <;> decide⟩
  obtain ⟨gate', hgate', -, hcheck⟩ := hlaws.2.2.2.2 calls' hreordered gate hgate
  exact ⟨hgate, hlaws.2.2.2.1 gate hgate, hreordered, gate', hgate', hcheck⟩

end DeferredStyle
