import DeferredStyle.Context

/-!
# Availability

Where a shape exists at all, which is decided once when a catalog is registered, and from which
system version on it works, which is decided at every resolution.

* `Availability.introducedIn` — the last version given for a platform counts.
* `RuntimeGate.check` — a platform without an entry has no least version.
-/

set_option autoImplicit false

namespace DeferredStyle

/-- Least system versions, at most one per platform. -/
structure RuntimeGate where
  introduced : List (Platform × Version)
  deriving DecidableEq

namespace RuntimeGate

/-- The version of the first entry for `platform`. -/
def requiredIn (platform : Platform) : List (Platform × Version) → Option Version
  | [] => none
  | (p, version) :: rest => if p = platform then some version else requiredIn platform rest

/-- The least version on a platform, if there is one. -/
def required? (gate : RuntimeGate) (platform : Platform) : Option Version :=
  requiredIn platform gate.introduced

/-- Whether the running system is recent enough; the error is the version it would need. -/
def check (gate : RuntimeGate) (environment : Environment) : Except Version Unit :=
  match gate.required? environment.platform with
  | none => .ok ()
  | some required =>
    if environment.runtimeVersion < required then .error required else .ok ()

end RuntimeGate

/-- Where and since when a shape is available. -/
structure Availability where
  /-- The platforms it exists on; nothing means every platform. -/
  platforms : Option (List Platform)
  introduced : List (Platform × Version)

namespace Availability

/-- On every platform and version. -/
def everywhere : Availability := ⟨none, []⟩

/-- On every version of some platforms. -/
def only (platforms : List Platform) : Availability := ⟨some platforms, []⟩

/-- From `version` on when running on `platform`, in place of any version given before. -/
def introducedIn (a : Availability) (platform : Platform) (version : Version) : Availability :=
  { a with introduced :=
      a.introduced.filter (fun (p, _) => p ≠ platform) ++ [(platform, version)] }

/-- Whether it exists on a platform. -/
def isAvailableOn (a : Availability) (platform : Platform) : Bool :=
  match a.platforms with
  | none => true
  | some platforms => platforms.contains platform

/-- The least versions, if there are any. -/
def runtimeGate (a : Availability) : Option RuntimeGate :=
  if a.introduced.isEmpty then none else some ⟨a.introduced⟩

end Availability

end DeferredStyle
