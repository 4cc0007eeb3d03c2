import DeferredStyle.Literal
import DeferredStyle.Platform
import DeferredStyle.Version

/-!
# What a resolution may read

* `Element` — a snapshot of one element's attributes.
* `Environment` — what all elements share: the running system and named values.
* `Context` — an attribute look-up together with an environment.
-/

set_option autoImplicit false

namespace DeferredStyle

/-- The attributes of one element. -/
structure Element where
  attributes : Table Literal

namespace Element

/-- The element without attributes. -/
def empty : Element := ⟨.empty⟩

/-- Give an attribute a value. -/
def set (element : Element) (name : String) (value : Literal) : Element :=
  ⟨element.attributes.insert name value⟩

/-- Take an attribute away. -/
def remove (element : Element) (name : String) : Element :=
  ⟨element.attributes.erase name⟩

/-- The value of an attribute. -/
def attribute? (element : Element) (name : String) : Option Literal :=
  element.attributes.find? name

end Element

/-- The running system and the values that all elements share. -/
structure Environment where
  platform : Platform
  runtimeVersion : Version
  values : Table Literal

namespace Environment

/-- An environment without values. -/
def ofRuntime (platform : Platform) (runtimeVersion : Version) : Environment :=
  ⟨platform, runtimeVersion, .empty⟩

/-- The environment that is assumed when nothing is said. -/
def standard : Environment :=
  ofRuntime .ios (.ofMinor 18 0)

/-- Give an environment value. -/
def set (environment : Environment) (key : String) (value : Literal) : Environment :=
  { environment with values := environment.values.insert key value }

/-- An environment value. -/
def value? (environment : Environment) (key : String) : Option Literal :=
  environment.values.find? key

/-- Whether the color scheme is the text `dark`. -/
def isDark (environment : Environment) : Bool :=
  (environment.value? "colorScheme").bind Literal.string? == some "dark"

end Environment

/-- Everything a resolution may read. -/
structure Context where
  attribute? : String → Option Literal
  environment : Environment

/-- An element in an environment. -/
def Context.ofElement (element : Element) (environment : Environment) : Context :=
  ⟨element.attribute?, environment⟩

end DeferredStyle
