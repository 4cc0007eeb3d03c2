import DeferredStyle.Resolvable.Basic

/-!
# Events of a resolution

What is reported while a value is resolved, in order: the use of a fallback, then what its children
report, then what its builder reports.
-/

set_option autoImplicit false

namespace DeferredStyle

/-- What is reported while an attribute is resolved. -/
def AttributeBinding.events (binding : AttributeBinding) (context : Context) : List Event :=
  match binding.decode context, binding.default with
  | .error reason, some _ => [.usedDefault binding.name reason]
  | _, _ => []

/-- What is reported while a builder is chosen. -/
def selectionEvents (shape : String) (fallback : Option Builder) (gate : Option RuntimeGate)
    (environment : Environment) : List Event :=
  match gate, fallback with
  | some gate, some _ =>
    match gate.check environment with
    | .ok _ => []
    | .error required =>
      [.usedFallback shape environment.platform required environment.runtimeVersion]
  | _, _ => []

namespace Resolvable

mutual

/-- What is reported while a value is resolved. -/
def events (context : Context) : Resolvable → List Event
  | .constant _ => []
  | .bound binding => binding.events context
  | .deferred ⟨shape, builder, fallback, gate, children⟩ =>
    selectionEvents shape fallback gate context.environment ++
      match selectBuilder shape builder fallback gate context.environment with
      | .error _ => []
      | .ok builder =>
        eventsEach context children ++
          builder.events ⟨shape, resolveEach context children, some context.environment⟩

/-- What is reported while several values are resolved one after the other. -/
def eventsEach (context : Context) : List Resolvable → List Event
  | [] => []
  | child :: children => child.events context ++ eventsEach context children

end

end Resolvable

end DeferredStyle
