import ApiScribe.Fault
import ApiScribe.Render.Functions
import ApiScribe.Render.Hooks
import ApiScribe.Render.Services

/-! Renderers by name. A renderer is a function from endpoints to planned files; renderers that
plan the same files share a slot. A registry maps the names that users write to renderers. -/
namespace ApiScribe

/-- A renderer. -/
structure Renderer where
  id : String
  slot : Option String := none
  /-- Whether it only holds the place of the first real renderer. -/
  isPlaceholder : Bool := false
  render : Api → RenderOutput

namespace Renderer

/-- The renderer that plans nothing. -/
def noop : Renderer := { id := "noop", isPlaceholder := true, render := fun _ => {} }

/-- A renderer with one output for all inputs. -/
def fixed (id : String) (output : RenderOutput) : Renderer := { id, render := fun _ => output }

/-- The slot of service classes. -/
def serviceSlot : String := "service-classes"

/-- The renderers that come with the tool. -/
def builtins : List Renderer :=
  [{ id := "functions", render := Render.functions },
   { id := "react-query", render := Render.hooks Render.reactHooks },
   { id := "vue-query", render := Render.hooks Render.vueHooks },
   { id := "axios-ts", slot := some serviceSlot, render := Render.services .positional },
   { id := "axios-js", render := Render.script },
   { id := "uniapp", slot := some serviceSlot, render := Render.services .compact }]

end Renderer

/-- Renderers by the names that users write. -/
structure Registry where
  entries : Entries String Renderer := []

namespace Registry

/-- Gives a name to a renderer, in place of any that had it. -/
def register (r : Registry) (id : String) (renderer : Renderer) : Registry :=
  ⟨r.entries.put id renderer⟩

/-- The renderers that come with the tool, each under its own name. -/
def builtin : Registry := Renderer.builtins.foldl (fun r x => r.register x.id x) {}

/-- The names in sorted order. -/
def ids (r : Registry) : List String := r.entries.keys.mergeSort fun a b => decide (a ≤ b)

/-- Whether a name is known. -/
def contains (r : Registry) (id : String) : Bool := r.entries.has id

/-- The renderer with a name. -/
def create (r : Registry) (id : String) : Outcome Renderer :=
  match r.entries.get? id with
  | some x => .ok x
  | none => .fail (.unknownRenderer id r.ids)

/-- A renderer that another package offers under a name, or why it cannot be loaded. -/
structure Offer where
  name : String
  renderer : Except String Renderer

/-- The warning for an offer that cannot be loaded. -/
def Offer.warning (name reason : String) : String :=
  "Failed to load renderer '" ++ name ++ "': " ++ reason

/-- Registers what other packages offer; returns the names registered and warnings for the
offers that cannot be loaded. -/
def discover (r : Registry) : List Offer → Registry × List String × List String
  | [] => (r, [], [])
  | o :: os =>
    match o.renderer with
    | .ok x =>
      let (r, loaded, warnings) := discover (r.register o.name x) os
      (r, o.name :: loaded, warnings)
    | .error reason =>
      let (r, loaded, warnings) := discover r os
      (r, loaded, Offer.warning o.name reason :: warnings)

end Registry
end ApiScribe
