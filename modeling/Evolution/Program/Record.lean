import Evolution.Json.Decode
import Evolution.Program.Basic

/-!
Programs in JSON: a program is the string of its blueprint. A footnote is a record of its two parts.
-/

namespace Evolution

def Program.toJson (p : Program) : Json := .text p.blueprint

def Program.ofJson? (json : Json) : Option Program := do
  match Program.parse (← json.text?) with
  | .ok p => some p
  | .error _ => none

/-- Reads a record of a tag and a text; neither is checked. -/
def Footnote.ofJson? (json : Json) : Option Footnote := do
  let fields ← json.record? ["type_name", "value"]
  let tag ← Json.required? fields "type_name" Json.text?
  return ⟨tag, ← Json.required? fields "value" Json.text?⟩

end Evolution
