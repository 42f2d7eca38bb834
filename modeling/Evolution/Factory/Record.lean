import Evolution.Factory
import Evolution.Json.Decode

/-!
Settings of machines and factories as JSON records. Fields that are missing have their defaults.
Settings that are passed through may be of any shape; they stand two levels inside their document.
-/

namespace Evolution

/-- Reads a destination. Without a machine it is the workstation's inbox. -/
def Destination.ofJson? (json : Json) : Option Destination := do
  let f ← json.record? ["workstation", "machine"]
  return ⟨← Json.required? f "workstation" Json.text?, ← Json.optional? f "machine" Json.text?⟩

/-- Reads an object as a table. A repeated name keeps its place and takes the last value. -/
def Json.table? {α : Type} (item? : Json → Option α) (json : Json) : Option (Table α) := do
  let entries ← (← json.members?).mapM fun (name, value) => do return (name, ← item? value)
  return .ofList entries

def Json.extras? : Json → Option (Table Json) := Json.table? (Json.any? 2)

def MachineOptions.ofJson? (json : Json) : Option MachineOptions := do
  let f ← json.record? ["paths", "extras"]
  return {
    paths := ← Json.defaulted? f "paths" .empty (Json.table? Destination.ofJson?)
    extras := ← Json.defaulted? f "extras" .empty Json.extras? }

def FactoryConfig.ofJson? (json : Json) : Option FactoryConfig := do
  let f ← json.record? ["name", "instruction_names", "type_names", "extras"]
  let d : FactoryConfig := {}
  let names (field : String) : Option (Option (List String)) :=
    Json.optional? f field (Json.list? Json.text?)
  return {
    name := ← Json.defaulted? f "name" d.name Json.text?
    instructions := ← names "instruction_names"
    types := ← names "type_names"
    extras := ← Json.defaulted? f "extras" .empty Json.extras? }

end Evolution
