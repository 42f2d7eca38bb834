import Evolution.Generation.Options
import Evolution.Json.Decode

/-!
Settings for random code as JSON records. A field that is missing has its default; none may be null.
-/

namespace Evolution

def Proportions.ofJson? (json : Json) : Option Proportions := do
  let f ← json.record? ["block", "instruction", "reference", "value"]
  let d : Proportions := {}
  return {
    block := ← Json.defaulted? f "block" d.block Json.float?
    instruction := ← Json.defaulted? f "instruction" d.instruction Json.float?
    reference := ← Json.defaulted? f "reference" d.reference Json.float?
    literal := ← Json.defaulted? f "value" d.literal Json.float? }

/-- Reads settings for random code. The bounds of a range have a field each. -/
def GenerationOptions.ofJson? (json : Json) : Option GenerationOptions := do
  let f ← json.record?
    ["target_size_in_points", "instruction_names", "reference_names", "type_names", "proportions",
      "int_min", "int_max", "float_min", "float_max", "bool_true_probability"]
  let d : GenerationOptions := {}
  let names (field : String) (value : List String) : Option (List String) :=
    Json.defaulted? f field value (Json.list? Json.text?)
  let intMin ← Json.defaulted? f "int_min" d.intRange.1 Json.int64?
  let intMax ← Json.defaulted? f "int_max" d.intRange.2 Json.int64?
  let floatMin ← Json.defaulted? f "float_min" d.floatRange.1 Json.float?
  let floatMax ← Json.defaulted? f "float_max" d.floatRange.2 Json.float?
  return {
    size := ← Json.defaulted? f "target_size_in_points" d.size Json.nat?
    instructions := ← names "instruction_names" d.instructions
    references := ← names "reference_names" d.references
    types := ← names "type_names" d.types
    proportions := ← Json.defaulted? f "proportions" d.proportions Proportions.ofJson?
    intRange := (intMin, intMax)
    floatRange := (floatMin, floatMax)
    trueChance := ← Json.defaulted? f "bool_true_probability" d.trueChance Json.float? }

end Evolution
