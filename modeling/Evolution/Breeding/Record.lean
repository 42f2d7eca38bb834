import Evolution.Breeding.Options
import Evolution.Generation.Record

/-!
Settings of operators as JSON records. A field that is missing or null leaves its setting open.
-/

namespace Evolution

/-- Reads settings of an operator. A range is an array of its two bounds. -/
def BreedingOptions.ofJson? (json : Json) : Option BreedingOptions := do
  let f ← json.record?
    ["target_size_in_points", "instruction_names", "reference_names", "type_names", "proportions",
      "int_range", "float_range", "probability"]
  let names (field : String) : Option (Option (List String)) :=
    Json.optional? f field (Json.list? Json.text?)
  return {
    size := ← Json.optional? f "target_size_in_points" Json.nat?
    instructions := ← names "instruction_names"
    references := ← names "reference_names"
    types := ← names "type_names"
    proportions := ← Json.optional? f "proportions" Proportions.ofJson?
    intRange := ← Json.optional? f "int_range" (Json.pair? Json.int64?)
    floatRange := ← Json.optional? f "float_range" (Json.pair? Json.float?)
    probability := ← Json.optional? f "probability" Json.float? }

end Evolution
