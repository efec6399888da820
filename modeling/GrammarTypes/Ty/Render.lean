import GrammarTypes.Text.Literal
import GrammarTypes.Ty.Basic

/-!
# The text of a type

`Ty.render` writes a type as it stands in the emitted declarations. Members of a union are joined
by bars without spaces, and only a `group` brings parentheses.
-/

namespace GrammarTypes

/-- The keyword of a marker. -/
def Marker.render : Marker → String
  | .never => "never"
  | .null => "null"
  | .undefined => "undefined"
  | .void => "void"

namespace Ty

mutual

/-- The text of a type. -/
def render : Ty → String
  | .text => "string"
  | .unknown => "unknown"
  | .literal value => Text.literal value
  | .union ts => "|".intercalate (renderAll ts)
  | .group t => "(" ++ render t ++ ")"
  | .array t => "Array<" ++ render t ++ ">"
  | .marker m => m.render
  | .ruleRef name => name
  | .returnOf helper => "ReturnType<typeof " ++ helper ++ ">"

/-- The texts of the types of a list. -/
def renderAll : List Ty → List String
  | [] => []
  | t :: ts => render t :: renderAll ts

end

/-- The texts of a list of types are those of its types, one by one. -/
theorem renderAll_eq_map (ts : List Ty) : renderAll ts = ts.map render := by
  induction ts with
  | nil => rfl
  | cons t ts ih => rw [renderAll, ih, List.map_cons]

end Ty

end GrammarTypes
