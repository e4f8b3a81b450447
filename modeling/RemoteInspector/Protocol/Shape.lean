import RemoteInspector.Json.Basic
/-!
The shapes of values in requests and replies. An actor is sent as its form in a reply and as its
name in a request.
-/
namespace RemoteInspector

inductive Shape
  | primitive
  | boolean
  | number
  | string
  | json
  | nullable (inner : Shape)
  | array (inner : Shape)
  | dict (name : String) (fields : List (String × Shape))
  | actor (typeName : String)
  deriving Repr

namespace Shape

def name : Shape → String
  | primitive => "primitive"
  | boolean => "boolean"
  | number => "number"
  | string => "string"
  | json => "json"
  | nullable inner => "nullable:" ++ inner.name
  | array inner => "array:" ++ inner.name
  | dict name _ => name
  | actor typeName => typeName

def accepts : Shape → Json → Bool
  | primitive, .obj _ | primitive, .arr _ => false
  | primitive, _ => true
  | boolean, .bool _ => true
  | boolean, _ => false
  | number, .num _ => true
  | number, _ => false
  | string, .str _ => true
  | string, _ => false
  | json, _ => true
  | nullable inner, j => j.isNull || inner.accepts j
  | array inner, .arr items => items.all inner.accepts
  | array _, _ => false
  | dict _ _, j => j.isObject
  | actor _, .str _ => true
  | actor _, _ => false

/-- A value as it travels in a request: forms of actors become their names. -/
def write : Shape → Json → Json
  | actor _, .obj fields => (Fields.get? fields "actor").getD .null
  | nullable _, .null => .null
  | nullable inner, j => inner.write j
  | array inner, .arr items => .arr (items.map inner.write)
  | _, j => j

mutual

/-- The actor forms in a value of a reply, in document order, each with its type. -/
def forms : Shape → Json → List (String × Json)
  | actor typeName, .obj fields => [(typeName, .obj fields)]
  | nullable inner, j => inner.forms j
  | array inner, .arr items => items.flatMap inner.forms
  | dict _ fields, j => fieldForms fields j
  | _, _ => []

def fieldForms : List (String × Shape) → Json → List (String × Json)
  | [], _ => []
  | (key, shape) :: rest, j => (j.get? key).elim [] shape.forms ++ fieldForms rest j

end

end Shape

end RemoteInspector
