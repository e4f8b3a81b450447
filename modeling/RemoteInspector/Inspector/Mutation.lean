import RemoteInspector.Json.Record
/-!
Mutation records: one change to a document in terms of the node actors a client knows. A record never
carries forms, only names of actors.
-/
namespace RemoteInspector

inductive Mutation
  | attributes (target name : String) (space value : Option String)
  | characterData (target value : String) (incomplete : Bool)
  | childList (target : String) (added removed : List String) (numChildren : Nat)
  | frameLoad (target : String) (added removed : List String)
  | documentUnload (target : String)
  deriving DecidableEq, Repr

namespace Mutation

def target : Mutation → String
  | attributes target _ _ _ => target
  | characterData target _ _ => target
  | childList target _ _ _ => target
  | frameLoad target _ _ => target
  | documentUnload target => target

def toJson : Mutation → Json
  | attributes target name space value =>
    .object ([("type", .str "attributes"), ("target", .str target), ("attributeName", .str name)] ++
      (space.map fun s => ("attributeNamespace", Json.str s)).toList ++
      [("newValue", .optional (value.map .str))])
  | characterData target value incomplete =>
    .object ([("type", .str "characterData"), ("target", .str target), ("newValue", .str value)] ++
      if incomplete then [("incompleteValue", .bool true)] else [])
  | childList target added removed numChildren =>
    .object [("type", .str "childList"), ("target", .str target), ("added", .strings added),
      ("removed", .strings removed), ("numChildren", .nat numChildren)]
  | frameLoad target added removed =>
    .object [("type", .str "frameLoad"), ("target", .str target), ("added", .strings added),
      ("removed", .strings removed)]
  | documentUnload target => .object [("type", .str "documentUnload"), ("target", .str target)]

def names? : Json → Option (List String) := Json.listOf? Json.string?

def ofAttributes? (body : Json) : Option Mutation := do
  let r ← Record.ofJson? 4 body
  return .attributes (← r.required 0 "target" Json.string?) (← r.required 1 "attributeName" Json.string?)
    (← r.defaulted 2 "attributeNamespace" (Json.nullableOf? Json.string?) none)
    (← r.nullable 3 "newValue" Json.string?)

def ofCharacterData? (body : Json) : Option Mutation := do
  let r ← Record.ofJson? 3 body
  return .characterData (← r.required 0 "target" Json.string?) (← r.required 1 "newValue" Json.string?)
    (← r.defaulted 2 "incompleteValue" Json.bool? false)

def ofChildList? (body : Json) : Option Mutation := do
  let r ← Record.ofJson? 4 body
  return .childList (← r.required 0 "target" Json.string?) (← r.required 1 "added" names?)
    (← r.required 2 "removed" names?) (← r.required 3 "numChildren" Json.word64?)

def ofFrameLoad? (body : Json) : Option Mutation := do
  let r ← Record.ofJson? 3 body
  return .frameLoad (← r.required 0 "target" Json.string?) (← r.required 1 "added" names?)
    (← r.required 2 "removed" names?)

def ofDocumentUnload? (body : Json) : Option Mutation := do
  let r ← Record.ofJson? 1 body
  return .documentUnload (← r.required 0 "target" Json.string?)

def ofKind? (kind : String) (body : Json) : Option Mutation :=
  if kind = "attributes" then ofAttributes? body
  else if kind = "characterData" then ofCharacterData? body
  else if kind = "childList" then ofChildList? body
  else if kind = "frameLoad" then ofFrameLoad? body
  else if kind = "documentUnload" then ofDocumentUnload? body
  else none

def ofJson? : Json → Option Mutation
  | .obj fields => ((Fields.get? fields "type").bind Json.string?).bind fun kind => ofKind? kind (.obj fields)
  | .arr (.str kind :: rest) => ofKind? kind (.arr rest)
  | _ => none

end Mutation

end RemoteInspector
