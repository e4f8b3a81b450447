import RemoteInspector.Dom.Node
/-!
The form in which a node actor is sent: its own name, that of the parent's actor, and a summary.
-/
namespace RemoteInspector

structure NodeForm where
  actor : String
  parent : Option String := none
  kind : NodeKind := 0
  space : Option String := none
  name : String := ""
  numChildren : Nat := 0
  doctypeName : Option String := none
  publicId : Option String := none
  systemId : Option String := none
  attrs : List Attribute := []
  shortValue : Option String := none
  incomplete : Bool := false
  deriving DecidableEq, Repr

/-- The value cut to a summary of `limit` characters, and whether anything was cut. -/
def summarize (limit : Nat) (value : String) : String × Bool :=
  if limit < value.length then (Text.take limit value, true) else (value, false)

namespace NodeForm

/-- The form of a node; one that its host no longer knows has an empty form. -/
def ofInfo (limit : Nat) (actor : String) (parent : Option String) : Option NodeInfo → NodeForm
  | none => { actor := actor, parent := parent }
  | some info =>
    let summary := (info.value.filter (· ≠ "")).map (summarize limit)
    { actor := actor
      parent := parent
      kind := info.kind
      space := info.space
      name := info.name
      numChildren := info.numChildren
      doctypeName := info.doctype.map (·.name)
      publicId := info.doctype.map (·.publicId)
      systemId := info.doctype.map (·.systemId)
      attrs := if info.kind = NodeKind.element then info.attrs else []
      shortValue := summary.map Prod.fst
      incomplete := (summary.map Prod.snd).getD false }

def present (key : String) (value : Option String) : List (String × Json) :=
  (value.map fun s => (key, Json.str s)).toList

def toJson (f : NodeForm) : Json :=
  .object ([("actor", .str f.actor), ("nodeType", .nat f.kind),
      ("namespaceURI", .optional (f.space.map .str)), ("nodeName", .str f.name),
      ("numChildren", .nat f.numChildren)] ++
    present "parent" f.parent ++ present "name" f.doctypeName ++ present "publicId" f.publicId ++
    present "systemId" f.systemId ++ present "shortValue" f.shortValue ++
    (if f.kind = NodeKind.element then [("attrs", .arr (f.attrs.map Attribute.toJson))] else []) ++
    if f.incomplete then [("incompleteValue", .bool true)] else [])

def text? : Json → Option (Option String) := Json.nullableOf? Json.string?

/-- Everything but the actor may be left out. -/
def ofJson? (j : Json) : Option NodeForm := do
  let r ← Record.ofJson? 12 j
  return {
    actor := ← r.required 0 "actor" Json.string?
    parent := ← r.defaulted 1 "parent" text? none
    kind := ← r.defaulted 2 "nodeType" Json.word16? 0
    space := ← r.defaulted 3 "namespaceURI" text? none
    name := ← r.defaulted 4 "nodeName" Json.string? ""
    numChildren := ← r.defaulted 5 "numChildren" Json.word64? 0
    doctypeName := ← r.defaulted 6 "name" text? none
    publicId := ← r.defaulted 7 "publicId" text? none
    systemId := ← r.defaulted 8 "systemId" text? none
    attrs := ← r.defaulted 9 "attrs" (Json.listOf? Attribute.ofJson?) []
    shortValue := ← r.defaulted 10 "shortValue" text? none
    incomplete := ← r.defaulted 11 "incompleteValue" Json.bool? false }

end NodeForm

end RemoteInspector
