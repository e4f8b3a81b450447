import RemoteInspector.Json.Record
import RemoteInspector.Text.Blank
/-!
The nodes of a document as an inspector sees them, and the filter of a tree walk.
-/
namespace RemoteInspector

abbrev NodeId := Nat

abbrev NodeKind := Nat

namespace NodeKind

def element : NodeKind := 1
def text : NodeKind := 3
def instruction : NodeKind := 7
def comment : NodeKind := 8
def document : NodeKind := 9

end NodeKind

/-- Which node kinds a walk shows: kind `k` by bit `k - 1`, kinds 1 to 32 only. -/
structure Filter where
  mask : Nat
  deriving DecidableEq, Repr

namespace Filter

def all : Filter := ⟨0xffffffff⟩

def ofBits (bits : Nat) : Filter := ⟨bits % UInt32.size⟩

def shows (f : Filter) (kind : NodeKind) : Bool :=
  kind != 0 && kind ≤ 32 && f.mask.testBit (kind - 1)

end Filter

structure Attribute where
  space : Option String
  name : String
  value : String
  deriving DecidableEq, Repr

namespace Attribute

def toJson (a : Attribute) : Json :=
  .object [("namespace", .optional (a.space.map .str)), ("name", .str a.name), ("value", .str a.value)]

def ofJson? (j : Json) : Option Attribute := do
  let r ← Record.ofJson? 3 j
  return {
    space := ← r.nullable 0 "namespace" Json.string?
    name := ← r.required 1 "name" Json.string?
    value := ← r.required 2 "value" Json.string? }

end Attribute

structure Doctype where
  name : String
  publicId : String
  systemId : String
  deriving DecidableEq, Repr

namespace Doctype

def toJson (t : Doctype) : Json :=
  .object [("name", .str t.name), ("publicId", .str t.publicId), ("systemId", .str t.systemId)]

def ofJson? (j : Json) : Option Doctype := do
  let r ← Record.ofJson? 3 j
  return {
    name := ← r.required 0 "name" Json.string?
    publicId := ← r.required 1 "publicId" Json.string?
    systemId := ← r.required 2 "systemId" Json.string? }

end Doctype

/-- The properties of one node; `numChildren` counts all children, shown or not. -/
structure NodeInfo where
  kind : NodeKind
  name : String
  space : Option String
  value : Option String
  numChildren : Nat
  attrs : List Attribute
  doctype : Option Doctype
  deriving DecidableEq, Repr

namespace NodeInfo

/-- Text that holds nothing but white space; empty text does so too. -/
def isBlankText (info : NodeInfo) : Bool :=
  info.kind == NodeKind.text && info.value.elim false Text.allBlank

def isDocument (info : NodeInfo) : Bool := info.kind == NodeKind.document

end NodeInfo

def NodeId.label (node : NodeId) : String := "node" ++ toString node

end RemoteInspector
