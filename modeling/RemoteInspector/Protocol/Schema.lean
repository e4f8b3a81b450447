import RemoteInspector.Protocol.Refusal
/-!
Descriptions of the methods of an actor type, for the server and for the client.
-/
namespace RemoteInspector

structure Parameter where
  name : String
  shape : Shape
  optional : Bool

structure Method where
  name : String
  request : List Parameter := []
  response : List (String × Shape) := []
  /-- The actor is released once its reply is out. -/
  release : Bool := false

structure Schema where
  typeName : String
  methods : List Method

namespace Parameter

def check (p : Parameter) (packet : Fields) : Except Refusal Unit :=
  match packet.get? p.name with
  | none | some .null => if p.optional then .ok () else .error (.missingParameter p.name)
  | some j => if p.shape.accepts j then .ok () else .error (.wrongShape p.name p.shape.name)

end Parameter

namespace Method

/-- The first wrong parameter, in the order of the description, decides. -/
def check (m : Method) (packet : Fields) : Except Refusal Unit :=
  m.request.forM fun p => p.check packet

/-- The request packet for arguments of a client, which may give actors as forms. -/
def write (m : Method) (target : String) (arguments : Fields) : Except Refusal Fields := do
  match arguments.find? fun (key, _) => !m.request.any (·.name = key) with
  | some (key, _) => .error (.unknownParameter m.name key)
  | none =>
    let head := Fields.ofList [("to", .str target), ("type", .str m.name)]
    let packet := m.request.foldl (fun packet p =>
      match arguments.get? p.name with
      | some j => packet.insert p.name (p.shape.write j)
      | none => packet) head
    m.check packet
    return packet

def replyForms (m : Method) (reply : Json) : List (String × Json) := Shape.fieldForms m.response reply

def requestDescription (m : Method) : Json :=
  .object (("type", .str m.name) :: m.request.zipIdx.map fun (p, index) =>
    (p.name, .object [(if p.optional then "_option" else "_arg", .nat index), ("type", .str p.shape.name)]))

def description (m : Method) : Json :=
  .object [("name", .str m.name), ("request", m.requestDescription),
    ("response", .object (m.response.map fun (key, shape) =>
      (key, .object [("_retval", .str shape.name)])))]

end Method

namespace Schema

def method? (s : Schema) (name : String) : Option Method := s.methods.find? (·.name = name)

/-- The method a packet calls, if its parameters are right. -/
def check (s : Schema) (name : String) (packet : Fields) : Except Refusal Method :=
  match s.method? name with
  | none => .error .unrecognizedPacketType
  | some m => do
      m.check packet
      return m

def description (s : Schema) : Json :=
  .object [("category", .str "actor"), ("typeName", .str s.typeName),
    ("methods", .arr (s.methods.map Method.description))]

end Schema

end RemoteInspector
