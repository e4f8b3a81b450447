import RemoteInspector.Grip.LongString
/-!
Grips backed by actors, through which the properties of an object are looked at later.
-/
namespace RemoteInspector

namespace Grip

/-- The name of an object's actor, made if the connection has none for the object's number. -/
def actorOf (owner : String) (ref : ObjectRef) : Act String := do
  let r := (← get).conn.registry
  match (r.scripts.get? ref.id).filter r.contains with
  | some name => return name
  | none =>
    let name ← Act.register "obj" owner (.object ⟨owner, ref⟩)
    modify (·.setRegistry fun r => { r with scripts := r.scripts.insert ref.id name })
    return name

def objectForm (s : Scene) (name : String) : Json :=
  match (s.find? name).bind Actor.object? with
  | none => null
  | some actor =>
    let o := s.site.object actor.object
    .object [("type", .str "object"), ("actor", .str name), ("class", .str o.className),
      ("extensible", .bool o.extensible), ("frozen", .bool o.frozen), ("sealed", .bool o.sealed)]

def gripper (site : Site) (owner : String) : Gripper Act where
  limits := StringLimits.ofPrefs site.prefs
  reach := site.objectCount + 2
  object ref := do return (← get).site.object ref
  call ref receiver := modifyGet fun s =>
    let (site, completion) := s.site.callObject (some s.conn.id) ref receiver
    (completion, { s with site := site })
  objectGrip ref := do
    let name ← actorOf owner ref
    return objectForm (← get) name
  longStringGrip := LongString.keep owner

def owned (owner : String) (v : Value) : Act Json := do value (gripper (← get).site owner) v

end Grip

namespace ScriptObject

def handler (self : String) (actor : ObjectActor) (method : String) (packet : Fields) :
    Handling Unit := do
  let s ← getThe Scene
  let g := Grip.gripper s.site actor.owner
  let o := s.site.object actor.object
  match method with
  | "prototypeAndProperties" =>
    let own ← (Grip.ownProperties g o : Act _)
    let getters ← (Grip.safeGetterValues g actor.object own : Act _)
    let proto ← (Grip.prototype g actor.object : Act _)
    Request.reply self packet
      [("prototype", proto), ("ownProperties", .obj own), ("safeGetterValues", .obj getters)]
  | "prototype" =>
    let proto ← (Grip.prototype g actor.object : Act _)
    Request.reply self packet [("prototype", proto)]
  | "property" =>
    match (packet.get? "name").bind Json.string? with
    | none => throw (.missingParameter "name")
    | some name =>
      let descriptor ← (Grip.property g o name : Act _)
      Request.reply self packet [("descriptor", .optional descriptor)]
  | "ownPropertyNames" =>
    Request.reply self packet [("ownPropertyNames", .strings (o.ownPropertyNames.toOption.getD []))]
  | "release" => Request.reply self packet []
  | _ => throw .unrecognizedPacketType

end ScriptObject

end RemoteInspector
