import RemoteInspector.Client.Basic
import RemoteInspector.Protocol.Catalogue
/-!
Fronts: the client's handles on actors, over any peer that takes packets and sends others back.
-/
namespace RemoteInspector

class Peer (σ : Type) where
  /-- Takes a packet: what is sent back, and whether the peer has hung up. -/
  receive : σ → Fields → σ × List Json × Bool

structure Link (σ : Type) where
  client : Client
  peer : σ

abbrev Calling (σ : Type) := ExceptT ClientError (StateM (Link σ))

namespace Link

variable {σ : Type}

/-- Packets reach the client, and perhaps the end of the connection. -/
def deliver (l : Link σ) (packets : List Json) (ended : Bool) : Link σ :=
  let client := packets.foldl Client.receive l.client
  { l with client := if ended then client.close else client }

end Link

namespace Calling

variable {σ : Type} [Peer σ]

def client (f : Client → Client) : Calling σ Unit := modify fun l => { l with client := f l.client }

def take {α : Type} (f : Client → Client × α) : Calling σ α :=
  modifyGet fun l => let (client, a) := f l.client; (a, { l with client := client })

def request (packet : Fields) : Calling σ RequestId := do
  let l ← get
  match l.client.request packet none with
  | (_, .error e) => throw e
  | (client, .ok (id, packet)) =>
    let (peer, packets, ended) := Peer.receive l.peer packet
    set (Link.deliver ⟨client, peer⟩ packets ended)
    return id

/-- The reply to a request. A peer answers at once or never, so a client gives up one that has left a
request unanswered. -/
def wait (id : RequestId) : Calling σ Fields := do
  match (← get).client.fate id with
  | .answered (.ok reply) => return reply
  | .answered (.error e) => throw e
  | .pending =>
    client Client.close
    throw .disconnected

def call (packet : Fields) : Calling σ Fields := do wait (← request packet)

end Calling

structure Front where
  actor : String
  schema : Schema

namespace Front

def ofType (actor typeName : String) : Except ClientError Front :=
  match Schema.ofTypeName? typeName with
  | some schema => .ok ⟨actor, schema⟩
  | none => .error (.malformed (.unknownActorType typeName))

def ofForm (form : Json) (typeName : String) : Except ClientError Front :=
  match form.getString? "actor" with
  | some actor => ofType actor typeName
  | none => .error (.malformed (.formWithoutActor typeName))

def write (f : Front) (method : String) (arguments : Fields) : Except ClientError Fields :=
  match f.schema.method? method with
  | none => .error (.malformed (.noMethod f.schema.typeName method))
  | some m =>
    match m.write f.actor arguments with
    | .ok packet => .ok packet
    | .error refusal => .error (.malformed (.badRequest refusal))

def replyForms (f : Front) (method : String) (reply : Fields) : List (String × Json) :=
  (f.schema.method? method).elim [] fun m => m.replyForms (.obj reply)

def arguments (pairs : List (String × Option Json)) : Fields :=
  Fields.ofList (pairs.filterMap fun (key, value) => value.map fun v => (key, v))

variable {σ : Type} [Peer σ]

def request (f : Front) (method : String) (arguments : Fields) : Calling σ RequestId := do
  Calling.request (← f.write method arguments)

def call (f : Front) (method : String) (arguments : Fields) : Calling σ Fields := do
  Calling.wait (← f.request method arguments)

end Front

/-- The full text of a string or of a long string, which is fetched at once and released. -/
def fullText {σ : Type} [Peer σ] (value : Json) : Calling σ String := do
  match value.string? with
  | some text => return text
  | none =>
    if value.getString? "type" != some "longString" then throw (.malformed (.notString value))
    let front ← Front.ofForm value "longstring"
    let length := (value.getNatural? "length").getD 0
    let reply ← front.call "substring" (Front.arguments [("start", some (.nat 0)), ("end", some (.nat length))])
    let _ ← front.call "release" []
    match (Fields.get? reply "substring").bind Json.string? with
    | some text => return text
    | none => throw (.malformed .noSubstring)

end RemoteInspector
