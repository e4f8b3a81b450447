import RemoteInspector.Console.Console
import RemoteInspector.Inspector.Node
import RemoteInspector.Network.Monitor
import RemoteInspector.Script.Thread
import RemoteInspector.Serve.Tabs
import RemoteInspector.Trace.Tracer
/-!
Requests: a packet from the client goes to the handler of the actor it names, and is answered by exactly
one packet.
-/
namespace RemoteInspector

namespace Request

def handler (self : String) (packet : Fields) (method : String) : Actor → Handling Unit
  | .root actor => do grant self packet (Tabs.decideRoot (← getThe Scene) actor method)
  | .tab actor => grant self packet (Tabs.decideTab actor method)
  | .inspector actor => grant self packet (Inspector.decide self actor method)
  | .walker actor => Walker.handler self actor method packet
  | .node actor => Node.handler self actor method packet
  | .nodeList actor => NodeList.handler self actor method packet
  | .longString text => grant self packet (LongString.decide text method packet)
  | .console actor => Console.handler self actor method packet
  | .object actor => ScriptObject.handler self actor method packet
  | .network actor => grant self packet (Network.decide self actor method)
  | .thread actor => do grant self packet (Thread.decide (← getThe Scene) self actor method packet)
  | .frame _ => throw .unrecognizedPacketType
  | .trace host => Tracer.handler self host method packet

/-- Refuses a packet that never reached an actor. A client that cannot be told is gone. -/
def reject (s : Scene) (packet : Fields) (sender : String) (r : Refusal) : Scene × Bool :=
  (s.write (withId packet (r.packet sender)), s.conn.line == .up)

/-- Runs a handler. If it fails, or ends without a reply, the answer is an error; once the reply is
written nothing follows but release, and that only if the handler has not failed. -/
def perform (s : Scene) (packet : Fields) (self : String) (method : Method) (actor : Actor) : Scene :=
  let ((outcome, replied), s) := (((handler self packet method.name actor).run.run false).run s : Id _)
  match outcome, replied with
  | .ok (), true => if method.release then s.release self else s
  | .ok (), false => s.write (withId packet (Refusal.internal.packet self))
  | .error _, true => s
  | .error r, false => s.write (withId packet (r.packet self))

/-- Answers a packet; false if the client is gone. -/
def handle (s : Scene) (packet : Fields) : Scene × Bool :=
  match (packet.get? "to").bind Json.string? with
  | none => reject s packet Tabs.rootName (.missingParameter "to")
  | some self =>
    match s.find? self with
    | none => reject s packet self (.noSuchActor self)
    | some actor =>
      match (packet.get? "type").bind Json.string? with
      | none => reject s packet self .unrecognizedPacketType
      | some type =>
        match actor.schema.check type packet with
        | .error r => reject s packet self r
        | .ok method => (perform s packet self method actor, true)

end Request

end RemoteInspector
