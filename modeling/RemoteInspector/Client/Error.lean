import RemoteInspector.Protocol.Refusal
import RemoteInspector.Transport.Framing
/-!
What can go wrong for a client.
-/
namespace RemoteInspector

inductive WriteFailure
  | brokenPipe
  | timedOut
  | unsupported
  deriving DecidableEq, Repr

def WriteFailure.text : WriteFailure → String
  | .brokenPipe => "broken pipe"
  | .timedOut => "timed out"
  | .unsupported => "unsupported"

inductive Malformation
  | noDestination
  | unexpectedGreeting (packet : Json)
  | unreadable (part : Framing.BadPart)
  | unknownActorType (typeName : String)
  | formWithoutActor (typeName : String)
  | noMethod (typeName method : String)
  | badRequest (refusal : Refusal)
  | notString (value : Json)
  | noSubstring
  | noWalker
  | noNodeList
  | noTraceName
  | unknownNode (name : String)
  | badNodeForm
  | badMutation
  | badEvaluation
  deriving Repr

namespace Malformation

/-- The text of a malformation, none where there is nothing more to say. -/
def text? : Malformation → Option String
  | noDestination => some "request without a destination"
  | unexpectedGreeting packet => some ("unexpected greeting " ++ packet.text)
  | unreadable part => part.complaint?
  | unknownActorType typeName => some ("unknown actor type " ++ typeName)
  | formWithoutActor typeName => some (typeName ++ " form without an actor")
  | noMethod typeName method => some (typeName ++ " has no method " ++ method)
  | badRequest refusal => some refusal.message
  | notString value => some ("not a string: " ++ value.text)
  | noSubstring => some "substring reply without a substring"
  | noWalker => some "getWalker without a walker"
  | noNodeList => some "querySelectorAll without a list"
  | noTraceName => some "trace reply without a name"
  | unknownNode name => some ("unknown node " ++ name)
  | badNodeForm => some "bad node form"
  | badMutation => some "bad mutation record"
  | badEvaluation => some "bad evaluation reply"

end Malformation

inductive ClientError
  | protocol (error message : String)
  | disconnected
  | malformed (what : Malformation)
  | notWritten (failure : WriteFailure)
  deriving Repr

namespace ClientError

def message : ClientError → String
  | protocol error message => error ++ ": " ++ message
  | disconnected => "connection closed"
  | malformed what => "malformed packet" ++ what.text?.elim "" (": " ++ ·)
  | notWritten failure => "i/o error: " ++ failure.text

end ClientError

end RemoteInspector
