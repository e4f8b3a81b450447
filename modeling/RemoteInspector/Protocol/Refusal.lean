import RemoteInspector.Json.Writer
import RemoteInspector.Protocol.Shape
/-!
Why a request is refused, and how the client is told.
-/
namespace RemoteInspector

inductive Refusal
  | missingParameter (name : String)
  | wrongShape (name : String) (shape : String)
  | unknownParameter (method name : String)
  | centerAndStart
  | indexOutOfRange (index length : Nat)
  | unknownTraceType (given : String)
  | preferencesNotObject
  | unrecognizedPacketType
  | noSuchActor (name : String)
  | alreadyAttached
  | notAttached
  | noActiveTraces
  | noSuchTrace (name : String)
  | invalidSelector (text : String)
  | internal
  deriving DecidableEq, Repr

namespace Refusal

def name : Refusal → String
  | missingParameter _ => "missingParameter"
  | wrongShape _ _ | unknownParameter _ _ | centerAndStart | indexOutOfRange _ _
  | unknownTraceType _ | preferencesNotObject => "badParameterType"
  | unrecognizedPacketType => "unrecognizedPacketType"
  | noSuchActor _ => "noSuchActor"
  | alreadyAttached | notAttached | noActiveTraces => "wrongState"
  | noSuchTrace _ => "noSuchTrace"
  | invalidSelector _ => "invalidSelector"
  | internal => "internal"

def message : Refusal → String
  | missingParameter name => "Missing parameter '" ++ name ++ "'"
  | wrongShape name shape => "Parameter '" ++ name ++ "' should be of type " ++ shape
  | unknownParameter method name => "Method '" ++ method ++ "' has no parameter '" ++ name ++ "'"
  | centerAndStart => "Can't specify both 'center' and 'start' options."
  | indexOutOfRange index length =>
    "Index " ++ toString index ++ " is out of range for a list of " ++ toString length ++ " nodes"
  | unknownTraceType given => "No such trace type: " ++ given
  | preferencesNotObject => "Parameter 'preferences' should be an object"
  | unrecognizedPacketType => "Unrecognized packet type"
  | noSuchActor name => "No such actor for ID: " ++ name
  | alreadyAttached => "Already attached to a client"
  | notAttached => "Not attached"
  | noActiveTraces => "No active traces"
  | noSuchTrace name => "No such trace: " ++ name
  | invalidSelector text => "'" ++ text ++ "' is not a valid selector"
  | internal => "Internal error"

def packet (r : Refusal) (sender : String) : Json :=
  .object [("from", .str sender), ("error", .str r.name), ("message", .str r.message)]

end Refusal

end RemoteInspector
