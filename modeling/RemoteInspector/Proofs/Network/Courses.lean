import RemoteInspector.Proofs.Act
import RemoteInspector.Network.Monitor
/-!
The course of a request: its actor answers the last that was told of each kind.
-/
namespace RemoteInspector

namespace NetworkEvent

def requestHeaders? : NetworkEvent → Option (List HttpHeader)
  | .requestHeaders headers => some headers
  | _ => none

def requestCookies? : NetworkEvent → Option (List HttpHeader)
  | .requestCookies cookies => some cookies
  | _ => none

def postData? : NetworkEvent → Option (List UInt8)
  | .requestPostData body => some body
  | _ => none

def responseStart? : NetworkEvent → Option HttpResponseStart
  | .responseStart start => some start
  | _ => none

def responseHeaders? : NetworkEvent → Option (List HttpHeader)
  | .responseHeaders headers => some headers
  | _ => none

def responseCookies? : NetworkEvent → Option (List HttpHeader)
  | .responseCookies cookies => some cookies
  | _ => none

def responseContent? : NetworkEvent → Option HttpResponseContent
  | .responseContent content => some content
  | _ => none

def timings? : NetworkEvent → Option EventTimings
  | .timings phases => some phases
  | _ => none

end NetworkEvent

/-- A request that has started: its actor, whether bodies are kept, and what has been told since. -/
structure Course where
  actor : String
  request : HttpRequest
  saves : Bool
  events : List NetworkEvent := []
  deriving DecidableEq

namespace Course

open NetworkEvent

variable {k : Course} {event : NetworkEvent}

def add (k : Course) (event : NetworkEvent) : Course := { k with events := k.events ++ [event] }

def last {α : Type} (k : Course) (kind : NetworkEvent → Option α) : Option α := (k.events.filterMap kind).getLast?

@[simp] theorem last_add {α : Type} (kind : NetworkEvent → Option α) :
    (k.add event).last kind = (kind event).or (k.last kind) := by
  rw [last, add, List.filterMap_append, List.getLast?_append]
  cases h : kind event <;> simp [h, last]

/-- What the actor of a request keeps. -/
def state (console : String) (k : Course) : NetworkActor where
  console := console
  request := k.request
  saveBodies := k.saves
  requestHeaders := (k.last requestHeaders?).getD []
  requestCookies := (k.last requestCookies?).getD []
  postData := if k.saves then k.last postData? else none
  responseStart := k.last responseStart?
  responseHeaders := (k.last responseHeaders?).getD []
  responseCookies := (k.last responseCookies?).getD []
  responseContent := (k.last responseContent?).map fun c => { c with body := if k.saves then c.body else none }
  timings := k.last timings?

/-- What a request for what is known is answered with: the last that was told of its kind. Bodies are there only if
they are kept. -/
def report (self : String) (k : Course) : String → Option (Act Reply)
  | "getRequestHeaders" => some do
      let headers ← Network.headerForms self ((k.last requestHeaders?).getD [])
      return [("headers", headers), ("headersSize", .nat k.request.headersSize)]
  | "getRequestCookies" => some do
      return [("cookies", ← Network.headerForms self ((k.last requestCookies?).getD []))]
  | "getRequestPostData" => some do
      let body := if k.saves then k.last postData? else none
      let data ← Network.optionalForm (body.map (Network.bodyForm self none))
      return [("postData", data), ("postDataDiscarded", .bool !k.saves)]
  | "getResponseHeaders" => some do
      let headers ← Network.headerForms self ((k.last responseHeaders?).getD [])
      return [("headers", headers), ("headersSize", .nat (((k.last responseStart?).map (·.headersSize)).getD 0))]
  | "getResponseCookies" => some do
      return [("cookies", ← Network.headerForms self ((k.last responseCookies?).getD []))]
  | "getResponseContent" => some do
      let content ← Network.optionalForm ((k.last responseContent?).map fun c =>
        Network.bodyForm self (some c.mimeType) (if k.saves then c.body.getD [] else []))
      return [("content", content), ("contentDiscarded", .bool !k.saves)]
  | "getEventTimings" =>
    let timings := (k.last timings?).getD {}
    some (pure [("timings", timings.toJson), ("totalTime", .nat timings.total.toNat)])
  | _ => none

theorem decide_state {self console method : String} {act : Act Reply} (asked : k.report self method = some act) :
    Network.decide self (k.state console) method = .ok act := by
  unfold report at asked
  split at asked
  case h_6 =>
    cases asked
    have body (c : HttpResponseContent) :
        (if k.saves then c.body.getD [] else []) = (if k.saves then c.body else none).getD [] := by
      split <;> rfl
    simp only [body]
    change Except.ok _ = _
    rw [show (k.state console).responseContent = (k.last responseContent?).map
      fun c => { c with body := if k.saves then c.body else none } from rfl, Option.map_map]
    rfl
  case h_8 => cases asked
  all_goals
    cases asked
    rfl

end Course

end RemoteInspector
