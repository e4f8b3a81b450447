import RemoteInspector.Grip.LongString
import RemoteInspector.Network.Timestamp
import RemoteInspector.Text.Base64
/-!
The network monitor of a console: a request that starts while the console listens gets an actor, to
which the later events of the request go.
-/
namespace RemoteInspector

namespace NetworkActor

def responseHeadersSize (n : NetworkActor) : Nat := (n.responseStart.map (·.headersSize)).getD 0

def startMembers (n : NetworkActor) (start : HttpResponseStart) : List (String × Json) :=
  [("response", .object [("httpVersion", .str start.httpVersion),
    ("status", .str (toString start.status)), ("statusText", .str start.statusText),
    ("headersSize", .nat start.headersSize), ("discardResponseBody", .bool !n.saveBodies)])]

/-- Records a later event; the name of the update and what the client is told of it. A second start
is none of the actor's concern. -/
def record (n : NetworkActor) : NetworkEvent → Option (NetworkActor × String × List (String × Json))
  | .request _ => none
  | .requestHeaders headers =>
    some ({ n with requestHeaders := headers }, "requestHeaders",
      [("headers", .nat headers.length), ("headersSize", .nat n.request.headersSize)])
  | .requestCookies cookies =>
    some ({ n with requestCookies := cookies }, "requestCookies", [("cookies", .nat cookies.length)])
  | .requestPostData body =>
    some ({ n with postData := if n.saveBodies then some body else n.postData }, "requestPostData",
      [("dataSize", .nat body.length), ("discardRequestBody", .bool !n.saveBodies)])
  | .responseStart start =>
    some ({ n with responseStart := some start }, "responseStart", n.startMembers start)
  | .responseHeaders headers =>
    some ({ n with responseHeaders := headers }, "responseHeaders",
      [("headers", .nat headers.length), ("headersSize", .nat n.responseHeadersSize)])
  | .responseCookies cookies =>
    some ({ n with responseCookies := cookies }, "responseCookies", [("cookies", .nat cookies.length)])
  | .responseContent content =>
    let saved := if n.saveBodies then content.body else none
    some ({ n with responseContent := some { content with body := saved } }, "responseContent",
      [("mimeType", .str content.mimeType), ("contentSize", .nat (content.body.elim 0 List.length)),
        ("discardResponseBody", .bool !n.saveBodies)])
  | .timings timings =>
    some ({ n with timings := some timings }, "eventTimings",
      [("totalTime", .nat timings.total.toNat)])

def form (name : String) (n : NetworkActor) : Json :=
  .object [("actor", .str name), ("startedDateTime", .str (Timestamp.render n.request.started)),
    ("url", .str n.request.url), ("method", .str n.request.method), ("isXHR", .bool n.request.isXhr)]

end NetworkActor

namespace Network

def headerForms (self : String) (headers : List HttpHeader) : Act Json := do
  let forms ← headers.mapM fun h => do
    return Json.object [("name", .str h.name), ("value", ← LongString.grip self h.value)]
  return .arr forms

/-- A body as text where it is text, else in base 64. -/
def bodyForm (self : String) (mimeType : Option String) (body : List UInt8) : Act Json := do
  let head := (mimeType.map fun m => ("mimeType", Json.str m)).toList
  match String.fromUTF8? ⟨body.toArray⟩ with
  | some text => return .object (head ++ [("text", ← LongString.grip self text)])
  | none =>
    return .object (head ++ [("text", .str (String.ofList (Text.base64 body))),
      ("encoding", .str "base64")])

def optionalForm (form : Option (Act Json)) : Act Json :=
  match form with
  | some form => form
  | none => return .null

def decide (self : String) (n : NetworkActor) (method : String) : Decision :=
  match method with
  | "release" => .ok (pure [])
  | "getRequestHeaders" => .ok do
      let headers ← headerForms self n.requestHeaders
      return [("headers", headers), ("headersSize", .nat n.request.headersSize)]
  | "getRequestCookies" => .ok do return [("cookies", ← headerForms self n.requestCookies)]
  | "getRequestPostData" => .ok do
      let data ← optionalForm (n.postData.map (bodyForm self none))
      return [("postData", data), ("postDataDiscarded", .bool !n.saveBodies)]
  | "getResponseHeaders" => .ok do
      let headers ← headerForms self n.responseHeaders
      return [("headers", headers), ("headersSize", .nat n.responseHeadersSize)]
  | "getResponseCookies" => .ok do return [("cookies", ← headerForms self n.responseCookies)]
  | "getResponseContent" => .ok do
      let content ← optionalForm (n.responseContent.map fun c =>
        bodyForm self (some c.mimeType) (c.body.getD []))
      return [("content", content), ("contentDiscarded", .bool !n.saveBodies)]
  | "getEventTimings" =>
    let timings := n.timings.getD {}
    .ok (pure [("timings", timings.toJson), ("totalTime", .nat timings.total.toNat)])
  | _ => .error .unrecognizedPacketType

/-- A request starts. One of the same number that is still there ends. -/
def onStart (console : String) (c : ConsoleActor) (id : String) (request : HttpRequest) : Act Unit := do
  let actor : NetworkActor := { console := console, request := request, saveBodies := c.saveBodies }
  let name ← Act.register "netEvent" console (.network actor)
  Act.updateConsole console fun c => { c with requests := c.requests.insert id name }
  match c.requests.get? id with
  | some previous => Act.release previous
  | none => pure ()
  Act.event (.object [("from", .str console), ("type", .str "networkEvent"),
    ("eventActor", actor.form name)])

/-- A later event goes to the actor of its request; one of an unknown request is dropped. -/
def onUpdate (console : String) (c : ConsoleActor) (id : String) (event : NetworkEvent) : Act Unit := do
  let s ← get
  let found := (c.requests.get? id).bind fun name =>
    ((s.find? name).bind Actor.network?).map fun n => (name, n)
  match found with
  | none => Act.updateConsole console fun c => { c with requests := c.requests.erase id }
  | some (name, n) =>
    match n.record event with
    | none => return ()
    | some (n, update, members) =>
      Act.update name fun _ => .network n
      Act.event (.object ([("from", .str name), ("type", .str "networkEventUpdate"),
        ("updateType", .str update)] ++ members))

def onEvent (console : String) (c : ConsoleActor) (id : String) (event : NetworkEvent) : Act Unit := do
  if c.listens .networkActivity then
    match event with
    | .request request => onStart console c id request
    | event => onUpdate console c id event

end Network

end RemoteInspector
