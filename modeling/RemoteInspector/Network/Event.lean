import RemoteInspector.Json.Record
/-!
The life of one network request as its host reports it, step by step.
-/
namespace RemoteInspector

structure HttpHeader where
  name : String
  value : String
  deriving DecidableEq, Repr

namespace HttpHeader

def toJson (h : HttpHeader) : Json := .object [("name", .str h.name), ("value", .str h.value)]

def ofJson? (j : Json) : Option HttpHeader := do
  let r ← Record.ofJson? 2 j
  return { name := ← r.required 0 "name" Json.string?, value := ← r.required 1 "value" Json.string? }

end HttpHeader

/-- The start of a request; `started` counts milliseconds since 1970. -/
structure HttpRequest where
  url : String
  method : String
  httpVersion : String
  headersSize : Nat
  started : Int
  isXhr : Bool
  deriving DecidableEq, Repr

structure HttpResponseStart where
  httpVersion : String
  status : Nat
  statusText : String
  headersSize : Nat
  deriving DecidableEq, Repr

structure HttpResponseContent where
  mimeType : String
  body : Option (List UInt8)
  deriving DecidableEq, Repr

structure EventTimings where
  blocked : UInt64 := 0
  dns : UInt64 := 0
  connect : UInt64 := 0
  send : UInt64 := 0
  wait : UInt64 := 0
  receive : UInt64 := 0
  deriving DecidableEq, Repr

namespace EventTimings

def total (t : EventTimings) : UInt64 := t.blocked + t.dns + t.connect + t.send + t.wait + t.receive

def toJson (t : EventTimings) : Json :=
  .object [("blocked", .nat t.blocked.toNat), ("dns", .nat t.dns.toNat),
    ("connect", .nat t.connect.toNat), ("send", .nat t.send.toNat), ("wait", .nat t.wait.toNat),
    ("receive", .nat t.receive.toNat)]

def phase? (j : Json) : Option UInt64 := j.word64?.map UInt64.ofNat

def ofJson? (j : Json) : Option EventTimings := do
  let r ← Record.ofJson? 6 j
  return {
    blocked := ← r.required 0 "blocked" phase?
    dns := ← r.required 1 "dns" phase?
    connect := ← r.required 2 "connect" phase?
    send := ← r.required 3 "send" phase?
    wait := ← r.required 4 "wait" phase?
    receive := ← r.required 5 "receive" phase? }

end EventTimings

inductive NetworkEvent
  | request (request : HttpRequest)
  | requestHeaders (headers : List HttpHeader)
  | requestCookies (cookies : List HttpHeader)
  | requestPostData (body : List UInt8)
  | responseStart (start : HttpResponseStart)
  | responseHeaders (headers : List HttpHeader)
  | responseCookies (cookies : List HttpHeader)
  | responseContent (content : HttpResponseContent)
  | timings (timings : EventTimings)
  deriving DecidableEq, Repr

end RemoteInspector
