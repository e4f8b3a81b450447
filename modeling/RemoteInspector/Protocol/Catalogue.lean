import RemoteInspector.Protocol.Schema
/-!
The actor types of the protocol and their methods.
-/
namespace RemoteInspector

namespace Schema

def arg (name : String) (shape : Shape) : Parameter := ⟨name, shape, false⟩

def option (name : String) (shape : Shape) : Parameter := ⟨name, shape, true⟩

def releaseMethod : Method := { name := "release", release := true }

def domNode : Shape := .actor "domnode"

def nodes : Shape := .array domNode

def strings : Shape := .array .string

def domMutation : Shape :=
  .dict "dommutation" [("type", .string), ("target", domNode), ("added", nodes), ("removed", nodes)]

def root : Schema where
  typeName := "root"
  methods := [
    { name := "listTabs", response := [("tabs", .json), ("selected", .number)] },
    { name := "protocolDescription", response := [("types", .json)] }]

def tab : Schema where
  typeName := "tab"
  methods := [
    { name := "attach", response := [("threadActor", .string)] },
    { name := "detach" }]

def inspector : Schema where
  typeName := "inspector"
  methods := [{ name := "getWalker", response := [("walker", .actor "domwalker")] }]

def pageOptions : List Parameter :=
  [arg "node" domNode, option "maxNodes" (.nullable .number), option "center" domNode,
    option "start" domNode, option "whatToShow" .number]

def pageResponse : List (String × Shape) :=
  [("hasFirst", .boolean), ("hasLast", .boolean), ("nodes", nodes)]

def walker : Schema where
  typeName := "domwalker"
  methods := [
    { name := "document", request := [option "node" domNode], response := [("node", domNode)] },
    { name := "documentElement", request := [option "node" domNode], response := [("node", domNode)] },
    { name := "parents", request := [arg "node" domNode, option "sameDocument" .boolean],
      response := [("nodes", nodes)] },
    { name := "children", request := pageOptions, response := pageResponse },
    { name := "siblings", request := pageOptions, response := pageResponse },
    { name := "nextSibling", request := [arg "node" domNode, option "whatToShow" .number],
      response := [("node", domNode)] },
    { name := "previousSibling", request := [arg "node" domNode, option "whatToShow" .number],
      response := [("node", domNode)] },
    { name := "querySelector", request := [arg "node" domNode, arg "selector" .string],
      response := [("node", domNode), ("newNodes", nodes)] },
    { name := "querySelectorAll", request := [arg "node" domNode, arg "selector" .string],
      response := [("list", .actor "domnodelist")] },
    { name := "releaseNode", request := [arg "node" domNode] },
    { name := "getMutations", request := [option "cleanup" .boolean],
      response := [("mutations", .array domMutation)] },
    releaseMethod]

def node : Schema where
  typeName := "domnode"
  methods := [
    { name := "getNodeValue", response := [("value", .actor "longstring")] },
    { name := "setNodeValue", request := [arg "value" .string] }]

def nodeList : Schema where
  typeName := "domnodelist"
  methods := [
    { name := "item", request := [arg "item" .number],
      response := [("node", domNode), ("newNodes", nodes)] },
    { name := "items",
      request := [option "start" (.nullable .number), option "end" (.nullable .number)],
      response := [("nodes", nodes), ("newNodes", nodes)] },
    releaseMethod]

def longString : Schema where
  typeName := "longstring"
  methods := [
    { name := "substring", request := [arg "start" .number, arg "end" .number],
      response := [("substring", .string)] },
    releaseMethod]

def trace : Schema where
  typeName := "trace"
  methods := [
    { name := "attach", response := [("traceTypes", strings)] },
    { name := "detach" },
    { name := "startTrace", request := [arg "trace" strings, option "name" (.nullable .string)],
      response := [("name", .string)] },
    { name := "stopTrace", request := [option "name" (.nullable .string)],
      response := [("name", .string)] }]

def console : Schema where
  typeName := "console"
  methods := [
    { name := "startListeners", request := [arg "listeners" strings],
      response := [("startedListeners", strings), ("nativeConsoleAPI", .boolean)] },
    { name := "stopListeners", request := [option "listeners" strings],
      response := [("stoppedListeners", strings)] },
    { name := "getCachedMessages", request := [arg "messageTypes" strings],
      response := [("messages", .json)] },
    { name := "evaluateJS",
      request := [arg "text" .string, option "bindObjectActor" (.nullable .string),
        option "frameActor" (.nullable .string)],
      response := [("input", .string), ("result", .json), ("timestamp", .number),
        ("exception", .json), ("exceptionMessage", .nullable .string), ("helperResult", .json)] },
    { name := "autocomplete", request := [arg "text" .string, option "cursor" (.nullable .number)],
      response := [("matches", strings), ("matchProp", .string)] },
    { name := "clearMessagesCache" },
    { name := "setPreferences", request := [arg "preferences" .json],
      response := [("updated", strings)] }]

def object : Schema where
  typeName := "object"
  methods := [
    { name := "prototypeAndProperties",
      response := [("prototype", .json), ("ownProperties", .json), ("safeGetterValues", .json)] },
    { name := "prototype", response := [("prototype", .json)] },
    { name := "property", request := [arg "name" .string], response := [("descriptor", .json)] },
    { name := "ownPropertyNames", response := [("ownPropertyNames", .json)] },
    releaseMethod]

def networkEvent : Schema where
  typeName := "netEvent"
  methods := [
    releaseMethod,
    { name := "getRequestHeaders", response := [("headers", .json), ("headersSize", .number)] },
    { name := "getRequestCookies", response := [("cookies", .json)] },
    { name := "getRequestPostData",
      response := [("postData", .json), ("postDataDiscarded", .boolean)] },
    { name := "getResponseHeaders", response := [("headers", .json), ("headersSize", .number)] },
    { name := "getResponseCookies", response := [("cookies", .json)] },
    { name := "getResponseContent",
      response := [("content", .json), ("contentDiscarded", .boolean)] },
    { name := "getEventTimings", response := [("timings", .json), ("totalTime", .number)] }]

def thread : Schema where
  typeName := "thread"
  methods := [
    { name := "frames",
      request := [option "start" (.nullable .number), option "count" (.nullable .number)],
      response := [("frames", .json)] }]

def frame : Schema where
  typeName := "frame"
  methods := []

def all : List Schema :=
  [root, tab, inspector, walker, node, nodeList, longString, trace, console, object, networkEvent,
    thread, frame]

def ofTypeName? (typeName : String) : Option Schema := all.find? (·.typeName = typeName)

end Schema

end RemoteInspector
