import RemoteInspector.Console.Evaluation
/-!
Consoles: listening to messages of a page, fetching those kept from before, and evaluating.
-/
namespace RemoteInspector

namespace Console

def messageForm (console : String) (m : ConsoleMessage) : Act (List (String × Json)) := do
  let arguments ← m.arguments.mapM (Grip.owned console)
  return [("level", .str m.level.name), ("filename", .str m.filename),
    ("lineNumber", .nat m.lineNumber), ("columnNumber", .nat m.columnNumber),
    ("functionName", .str m.functionName), ("timeStamp", .nat m.timeStamp),
    ("arguments", .arr arguments)] ++
    (m.stack.map fun frames => ("stacktrace", Json.arr (frames.map StackFrame.toJson))).toList

/-- A kept message, if it is of a type asked for that the console listens to. -/
def cachedForm? (console : String) (c : ConsoleActor) (types : List String) :
    CachedMessage → Act (Option Json)
  | .consoleApi m => do
      if types.contains "ConsoleAPI" && c.listens .consoleApi then
        return some (.object (("_type", .str "ConsoleAPI") :: (← messageForm console m)))
      else return none
  | .pageError e => do
      if types.contains "PageError" && c.listens .pageError then
        return some (.object (("_type", .str "PageError") :: e.members))
      else return none

def strings (packet : Fields) (key : String) : List String := (Json.obj packet).getStrings key

def startListening (c : ConsoleActor) (l : Listener) : ConsoleActor :=
  if c.listens l then c else { c with listeners := c.listeners ++ [l] }

def stopListening (c : ConsoleActor) (ls : List Listener) : ConsoleActor :=
  { c with listeners := c.listeners.filter fun l => !ls.contains l }

/-- The listeners to stop: those named in a list, or all. -/
def toStop (packet : Fields) : List Listener :=
  match packet.get? "listeners" with
  | some (.arr _) => (strings packet "listeners").filterMap Listener.ofText?
  | _ => Listener.all

def names (ls : List Listener) : Json := .strings (ls.map Listener.text)

def handler (self : String) (c : ConsoleActor) (method : String) (packet : Fields) : Handling Unit := do
  let s ← getThe Scene
  match method with
  | "startListeners" =>
    let started := (strings packet "listeners").filterMap Listener.ofText?
    Act.updateConsole self fun c => started.foldl startListening c
    Request.reply self packet [("nativeConsoleApi", .bool true), ("startedListeners", names started)]
  | "stopListeners" =>
    let stopped := toStop packet
    Act.updateConsole self fun c => stopListening c stopped
    Request.reply self packet [("stoppedListeners", names (stopped.filter c.listens))]
  | "getCachedMessages" =>
    let kept := ((s.site.page? c.page).map Page.inOrder).getD []
    let messages ← (kept.mapM (cachedForm? self c (strings packet "messageTypes")) : Act _)
    Request.reply self packet [("messages", .arr (messages.filterMap id))]
  | "evaluateJS" =>
    match (packet.get? "text").bind Json.string? with
    | none => throw (.missingParameter "text")
    | some text =>
      Request.reply self packet (← Evaluation.reply self c text
        ((packet.get? "bindObjectActor").bind Json.string?)
        ((packet.get? "frameActor").bind Json.string?))
  | "autocomplete" =>
    let text := ((packet.get? "text").bind Json.string?).getD ""
    let input := ((packet.get? "cursor").bind Json.natural?).elim text fun n => Text.take n text
    let _ ← Evaluation.debugger self c
    let found := ((s.site.engine c.host).completions.get? input).getD ⟨[], ""⟩
    Request.reply self packet [("matches", .strings found.found), ("matchProp", .str found.property)]
  | "clearMessagesCache" =>
    Act.site (·.setPage c.page fun p => { p with cache := [] })
    Request.reply self packet []
  | "setPreferences" =>
    match (packet.get? "preferences").bind Json.fields? with
    | none => throw .preferencesNotObject
    | some preferences =>
      Act.updateConsole self fun c =>
        { c with settings := preferences.foldl (fun all m => all.insert m.1 m.2) c.settings }
      Request.reply self packet [("updated", .strings (preferences.map Prod.fst))]
  | _ => throw .unrecognizedPacketType

/-! ### Messages of the page -/

def eventFrom (self type : String) (members : List (String × Json)) : Json :=
  .object ([("from", .str self), ("type", .str type)] ++ members)

def onMessage (self : String) (c : ConsoleActor) (m : ConsoleMessage) : Act Unit := do
  if c.listens .consoleApi then
    let form ← messageForm self m
    Act.event (eventFrom self "consoleAPICall" [("message", .object form)])

def onPageError (self : String) (c : ConsoleActor) (e : PageError) : Act Unit := do
  if c.listens .pageError then Act.event (eventFrom self "pageError" [("pageError", e.toJson)])

def onFileActivity (self : String) (c : ConsoleActor) (uri : String) : Act Unit := do
  if c.listens .fileActivity then Act.event (eventFrom self "fileActivity" [("uri", .str uri)])

end Console

end RemoteInspector
