import RemoteInspector.Scene
/-!
Threads: the paused stack of a page. Asking for it again replaces the frames handed out before, since
the stack may have changed.
-/
namespace RemoteInspector

namespace Thread

def frameForm (name : String) (f : FrameActor) : Json :=
  .object [("actor", .str name), ("type", .str f.frame.kind), ("displayName", .str f.frame.name),
    ("depth", .nat f.depth),
    ("where", .object [("url", .str f.frame.url), ("line", .nat f.frame.line),
      ("column", .nat f.frame.column)])]

/-- The frames of the stack that a request asks for, with their depths. -/
def frames (e : Engine) (packet : Fields) : List FrameActor :=
  let all := e.paused.zipIdx.map fun (frame, depth) => FrameActor.mk depth frame
  let rest := all.drop (((packet.get? "start").bind Json.natural?).getD 0)
  ((packet.get? "count").bind Json.natural?).elim rest rest.take

/-- Registers frames, and keeps them in mind as those handed out last. -/
def handOut (self : String) (frames : List FrameActor) : Act (List (String × FrameActor)) := do
  let shown ← frames.mapM fun f => do return (← Act.register "frame" self (.frame f), f)
  Act.update self fun
    | .thread t => .thread { t with frames := shown.map Prod.fst }
    | other => other
  return shown

def decide (s : Scene) (self : String) (actor : ThreadActor) (method : String) (packet : Fields) :
    Decision :=
  match method with
  | "frames" => .ok do
      actor.frames.forM Act.release
      let shown ← handOut self (frames (s.site.engine actor.host) packet)
      return [("frames", .arr (shown.map fun (name, f) => frameForm name f))]
  | _ => .error .unrecognizedPacketType

end Thread

end RemoteInspector
