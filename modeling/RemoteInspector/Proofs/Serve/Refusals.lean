import RemoteInspector.Proofs.Serve.Decisions
/-!
Refusals: a request for a method that is listed is refused for what it asks.
-/
namespace RemoteInspector

theorem Decision.bind_ok {α β : Type} {x : Except Refusal α} {f : α → Except Refusal β} {b : β}
    (accepted : (x >>= f) = .ok b) : ∃ a, x = .ok a ∧ f a = .ok b := by
  cases x with
  | error r => cases accepted
  | ok a => exact ⟨a, rfl, accepted⟩

def Decision.Fair {α : Type} (x : Except Refusal α) : Prop :=
  ∀ r, x = .error r → r ≠ .internal ∧ r ≠ .unrecognizedPacketType

namespace Decision.Fair

variable {α β : Type}

theorem ok (a : α) : Fair (.ok a : Except Refusal α) := fun _ refused => nomatch refused

theorem error {r : Refusal} (fair : r ≠ .internal ∧ r ≠ .unrecognizedPacketType) :
    Fair (.error r : Except Refusal α) := by
  intro r' refused
  cases refused
  exact fair

theorem bind {x : Except Refusal α} {f : α → Except Refusal β} (first : Fair x)
    (next : ∀ a, Fair (f a)) : Fair (x >>= f) := by
  cases x with
  | error r => exact error (first r rfl)
  | ok a => exact next a

theorem forM {f : α → Except Refusal PUnit} (each : ∀ a, Fair (f a)) (items : List α) : Fair (items.forM f) := by
  induction items with
  | nil => exact ok _
  | cons a rest ih => exact bind (each a) fun _ => ih

theorem mapM {f : α → Except Refusal β} (each : ∀ a, Fair (f a)) (items : List α) : Fair (items.mapM f) := by
  induction items with
  | nil => exact ok _
  | cons a rest ih =>
    rw [List.mapM_cons]
    exact bind (each a) fun _ => bind ih fun _ => ok _

end Decision.Fair

open Decision (Fair)

variable {s : Scene} {self method : String} {packet : Fields}

theorem Scene.lookupNode_fair (name : String) : Fair (s.lookupNode name) := by
  unfold Scene.lookupNode
  split
  · exact .ok _
  · exact .error (by simp)

namespace Walker

theorem nodeArgument?_some {key : String} {n : NodeId} (given : nodeArgument? s packet key = .ok (some n)) :
    ∃ name, packet.get? key = some (.str name) ∧ s.lookupNode name = .ok n := by
  unfold nodeArgument? at given
  split at given
  · cases given
  · cases given
  · rename_i name there
    obtain ⟨node, live, same⟩ := Decision.bind_ok given
    cases same
    exact ⟨name, there, live⟩
  · cases given

theorem nodeArgument_ok {key : String} {n : NodeId} (given : nodeArgument s packet key = .ok n) :
    nodeArgument? s packet key = .ok (some n) := by
  obtain ⟨found, there, given⟩ := Decision.bind_ok given
  cases found with
  | none => cases given
  | some node =>
    cases given
    exact there

theorem textArgument_ok {key text : String} (given : textArgument packet key = .ok text) :
    (packet.get? key).bind Json.string? = some text := by
  unfold textArgument at given
  split at given
  · rename_i there
    cases given
    exact there
  · cases given

theorem nodeArgument?_fair (key : String) : Fair (nodeArgument? s packet key) := by
  unfold nodeArgument?
  split
  · exact .ok _
  · exact .ok _
  · exact .bind (s.lookupNode_fair _) fun _ => .ok _
  · exact .error (by simp)

theorem nodeArgument_fair (key : String) : Fair (nodeArgument s packet key) := by
  refine .bind (nodeArgument?_fair key) fun found => ?_
  cases found with
  | some node => exact .ok _
  | none => exact .error (by simp)

theorem textArgument_fair (key : String) : Fair (textArgument packet key) := by
  unfold textArgument
  split
  · exact .ok _
  · exact .error (by simp)

theorem pageOptions_fair : Fair (pageOptions s packet) :=
  .bind (nodeArgument?_fair _) fun _ => .bind (nodeArgument?_fair _) fun _ => .ok _

theorem documentArgument_fair (w : WalkerActor) : Fair (documentArgument s w packet) := by
  refine .bind (nodeArgument?_fair _) fun found => ?_
  cases found <;> exact .ok _

theorem select_fair (d : Dom) (base : NodeId) (text : String) : Fair (select d base text) := by
  unfold select
  split
  · exact .ok _
  · exact .error (by simp)

end Walker

namespace NodePage

theorem children_fair (d : Dom) (n : NodeId) (o : PageOptions) : Fair (children d n o) := by
  unfold children
  dsimp only
  split
  · exact .error (by simp)
  · split <;> exact .ok _

theorem siblings_fair (d : Dom) (n : NodeId) (o : PageOptions) : Fair (siblings d n o) := by
  unfold siblings
  split
  · exact .ok _
  · exact children_fair d _ _

end NodePage

theorem LongString.offset_fair (key : String) : Fair (LongString.offset packet key) := by
  unfold LongString.offset
  split
  · exact .ok _
  · exact .error (by simp)

theorem Tracer.types_fair : Fair (Tracer.types packet) := by
  unfold Tracer.types
  split
  · exact .error (by simp)
  · refine .mapM (fun item => ?_) _
    split
    · exact .ok _
    · exact .error (by simp)

theorem Tracing.chosen?_eq_none {t : Tracing} (active : t.active.isEmpty = false)
    {given : Option String} (none_chosen : t.chosen? given = none) : ∃ name, given = some name := by
  cases given with
  | some name => exact ⟨name, rfl⟩
  | none =>
    unfold Tracing.chosen? at none_chosen
    cases traces : t.active with
    | nil => simp [traces] at active
    | cons trace rest => simp [traces] at none_chosen

/-! ### Methods of the schemas -/

theorem Tabs.decideRoot_fair {actor : RootActor} (listed : method ∈ Schema.root.methods.map (·.name)) :
    Fair (Tabs.decideRoot s actor method) := by
  unfold Tabs.decideRoot
  split
  · exact .ok _
  · exact .ok _
  · simp_all [Schema.root]

theorem Tabs.decideTab_fair {actor : TabActor} (listed : method ∈ Schema.tab.methods.map (·.name)) :
    Fair (Tabs.decideTab actor method) := by
  unfold Tabs.decideTab
  split
  · exact .ok _
  · exact .ok _
  · simp_all [Schema.tab]

theorem Inspector.decide_fair {actor : InspectorActor}
    (listed : method ∈ Schema.inspector.methods.map (·.name)) : Fair (Inspector.decide self actor method) := by
  unfold Inspector.decide
  split
  · exact .ok _
  · simp_all [Schema.inspector]

theorem Walker.decide_fair {w : WalkerActor} (listed : method ∈ Schema.walker.methods.map (·.name)) :
    Fair (Walker.decide s self w method packet) := by
  unfold Walker.decide
  dsimp only
  split
  · exact .bind (documentArgument_fair w) fun _ => .ok _
  · exact .bind (documentArgument_fair w) fun _ => .ok _
  · exact .bind (nodeArgument_fair _) fun _ => .ok _
  · exact .bind (nodeArgument_fair _) fun _ => .bind pageOptions_fair fun _ =>
      .bind (NodePage.children_fair _ _ _) fun _ => .ok _
  · exact .bind (nodeArgument_fair _) fun _ => .bind pageOptions_fair fun _ =>
      .bind (NodePage.siblings_fair _ _ _) fun _ => .ok _
  · exact .bind (nodeArgument_fair _) fun _ => .ok _
  · exact .bind (nodeArgument_fair _) fun _ => .ok _
  · exact .bind (nodeArgument_fair _) fun _ => .bind (textArgument_fair _) fun _ =>
      .bind (select_fair _ _ _) fun _ => .ok _
  · exact .bind (nodeArgument_fair _) fun _ => .bind (textArgument_fair _) fun _ =>
      .bind (select_fair _ _ _) fun _ => .ok _
  · exact .bind (textArgument_fair _) fun _ => .bind (s.lookupNode_fair _) fun _ => .ok _
  · exact .ok _
  · exact .ok _
  · simp_all [Schema.walker, Schema.releaseMethod]

theorem Node.decide_fair {actor : NodeActor} (listed : method ∈ Schema.node.methods.map (·.name)) :
    Fair (Node.decide s self actor method packet) := by
  unfold Node.decide
  split
  · exact .ok _
  · exact .bind (Walker.textArgument_fair _) fun _ => .ok _
  · simp_all [Schema.node]

theorem NodeList.decide_fair {list : NodeListActor}
    (listed : method ∈ Schema.nodeList.methods.map (·.name)) : Fair (NodeList.decide s list method packet) := by
  unfold NodeList.decide
  split
  · exact .error (by simp)
  · split
    · dsimp only
      split
      · exact .error (by simp)
      · exact .ok _
    · exact .ok _
    · exact .ok _
    · simp_all [Schema.nodeList, Schema.releaseMethod]

theorem LongString.decide_fair {text : String}
    (listed : method ∈ Schema.longString.methods.map (·.name)) : Fair (LongString.decide text method packet) := by
  unfold LongString.decide
  split
  · exact .bind (offset_fair _) fun _ => .bind (offset_fair _) fun _ => .ok _
  · exact .ok _
  · simp_all [Schema.longString, Schema.releaseMethod]

theorem Console.decide_fair {c : ConsoleActor} (listed : method ∈ Schema.console.methods.map (·.name)) :
    Fair (Console.decide s self c method packet) := by
  unfold Console.decide
  split
  · exact .ok _
  · exact .ok _
  · exact .ok _
  · split
    · exact .error (by simp)
    · exact .ok _
  · exact .ok _
  · exact .ok _
  · split
    · exact .error (by simp)
    · exact .ok _
  · simp_all [Schema.console]

theorem ScriptObject.decide_fair {actor : ObjectActor}
    (listed : method ∈ Schema.object.methods.map (·.name)) : Fair (ScriptObject.decide s actor method packet) := by
  unfold ScriptObject.decide
  dsimp only
  split
  · exact .ok _
  · exact .ok _
  · split
    · exact .error (by simp)
    · exact .ok _
  · exact .ok _
  · exact .ok _
  · simp_all [Schema.object, Schema.releaseMethod]

theorem Network.decide_fair {n : NetworkActor}
    (listed : method ∈ Schema.networkEvent.methods.map (·.name)) : Fair (Network.decide self n method) := by
  unfold Network.decide
  split
  all_goals first
    | exact .ok _
    | simp_all [Schema.networkEvent, Schema.releaseMethod]

theorem Thread.decide_fair {actor : ThreadActor} (listed : method ∈ Schema.thread.methods.map (·.name)) :
    Fair (Thread.decide s self actor method packet) := by
  unfold Thread.decide
  split
  · exact .ok _
  · simp_all [Schema.thread]

theorem Tracer.decide_fair {host : String} (listed : method ∈ Schema.trace.methods.map (·.name)) :
    Fair (Tracer.decide s self host method packet) := by
  unfold Tracer.decide
  dsimp only
  split
  · split
    · exact .error (by simp)
    · exact .ok _
  · exact .ok _
  · refine .bind types_fair fun _ => ?_
    split
    · exact .error (by simp)
    · exact .ok _
  · split
    · split
      · rename_i active _ none_chosen
        obtain ⟨name, given⟩ := Tracing.chosen?_eq_none active none_chosen
        rw [given]
        exact .error (by simp)
      · exact .ok _
    · exact .error (by simp)
  · simp_all [Schema.trace]

theorem Request.decide_fair {actor : Actor} (listed : method ∈ actor.schema.methods.map (·.name)) :
    Fair (Request.decide s self method packet actor) := by
  cases actor with
  | root actor => exact Tabs.decideRoot_fair listed
  | tab actor => exact Tabs.decideTab_fair listed
  | inspector actor => exact Inspector.decide_fair listed
  | walker w => exact Walker.decide_fair listed
  | node actor => exact Node.decide_fair listed
  | nodeList list => exact NodeList.decide_fair listed
  | longString text => exact LongString.decide_fair listed
  | console c => exact Console.decide_fair listed
  | object actor => exact ScriptObject.decide_fair listed
  | network n => exact Network.decide_fair listed
  | thread actor => exact Thread.decide_fair listed
  | frame actor => cases listed
  | trace host => exact Tracer.decide_fair listed

/-! ### The check of a packet -/

theorem Parameter.check_fair (p : Parameter) : Fair (p.check packet) := by
  unfold Parameter.check
  split
  all_goals
    split
    · exact .ok _
    · exact .error (by simp)

namespace Schema

variable {schema : Schema} {type : String}

theorem method?_eq_none : schema.method? type = none ↔ type ∉ schema.methods.map (·.name) := by
  simp [method?]

theorem check_unlisted (unlisted : type ∉ schema.methods.map (·.name)) :
    schema.check type packet = .error .unrecognizedPacketType := by
  simp [check, method?_eq_none.mpr unlisted]

theorem check_fair (listed : type ∈ schema.methods.map (·.name)) : Fair (schema.check type packet) := by
  unfold check
  split
  · rename_i unlisted
    exact absurd listed (method?_eq_none.mp unlisted)
  · exact .bind (.forM Parameter.check_fair _) fun _ => .ok _

theorem check_ok {m : Method} (accepted : schema.check type packet = .ok m) : schema.method? type = some m := by
  unfold check at accepted
  split at accepted
  · cases accepted
  · rename_i found
    obtain ⟨_, _, accepted⟩ := Decision.bind_ok accepted
    cases accepted
    exact found

theorem check_of {m : Method} (listed : schema.method? type = some m) (fits : m.check packet = .ok ()) :
    schema.check type packet = .ok m := by
  rw [check, listed]
  change (m.check packet >>= fun _ => pure m) = .ok m
  rw [fits]
  rfl

end Schema

end RemoteInspector
