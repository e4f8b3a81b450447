import Mathlib.Algebra.Order.Ring.Nat
import RemoteInspector.Proofs.Inspector.Queues
import RemoteInspector.Proofs.Serve.Speech
/-!
The delivery of mutation records: what is recorded is fetched once and in order, and announced once.
-/
namespace RemoteInspector

/-! ### Records of a batch -/

namespace Walker

/-- The record of a change, in terms of the nodes known when the change is handled. -/
def describe (d : Dom) (limit : Nat) (known : NodeId → Option String) (change : Dom.Change) : Option Mutation :=
  (known change.target).map fun target =>
    match change with
    | .attributes node name space => .attributes target name space (d.attribute? node name)
    | .characterData node =>
      let (value, cut) := summarize limit (((d.info? node).bind (·.value)).getD "")
      .characterData target value cut
    | .childList node added removed =>
      .childList target (added.filterMap known) (removed.filterMap known)
        ((d.info? node).elim 0 (·.numChildren))

structure Recorded (w w' : WalkerActor) : Prop where
  known : w'.known = w.known
  queue : w'.queue = w.queue

theorem Recorded.trans {w w' w'' : WalkerActor} (first : Recorded w w') (next : Recorded w' w'') : Recorded w w'' :=
  ⟨next.known.trans first.known, next.queue.trans first.queue⟩

theorem foldl_recorded {f : WalkerActor → String → WalkerActor} (each : ∀ w name, Recorded w (f w name))
    (names : List String) (w : WalkerActor) : Recorded w (names.foldl f w) := by
  induction names generalizing w with
  | nil => exact ⟨rfl, rfl⟩
  | cons name rest ih => exact (each w name).trans (ih _)

theorem record_recorded (d : Dom) (limit : Nat) (w : WalkerActor) (change : Dom.Change) :
    Recorded w (record d limit w change).1 ∧ (record d limit w change).2 = describe d limit w.known.get? change := by
  unfold record describe
  cases w.known.get? change.target with
  | none => exact ⟨⟨rfl, rfl⟩, rfl⟩
  | some target =>
    cases change with
    | attributes node name space => exact ⟨⟨rfl, rfl⟩, rfl⟩
    | characterData node => exact ⟨⟨rfl, rfl⟩, rfl⟩
    | childList node added removed =>
      have orphaned := foldl_recorded (f := WalkerActor.orphan) fun _ _ => ⟨rfl, rfl⟩
      have adopted := foldl_recorded (f := WalkerActor.adopt) fun _ _ => ⟨rfl, rfl⟩
      exact ⟨(orphaned _ w).trans (adopted _ _), rfl⟩

theorem records_recorded (d : Dom) (limit : Nat) (w : WalkerActor) (changes : List Dom.Change) :
    Recorded w (records d limit w changes).1 ∧
      (records d limit w changes).2 = changes.filterMap (describe d limit w.known.get?) := by
  induction changes generalizing w with
  | nil => exact ⟨⟨rfl, rfl⟩, rfl⟩
  | cons change rest ih =>
    obtain ⟨first, described⟩ := record_recorded d limit w change
    obtain ⟨others, rest_described⟩ := ih (record d limit w change).1
    refine ⟨first.trans others, ?_⟩
    simp only [records, described, rest_described, first.known, List.filterMap_cons]
    cases describe d limit w.known.get? change <;> rfl

end Walker

namespace Serve

/-! ### What happens -/

/-- What a connection goes through, one thing at a time: the events of a tab's documents reach the
walkers of the tab one by one, once its inspector has looked for those that are left. -/
inductive Happening
  | packet (packet : Json)
  | looked (tab : TabId)
  | changes (walker : String) (batch : List Dom.Change)
  | frameLoad (walker : String) (frame : NodeId)
  | documentUnload (walker : String) (document : NodeId)
  | event (event : Event) (plain : event.Plain)
  | entered (tracer : String) (frame : LiveFrame)
  | left (tracer : String) (completion : Completion Value)

def happen (s : Scene) : Happening → Scene
  | .packet packet => receive s packet
  | .looked tab => (walkers s tab).after s
  | .changes walker batch => (Walker.onChanges walker batch).after s
  | .frameLoad walker frame => (Walker.onFrameLoad walker frame).after s
  | .documentUnload walker document => (Walker.onDocumentUnload walker document).after s
  | .event event _ => (follow s event).after s
  | .entered tracer frame => (Tracer.onEnter tracer frame).after s
  | .left tracer completion => (Tracer.onPop tracer completion).after s

theorem after_forM {α : Type} (f : α → Act PUnit) (items : List α) (s : Scene) :
    (items.forM f).after s = items.foldl (fun t a => (f a).after t) s := by
  induction items generalizing s with
  | nil => rfl
  | cons a rest ih => exact ih _

theorem onEvent_happens (s : Scene) (event : Event) :
    ∃ happenings : List Happening, onEvent s event = happenings.foldl happen s := by
  have heard (f : String → Act Unit) (h : String → Happening) (same : ∀ t walker, happen t (h walker) = (f walker).after t)
      (tab : TabId) : ∃ happenings : List Happening,
        Act.after (do (← walkers s tab).forM f) s = happenings.foldl happen s := by
    refine ⟨.looked tab :: ((walkers s tab).result s).map h, ?_⟩
    rw [Act.after_bind, after_forM, List.foldl_cons, List.foldl_map]
    simp only [same]
    rfl
  unfold onEvent
  split
  · by_cases plain : event.Plain
    · exact ⟨[.event event plain], rfl⟩
    · cases event with
      | changes walker batch => exact ⟨[.changes walker batch], rfl⟩
      | frameLoad tab frame => exact heard _ (.frameLoad · frame) (fun _ _ => rfl) tab
      | documentUnload tab document => exact heard _ (.documentUnload · document) (fun _ _ => rfl) tab
      | _ => exact absurd trivial plain
  · exact ⟨[], rfl⟩

/-- A moment finds the site as others have left it. -/
structure Moment where
  site : Site
  happening : Happening

def pass (c : Connection) (m : Moment) : Connection := (happen ⟨m.site, c⟩ m.happening).conn

def Happening.asks (own : String) : Happening → Bool
  | .packet p => p.getString? "to" == some own && p.getString? "type" == some "getMutations"
  | _ => false

/-- The records of what a walker has observed, if the nodes concerned are known. -/
def produced (own : String) (s : Scene) (h : Happening) : List Mutation :=
  match s.walker? own with
  | none => []
  | some w =>
    match h with
    | .changes walker batch =>
      if walker = own then
        batch.filterMap (Walker.describe (s.site.dom w.host) s.site.prefs.valueSummaryLength w.known.get?)
      else []
    | .frameLoad walker frame =>
      if walker = own then ((w.known.get? frame).map fun target => .frameLoad target [] []).toList else []
    | .documentUnload walker document =>
      if walker = own then ((w.known.get? document).map .documentUnload).toList else []
    | _ => []

/-- What a moment means to a walker and its client. -/
structure Episode where
  /-- The records in the answer to a request for them. -/
  fetched : Option (List Json)
  produced : List Mutation
  /-- How many packets announce records. -/
  announced : Nat

def brought? (p : Json) : Option (List Json) := (p.get? "mutations").bind Json.items?

def episode (own : String) (c : Connection) (m : Moment) : Episode :=
  let said := (pass c m).sent.drop c.sent.length
  { fetched := if m.happening.asks own then said.findSome? brought? else none
    produced := produced own ⟨m.site, c⟩ m.happening
    announced := said.countP (Event.announces own) }

def episodes (own : String) (c : Connection) : List Moment → List Episode
  | [] => []
  | m :: rest => episode own c m :: episodes own (pass c m) rest

/-! ### One moment -/

/-- The queue of a walker before and after a moment: what is produced is queued and announced if
nothing was queued, or what is queued is fetched. -/
inductive Delivers (queue : List Mutation) : Episode → List Mutation → Prop
  | queues (records : List Mutation) :
      Delivers queue ⟨none, records, if queue.isEmpty && !records.isEmpty then 1 else 0⟩ (queue ++ records)
  | fetches : Delivers queue ⟨some (queue.map Mutation.toJson), [], 0⟩ []

theorem Delivers.idle (queue : List Mutation) : Delivers queue ⟨none, [], 0⟩ queue := by
  have nothing : Delivers queue ⟨none, [], _⟩ (queue ++ []) := .queues []
  simpa using nothing

theorem Delivers.told {queue queue' : List Mutation} {e : Episode} (delivers : Delivers queue e queue') :
    e.announced = if queue.isEmpty && !e.produced.isEmpty then 1 else 0 := by
  cases delivers with
  | queues records => rfl
  | fetches => simp

section

variable {own : String} {s t : Scene} {h : Happening} {said : List Json}

theorem episode_eq (sent : (happen s h).conn.sent = s.conn.sent ++ said) :
    episode own s.conn ⟨s.site, h⟩ =
      ⟨if h.asks own then said.findSome? brought? else none, produced own s h, said.countP (Event.announces own)⟩ := by
  have dropped : (pass s.conn ⟨s.site, h⟩).sent.drop s.conn.sent.length = said := by
    rw [pass, sent, List.drop_left]
  rw [episode, dropped]

def Beside (own : String) (h : Happening) (p : Json) : Prop :=
  Event.announces own p = false ∧ (h.asks own = true → brought? p = none)

/-- If a walker is there after a moment, it was there before, and its queue is what the moment makes of it. -/
def Delivered (own : String) (s : Scene) (h : Happening) : Prop :=
  own = "root" ∨ Registry.Named s.conn.id 0 s.conn.registry.next own →
    (happen s h).conn.registry.next ≤ UInt32.size → ∀ ⦃q⦄, (happen s h).queue? own = some q →
      ∃ q₀, s.queue? own = some q₀ ∧ Delivers q₀ (episode own s.conn ⟨s.site, h⟩) q

theorem delivers_idle (leaves : s.Leaves own (happen s h)) (speaks : s.Speaks (Beside own h) (happen s h))
    (nothing : produced own s h = []) : Delivered own s h := by
  intro given few q after
  obtain ⟨said, sent, each⟩ := speaks.sent
  refine ⟨q, leaves.queue?_eq given few after, ?_⟩
  have unannounced : said.countP (Event.announces own) = 0 := by
    rw [List.countP_eq_zero]
    intro p member
    simp [(each p member).1]
  have unfetched : (if h.asks own then said.findSome? brought? else none) = none := by
    split
    · rename_i asked
      exact List.findSome?_eq_none_iff.mpr fun p member => (each p member).2 asked
    · rfl
  rw [episode_eq sent, unfetched, nothing, unannounced]
  exact .idle q

/-- Records have been put to those of a walker, which is announced where there were none. -/
structure Queued (own : String) (before records : List Mutation) (s t : Scene) : Prop where
  id : t.conn.id = s.conn.id
  next : t.conn.registry.next = s.conn.registry.next
  queue : t.queue? own = some (before ++ records)
  sent : t.conn.sent = s.conn.sent ++
    if before.isEmpty && !records.isEmpty then [Event.announcement own] else []

theorem queue_queued {v w : WalkerActor} (live : s.find? own = some (.walker v)) (same : w.queue = v.queue)
    (up : s.conn.line = .up) (records : List Mutation) :
    Queued own v.queue records s ((Walker.queue own w records).after s) := by
  cases records with
  | nil => exact ⟨rfl, rfl, by simp [Walker.queue, Scene.queue?_of_walker live], by simp [Walker.queue]⟩
  | cons first rest =>
    let put (w : WalkerActor) : WalkerActor := { w with queue := w.queue ++ first :: rest }
    let mid := (Act.updateWalker own put).after s
    have queued : mid.queue? own = some (v.queue ++ first :: rest) := by
      refine Scene.queue?_of_walker (w := put v) ?_
      rw [Walker.after_updateWalker, live]
      simp
    have quiet : mid.conn.sent = s.conn.sent := rfl
    have done : (Walker.queue own w (first :: rest)).after s =
        if w.queue.isEmpty then mid.write (Event.announcement own) else mid := by
      unfold Walker.queue
      cases w.queue.isEmpty <;> rfl
    rw [done, same]
    cases empty : v.queue.isEmpty with
    | true =>
      have written := Request.write_eq (s := mid) (Event.announcement own) up
      rw [if_pos rfl, written]
      exact ⟨rfl, rfl, queued, by simp [empty, quiet]⟩
    | false => exact ⟨rfl, rfl, queued, by simp [empty, quiet]⟩

theorem announces_announcement (own : String) : Event.announces own (Event.announcement own) = true := by
  rw [Event.announcement, Event.announces_packet own (by simp)]
  simp

theorem delivers_queued {before records : List Mutation} {mid : Scene} (live : s.queue? own = some before)
    (queued : Queued own before records s mid) (leaves : mid.Leaves own (happen s h))
    (silent : mid.Silent (happen s h)) (unasked : h.asks own = false) (made : produced own s h = records) :
    Delivered own s h := by
  intro given few q after
  refine ⟨before, live, ?_⟩
  rw [← queued.id, ← queued.next] at given
  have kept := leaves.queue?_eq given few after
  cases Option.some.inj (kept.symm.trans queued.queue)
  rw [episode_eq (silent.sent.trans queued.sent), unasked, made]
  have counted : (if before.isEmpty && !records.isEmpty then [Event.announcement own] else []).countP
      (Event.announces own) = if before.isEmpty && !records.isEmpty then 1 else 0 := by
    split
    · simp [announces_announcement]
    · rfl
  rw [counted]
  exact .queues records

end

/-! ### Requests -/

def Untyped (act : Act Reply) : Prop := ∀ s, ∀ m ∈ act.result s, m.1 ≠ "type"

theorem Untyped.bind {α : Type} {x : Act α} {f : α → Act Reply} (each : ∀ a, Untyped (f a)) : Untyped (x >>= f) :=
  fun s => each (x.result s) (x.after s)

theorem Untyped.pure {reply : Reply} (keys : ∀ m ∈ reply, m.1 ≠ "type") : Untyped (pure reply) := fun _ => keys

theorem untyped_task {own method : String} {w : WalkerActor} {act : Act Reply}
    (task : Walker.Task own w method act) : Untyped act := by
  cases task with
  | tells node => exact .bind fun _ => .bind fun _ => .pure (by simp)
  | climbs nodes => exact .bind fun _ => .bind fun _ => .pure (by simp)
  | pages page => exact .bind fun _ => .bind fun _ => .pure (by simp)
  | queries found =>
    cases found with
    | none => exact .pure (by simp)
    | some found => exact .bind fun _ => .bind fun _ => .bind fun _ => .bind fun _ => .pure (by simp)
  | lists found => exact .bind fun _ => .pure (by simp)
  | releases name => exact .bind fun _ => .pure (by simp)
  | fetches cleanup => exact .bind fun _ => .pure (by simp)
  | leaves => exact .pure (by simp)

section

variable {own self : String} {s : Scene} {packet : Fields} {members : List (String × Json)}

theorem announces_reply (keys : ∀ m ∈ members, m.1 ≠ "from")
    (apart : self ≠ own ∨ ∀ m ∈ members, m.1 ≠ "type") :
    Event.announces own (Request.withId packet (.object (("from", .str self) :: members))) = false := by
  obtain ⟨answer, formed, read⟩ := Request.withId_object packet (("from", .str self) :: members)
  have sender : answer.get? "from" = some (.str self) := by
    rw [read, if_neg (by decide)]
    exact Fields.get?_ofList_cons _ keys
  rw [formed]
  rcases apart with other | untyped
  · simp [Event.announces, Json.getString?, Json.get?, Json.string?, sender, other]
  · have plain : answer.get? "type" = none := by
      rw [read, if_neg (by decide)]
      apply Fields.get?_ofList_eq_none
      intro m member
      rcases List.mem_cons.mp member with rfl | member
      · exact (by decide : "from" ≠ "type")
      · exact untyped m member
    simp [Event.announces, Json.getString?, Json.get?, plain]

theorem brought_refusal (r : Refusal) : brought? (Request.withId packet (r.packet self)) = none := by
  obtain ⟨answer, formed, read⟩ := Request.withId_object packet
    [("from", .str self), ("error", .str r.name), ("message", .str r.message)]
  have none_given : answer.get? "mutations" = none := by
    rw [read, if_neg (by decide)]
    simp [Fields.get?_ofList]
  have same : Request.withId packet (r.packet self) = .obj answer := formed
  rw [same]
  simp [brought?, Json.get?, none_given]

theorem asks_packet : Happening.asks own (.packet (.obj packet)) = true ↔
    packet.get? "to" = some (.str own) ∧ packet.get? "type" = some (.str "getMutations") := by
  simp [Happening.asks, Json.getString?, Json.get?, Request.string?_eq_some]

theorem taken_leaves {actor : Actor} {method : Method} {act : Act Reply}
    (taken : Request.Taken s packet self actor method act)
    (apart : self ≠ own ∨ (∀ w, actor ≠ .walker w) ∨ method.name ≠ "getMutations") : Act.Leaves own act := by
  have steps : Tending (Act.Leaves own) := Act.Leaves.tending
  have handled (empty : ∀ w, actor = .walker w →
      Act.Leaves own (Act.updateWalker self fun w => { w with queue := [] })) : Act.Leaves own act :=
    (Request.decide_answering Act.leaves_law (steps.handler s self actor empty) taken.decided).law
  rcases apart with other | other | other
  · exact handled fun _ _ => Act.Leaves.elsewhere other _
  · exact handled fun w is => absurd is (other w)
  · cases actor with
    | walker w =>
      exact (Walker.decide_answering (steps.walking self w.host) (fun _ => steps.register _ _ (by decide))
        (steps.releaseNode _ _) (fun asked => absurd asked other) taken.decided).law
    | _ => exact handled fun w is => nomatch is

theorem result_takeMutations (w : WalkerActor) (cleanup : Bool) (s : Scene) :
    (Walker.takeMutations own w cleanup).result s = w.queue := by
  cases cleanup <;> rfl

theorem produced_packet (packet : Json) : produced own s (.packet packet) = [] := by
  unfold produced
  split <;> rfl

theorem fetch_delivers {w : WalkerActor} {method : Method} {act : Act Reply}
    (taken : Request.Taken s packet own (.walker w) method act) (fetch : method.name = "getMutations")
    (left : happen s (.packet (.obj packet)) =
      let written := (act.after s).write (Request.withId packet (.object (("from", .str own) :: act.result s)))
      if method.release then written.release own else written)
    (up : s.conn.line = .up) (given : own = "root" ∨ Registry.Named s.conn.id 0 s.conn.registry.next own)
    (few : (happen s (.packet (.obj packet))).Few) {q : List Mutation}
    (after : (happen s (.packet (.obj packet))).queue? own = some q) :
    Delivers w.queue (episode own s.conn ⟨s.site, .packet (.obj packet)⟩) q := by
  obtain ⟨cleanup, made⟩ : ∃ cleanup, act = (do
      let records ← Walker.takeMutations own w cleanup
      return [("mutations", .arr (records.map Mutation.toJson))]) := by
    have decided := taken.decided
    rw [fetch] at decided
    cases decided
    exact ⟨_, rfl⟩
  let mid := (Act.updateWalker own fun w => { w with queue := [] }).after s
  have emptied : mid.queue? own = some [] := by
    refine Scene.queue?_of_walker (w := { w with queue := [] }) ?_
    rw [Walker.after_updateWalker, taken.live]
    simp
  have leaves : mid.Leaves own (happen s (.packet (.obj packet))) := by
    rw [left]
    refine Scene.Leaves.trans ?_ (.reply _ _)
    rw [made, Walker.takeMutations_eq]
    exact Act.Leaves.tending.deeds.dropOrphans own w cleanup mid trivial
  have nothing : q = [] := Option.some.inj ((leaves.queue?_eq given few after).symm.trans emptied)
  have sent := taken.sent up
  dsimp only at left sent
  rw [← left] at sent
  have asked : Happening.asks own (.packet (.obj packet)) = true := by
    obtain ⟨type, typed, found⟩ := taken.checked
    have named : method.name = type := by simpa using List.find?_some found
    exact asks_packet.mpr ⟨taken.addressed, by rw [typed, ← named, fetch]⟩
  obtain ⟨answer, formed, read⟩ := Request.withId_object packet
    [("from", .str own), ("mutations", .arr (w.queue.map Mutation.toJson))]
  have brought : brought? (.obj answer) = some (w.queue.map Mutation.toJson) := by
    have member : answer.get? "mutations" = some (.arr (w.queue.map Mutation.toJson)) := by
      rw [read, if_neg (by decide)]
      simp [Fields.get?_ofList]
    simp [brought?, Json.get?, member, Json.items?]
  have reply : act.result s = [("mutations", .arr (w.queue.map Mutation.toJson))] := by
    rw [made, Act.result_bind, result_takeMutations]
    rfl
  have quiet : Event.announces own (.obj answer) = false := by
    rw [← formed]
    exact announces_reply (by simp) (.inr (by simp))
  rw [reply, formed] at sent
  rw [episode_eq sent, asked, produced_packet, nothing]
  simp only [if_true, List.findSome?_cons, brought, List.countP_cons, quiet]
  exact .fetches

theorem receive_delivers (packet : Json) (up : s.conn.line = .up) : Delivered own s (.packet packet) := by
  have idle (leaves : s.Leaves own (happen s (.packet packet)))
      (speaks : s.Speaks (Beside own (.packet packet)) (happen s (.packet packet))) :=
    delivers_idle leaves speaks (produced_packet packet)
  cases packet with
  | obj packet =>
    have handled : happen s (.packet (.obj packet)) = (Request.handle s packet).1 := Request.receive_eq packet up
    rcases (Request.handle_cases s packet up).2 with ⟨self, r, left⟩ | ⟨self, actor, method, act, taken, left⟩
    · rw [← handled] at left
      rw [left] at idle
      refine idle (.write s _) (.write ⟨?_, fun _ => brought_refusal r⟩)
      exact announces_reply (by simp) (.inr (by simp))
    · rw [← handled] at left
      have keys := (Request.decide_answering Act.silent_law (Act.Silent.steps s self actor) taken.decided).keys s
      have silent := (Request.decide_answering Act.silent_law (Act.Silent.steps s self actor) taken.decided).law
        s trivial
      obtain ⟨type, typed, found⟩ := taken.checked
      have named : method.name = type := by simpa using List.find?_some found
      -- a request that is no fetch from this walker, and a reply that cannot be taken for its announcement
      have apart (leaves : Act.Leaves own act) (other : self ≠ own ∨ method.name ≠ "getMutations")
          (untyped : self ≠ own ∨ ∀ m ∈ act.result s, m.1 ≠ "type") := by
        rw [left] at idle
        refine idle ((leaves s trivial).trans (.reply _ _)) ((Scene.Speaks.of_silent silent).trans (.reply ?_ _))
        refine ⟨announces_reply (fun m member => (keys m member).1) untyped, fun asked => ?_⟩
        obtain ⟨addressed, fetching⟩ := asks_packet.mp asked
        rcases other with other | other
        · cases taken.addressed.symm.trans addressed
          exact absurd rfl other
        · cases typed.symm.trans fetching
          exact absurd named other
      by_cases here : self = own
      · subst here
        cases actor with
        | walker w =>
          by_cases fetch : method.name = "getMutations"
          · intro given few q after
            exact ⟨w.queue, Scene.queue?_of_walker taken.live, fetch_delivers taken fetch left up given few after⟩
          · exact apart (taken_leaves taken (.inr (.inr fetch))) (.inr fetch)
              (.inr (untyped_task (Walker.decide_task taken.decided) s))
        | _ =>
          -- a walker that is there afterwards was there before
          intro given few q after
          have leaves : s.Leaves self (act.after s) :=
            taken_leaves taken (.inr (.inl fun w is => by cases is)) s trivial
          rw [left] at few after
          have before := (leaves.trans (.reply _ _)).queue?_eq given few after
          rw [Scene.queue?, taken.live] at before
          cases before
      · exact apart (taken_leaves taken (.inl here)) (.inl here) (.inl here)
  | _ => exact idle (.refl s) (.of_silent (.refl s))

end

/-! ### Any moment -/

section

variable {own : String} {s : Scene}

theorem beside_told {h : Happening} (unasked : h.asks own = false) (sender : String) {type : String}
    {members : List (String × Json)} (other : type ≠ Event.news) (keys : ∀ m ∈ members, Event.Key m.1) :
    Beside own h (Event.packet sender type members) := by
  refine ⟨?_, fun asked => ?_⟩
  · rw [Event.announces_packet own keys]
    simp [other]
  · rw [unasked] at asked
    cases asked

theorem beside_announcement {h : Happening} (unasked : h.asks own = false) {walker : String} (other : walker ≠ own) :
    Beside own h (Event.announcement walker) := by
  refine ⟨?_, fun asked => ?_⟩
  · rw [Event.announcement, Event.announces_packet own (by simp)]
    simp [other]
  · rw [unasked] at asked
    cases asked

theorem produced_of_absent (h : Happening) (absent : s.walker? own = none) : produced own s h = [] := by
  simp [produced, absent]

theorem delivers_same {h : Happening} (same : happen s h = s) (nothing : produced own s h = []) :
    Delivered own s h := by
  refine delivers_idle ?_ ?_ nothing
  · rw [same]
    exact .refl s
  · rw [same]
    exact .of_silent (.refl s)

theorem changes_queued {w : WalkerActor} (live : s.find? own = some (.walker w)) (up : s.conn.line = .up)
    (batch : List Dom.Change) :
    Queued own w.queue (produced own s (.changes own batch)) s (happen s (.changes own batch)) := by
  have walker := Scene.walker?_eq_some.mpr live
  obtain ⟨recorded, described⟩ :=
    Walker.records_recorded (s.site.dom w.host) s.site.prefs.valueSummaryLength w batch
  revert recorded described
  cases made : Walker.records (s.site.dom w.host) s.site.prefs.valueSummaryLength w batch with
  | mk w' found =>
    intro recorded described
    have done : happen s (.changes own batch) =
        (Walker.queue own w' found).after ((Act.updateWalker own fun _ => w').after s) := by
      rw [happen, Walker.onChanges, Act.after_get_bind, walker]
      dsimp only
      rw [made, Act.after_bind]
    have there : ((Act.updateWalker own fun _ => w').after s).find? own = some (.walker w') := by
      rw [Walker.after_updateWalker, live]
      simp
    have queued := queue_queued there rfl up found
    have observed : produced own s (.changes own batch) = found := by
      simp only [produced, walker, if_true]
      exact described.symm
    rw [done, observed, ← recorded.queue]
    exact ⟨queued.id, queued.next, queued.queue, queued.sent⟩

theorem changes_delivers (walker : String) (batch : List Dom.Change) (up : s.conn.line = .up) :
    Delivered own s (.changes walker batch) := by
  by_cases here : walker = own
  · subst here
    cases found : s.walker? walker with
    | none =>
      refine delivers_same ?_ (produced_of_absent _ found)
      rw [happen, Walker.onChanges, Act.after_bind, Act.result_get, found]
      rfl
    | some w =>
      have live := Scene.walker?_eq_some.mp found
      exact delivers_queued (Scene.queue?_of_walker live) (changes_queued live up batch) (.refl _) (.refl _)
        rfl rfl
  · refine delivers_idle (Act.Leaves.onChanges here batch s trivial)
      (Act.Speaks.onChanges (beside_announcement rfl here) batch s trivial) ?_
    unfold produced
    split <;> simp [here]

theorem frameLoad_delivers (walker : String) (frame : NodeId) (up : s.conn.line = .up) :
    Delivered own s (.frameLoad walker frame) := by
  by_cases here : walker = own
  · subst here
    cases found : s.walker? walker with
    | none =>
      refine delivers_same ?_ (produced_of_absent _ found)
      simp [happen, Walker.onFrameLoad, found]
    | some w =>
      have live := Scene.walker?_eq_some.mp found
      cases known : w.known.get? frame with
      | none =>
        refine delivers_same ?_ ?_
        · simp [happen, Walker.onFrameLoad, found, known]
        · simp [produced, found, known]
      | some target =>
        have queued := queue_queued live rfl up [.frameLoad target [] []]
        have done : happen s (.frameLoad walker frame) =
            (Walker.queue walker w [.frameLoad target [] []]).after s := by
          simp [happen, Walker.onFrameLoad, found, known]
        rw [← done] at queued
        exact delivers_queued (Scene.queue?_of_walker live) queued (.refl _) (.refl _) rfl
          (by simp [produced, found, known])
  · refine delivers_idle (Act.Leaves.onFrameLoad here frame s trivial)
      (Act.Speaks.onFrameLoad (beside_announcement rfl here) frame s trivial) ?_
    unfold produced
    split <;> simp [here]

theorem documentUnload_delivers (walker : String) (document : NodeId) (up : s.conn.line = .up) :
    Delivered own s (.documentUnload walker document) := by
  by_cases here : walker = own
  · subst here
    cases found : s.walker? walker with
    | none =>
      refine delivers_same ?_ (produced_of_absent _ found)
      rw [happen, Walker.onDocumentUnload, Act.after_bind, Act.result_get, found]
      rfl
    | some w =>
      have live := Scene.walker?_eq_some.mp found
      cases known : w.known.get? document with
      | none =>
        refine delivers_same ?_ ?_
        · rw [happen, Walker.onDocumentUnload, Act.after_bind, Act.result_get, found]
          dsimp only
          rw [known]
          rfl
        · simp [produced, found, known]
      | some target =>
        have queued := queue_queued live rfl up [.documentUnload target]
        have done : happen s (.documentUnload walker document) =
            (Walker.releaseNode walker w.host target).after
              ((Walker.queue walker w [.documentUnload target]).after s) := by
          rw [happen, Walker.onDocumentUnload, Act.after_get_bind, found]
          dsimp only
          rw [known, Act.after_bind]
        refine delivers_queued (Scene.queue?_of_walker live) queued ?_ ?_ rfl
          (by simp [produced, found, known])
        · rw [done]
          exact Act.Leaves.tending.releaseNode _ _ _ _ trivial
        · rw [done]
          exact Act.Silent.tending.releaseNode _ _ _ _ trivial
  · refine delivers_idle (Act.Leaves.onDocumentUnload here document s trivial)
      (Act.Speaks.onDocumentUnload (beside_announcement rfl here) document s trivial) ?_
    unfold produced
    split <;> simp [here]

theorem happen_delivers (h : Happening) (up : s.conn.line = .up) : Delivered own s h := by
  have following : Following (Act.Leaves own) := Act.Leaves.following
  cases h with
  | packet packet => exact receive_delivers packet up
  | looked tab =>
    have speaking : Following (Act.Speaks (Beside own (.looked tab))) :=
      Act.Speaks.following (beside_told rfl)
    exact delivers_idle (following.walkers s tab s trivial) (speaking.walkers s tab s trivial)
      (by unfold produced; split <;> rfl)
  | event event plain =>
    have speaking : Following (Act.Speaks (Beside own (.event event plain))) :=
      Act.Speaks.following (beside_told rfl)
    exact delivers_idle (following.follow s plain s trivial) (speaking.follow s plain s trivial)
      (by unfold produced; split <;> rfl)
  | entered tracer frame =>
    have speaking : Following (Act.Speaks (Beside own (.entered tracer frame))) :=
      Act.Speaks.following (beside_told rfl)
    exact delivers_idle (following.onEnter tracer frame s trivial) (speaking.onEnter tracer frame s trivial)
      (by unfold produced; split <;> rfl)
  | left tracer completion =>
    have speaking : Following (Act.Speaks (Beside own (.left tracer completion))) :=
      Act.Speaks.following (beside_told rfl)
    exact delivers_idle (following.onPop tracer completion s trivial)
      (speaking.onPop tracer completion s trivial) (by unfold produced; split <;> rfl)
  | changes walker batch => exact changes_delivers walker batch up
  | frameLoad walker frame => exact frameLoad_delivers walker frame up
  | documentUnload walker document => exact documentUnload_delivers walker document up

theorem happen_stands (h : Happening) (up : s.conn.line = .up) :
    (happen s h).conn.line = .up ∧ (happen s h).conn.id = s.conn.id ∧
      s.conn.registry.next ≤ (happen s h).conn.registry.next := by
  have speaking : Following (Act.Speaks fun _ => True) := Act.Speaks.following fun _ _ _ _ _ => trivial
  have stable := Registry.stable_true 1
  cases h with
  | packet packet =>
    cases packet with
    | obj packet =>
      have handled : happen s (.packet (.obj packet)) = (Request.handle s packet).1 :=
        Request.receive_eq packet up
      have orderly := Request.handle_orderly s packet
      rw [handled]
      refine ⟨?_, orderly.id, orderly.later⟩
      have speaks : s.Speaks (fun _ => True) (Request.handle s packet).1 :=
        Request.handle_says s packet (fun _ _ => trivial) fun _ => trivial
      exact speaks.line.trans up
    | _ => exact ⟨up, rfl, Nat.le_refl _⟩
  | looked tab =>
    have orderly := Act.Orderly.walkers stable s tab s trivial
    exact ⟨(speaking.walkers s tab s trivial).line.trans up, orderly.id, orderly.later⟩
  | changes walker batch =>
    have orderly := Act.Orderly.onChanges stable walker batch s trivial
    have speaks : s.Speaks (fun _ => True) ((Walker.onChanges walker batch).after s) :=
      Act.Speaks.onChanges trivial batch s trivial
    exact ⟨speaks.line.trans up, orderly.id, orderly.later⟩
  | frameLoad walker frame =>
    have orderly := Act.Orderly.onFrameLoad stable walker frame s trivial
    have speaks : s.Speaks (fun _ => True) ((Walker.onFrameLoad walker frame).after s) :=
      Act.Speaks.onFrameLoad trivial frame s trivial
    exact ⟨speaks.line.trans up, orderly.id, orderly.later⟩
  | documentUnload walker document =>
    have orderly := Act.Orderly.onDocumentUnload stable (by decide) walker document s trivial
    have speaks : s.Speaks (fun _ => True) ((Walker.onDocumentUnload walker document).after s) :=
      Act.Speaks.onDocumentUnload trivial document s trivial
    exact ⟨speaks.line.trans up, orderly.id, orderly.later⟩
  | event event plain =>
    have orderly := follow_orderly s event
    exact ⟨(speaking.follow s plain s trivial).line.trans up, orderly.id, orderly.later⟩
  | entered tracer frame =>
    have later := report_later s tracer "enteredFrame" fun site t => Tracer.entered site t frame
    exact ⟨(speaking.onEnter tracer frame s trivial).line.trans up, later.id, later.later⟩
  | left tracer completion =>
    have later := report_later s tracer "exitedFrame" fun site t => Tracer.exited site t completion
    exact ⟨(speaking.onPop tracer completion s trivial).line.trans up, later.id, later.later⟩

end

/-! ### Moment after moment -/

section

variable {own : String} {c : Connection}

/-- The line of a connection is up, and a name has been given, if it is not that of the root. -/
def Standing (own : String) (c : Connection) : Prop :=
  c.line = .up ∧ (own = "root" ∨ Registry.Named c.id 0 c.registry.next own)

theorem Standing.pass (standing : Standing own c) (m : Moment) :
    Standing own (pass c m) ∧ c.registry.next ≤ (Serve.pass c m).registry.next := by
  obtain ⟨up, id, later⟩ := happen_stands (s := ⟨m.site, c⟩) m.happening standing.1
  refine ⟨⟨up, standing.2.imp_right fun named => ?_⟩, later⟩
  rw [Serve.pass, id]
  exact named.widen (Nat.le_refl 0) later

theorem Standing.run (standing : Standing own c) (moments : List Moment) :
    Standing own (moments.foldl Serve.pass c) ∧ c.registry.next ≤ (moments.foldl Serve.pass c).registry.next := by
  induction moments generalizing c with
  | nil => exact ⟨standing, Nat.le_refl _⟩
  | cons m rest ih =>
    obtain ⟨next, later⟩ := standing.pass m
    obtain ⟨last, later'⟩ := ih next
    exact ⟨last, Nat.le_trans later later'⟩

def waiting? (own : String) (c : Connection) : Option (List Mutation) :=
  (c.registry.find? own).bind Actor.queue?

theorem walker_of_waiting {q : List Mutation} (found : waiting? own c = some q) :
    ∃ w, c.registry.find? own = some (.walker w) ∧ w.queue = q := by
  unfold waiting? at found
  cases live : c.registry.find? own with
  | none => simp [live] at found
  | some actor =>
    cases actor with
    | walker w => exact ⟨w, rfl, by simpa [live, Actor.queue?] using found⟩
    | _ => simp [live, Actor.queue?] at found

inductive Deliveries : List Mutation → List Episode → List Mutation → Prop
  | nil (q : List Mutation) : Deliveries q [] q
  | cons {q q' q'' : List Mutation} {e : Episode} {rest : List Episode} :
      Delivers q e q' → Deliveries q' rest q'' → Deliveries q (e :: rest) q''

namespace Deliveries

variable {q q' : List Mutation} {es es' : List Episode}

theorem conserve (run : Deliveries q es q') :
    es.flatMap (fun e => e.fetched.getD []) ++ q'.map Mutation.toJson =
      (q ++ es.flatMap (·.produced)).map Mutation.toJson := by
  induction run with
  | nil q => simp
  | cons first _ ih =>
    cases first with
    | queues records => simpa [List.append_assoc] using ih
    | fetches => simpa using ih

theorem split (run : Deliveries q (es ++ es') q') : ∃ mid, Deliveries q es mid ∧ Deliveries mid es' q' := by
  induction es generalizing q with
  | nil => exact ⟨q, .nil q, run⟩
  | cons e rest ih =>
    cases run with
    | cons first others =>
      obtain ⟨mid, before, after⟩ := ih others
      exact ⟨mid, .cons first before, after⟩

theorem announced (run : Deliveries q es q') (unfetched : ∀ e ∈ es, e.fetched = none) :
    (es.map (·.announced)).sum = if q.isEmpty && !(es.flatMap (·.produced)).isEmpty then 1 else 0 := by
  induction run with
  | nil q => simp
  | cons first _ ih =>
    have later := ih fun e member => unfetched e (List.mem_cons_of_mem _ member)
    cases first with
    | queues records =>
      rw [List.map_cons, List.sum_cons, later, List.flatMap_cons]
      cases q <;> cases records <;> simp
    | fetches => cases unfetched _ List.mem_cons_self

end Deliveries

theorem episodes_deliver (moments : List Moment) (standing : Standing own c)
    (few : (moments.foldl pass c).Few) {q : List Mutation}
    (last : waiting? own (moments.foldl pass c) = some q) :
    ∃ q₀, waiting? own c = some q₀ ∧ Deliveries q₀ (episodes own c moments) q := by
  induction moments generalizing c with
  | nil => exact ⟨q, last, .nil q⟩
  | cons m rest ih =>
    have next := (standing.pass m).1
    obtain ⟨q', here, others⟩ := ih next few last
    have few' : (pass c m).Few := Nat.le_trans (next.run rest).2 few
    obtain ⟨q₀, before, first⟩ := happen_delivers (s := ⟨m.site, c⟩) m.happening standing.1 standing.2 few' here
    exact ⟨q₀, before, .cons first others⟩

end

/-- The records of a walker that is there over a number of moments, whatever they bring. Those in the
answers to successive requests for them, with those that still wait, are those that waited and those that
were produced, each once and in order. A moment announces records exactly once if it puts records to an
empty queue, and not at all otherwise; so from one answer to the next there is one announcement if any
record was produced, and none if not. The events of a tab are moments too (`onEvent_happens`). -/
theorem mutations_delivered {c : Connection} (begun : Begun c) (past : List Turn) (moments : List Moment)
    {own : String} {w w' : WalkerActor} (up : (past.foldl take c).line = .up)
    (live : (past.foldl take c).registry.find? own = some (.walker w))
    (live' : (moments.foldl pass (past.foldl take c)).registry.find? own = some (.walker w'))
    (few : (moments.foldl pass (past.foldl take c)).registry.next ≤ UInt32.size) :
    let now := past.foldl take c
    let history := episodes own now moments
    history.flatMap (fun e => e.fetched.getD []) ++ w'.queue.map Mutation.toJson =
      (w.queue ++ history.flatMap (·.produced)).map Mutation.toJson ∧
    (∀ first m rest, moments = first ++ m :: rest →
      ∃ v, (first.foldl pass now).registry.find? own = some (.walker v) ∧
        (episode own (first.foldl pass now) m).announced =
          if v.queue.isEmpty && !(episode own (first.foldl pass now) m).produced.isEmpty then 1 else 0) ∧
    ∀ first fetch between rest, history = first ++ fetch :: (between ++ rest) → fetch.fetched.isSome →
      (∀ e ∈ between, e.fetched = none) →
      (between.map (·.announced)).sum = if (between.flatMap (·.produced)).isEmpty then 0 else 1 := by
  intro now history
  have later := foldl_take_later c past
  have rooted : Standing "root" now := ⟨up, .inl rfl⟩
  have few_now : now.Few := Nat.le_trans (rooted.run moments).2 few
  have sound := (later.sound few_now (sound_of_begun begun (Nat.le_trans later.later few_now))).1
  have standing : Standing own now := ⟨up, sound.valid.name_given (Registry.has_of_find? live).mem_names⟩
  have last : waiting? own (moments.foldl pass now) = some w'.queue := by
    simp [waiting?, now, live', Actor.queue?]
  obtain ⟨q, start, run⟩ := episodes_deliver moments standing few last
  have same : q = w.queue := by simpa [waiting?, now, live, Actor.queue?] using start.symm
  subst same
  refine ⟨run.conserve, ?_, ?_⟩
  · intro first m rest split
    subst split
    rw [List.foldl_append, List.foldl_cons] at few last
    have here := (standing.run first).1
    have next := (here.pass m).1
    obtain ⟨q', after, -⟩ := episodes_deliver rest next few last
    obtain ⟨q, before, delivers⟩ := happen_delivers (s := ⟨m.site, first.foldl pass now⟩) m.happening here.1 here.2
      (Nat.le_trans (next.run rest).2 few) after
    obtain ⟨v, found, rfl⟩ := walker_of_waiting before
    exact ⟨v, found, delivers.told⟩
  · intro first fetch between rest split answered unfetched
    have run : Deliveries w.queue (first ++ fetch :: (between ++ rest)) w'.queue := split ▸ run
    obtain ⟨mid, -, run⟩ := run.split
    cases run with
    | cons fetched run =>
      cases fetched with
      | queues records => cases answered
      | fetches =>
        -- nothing waits after an answer
        obtain ⟨last, run, -⟩ := run.split
        rw [run.announced unfetched]
        cases (between.flatMap (·.produced)).isEmpty <;> rfl

/-- A batch of which one change is known, then a frame that has loaded: the client is told once and
fetches both records. -/
theorem mutations_delivered_twice : ∃ (c : Connection) (past : List Turn) (moments : List Moment),
    Begun c ∧ (past.foldl take c).line = .up ∧
    ((episodes "conn0.domwalker5" (past.foldl take c) moments).map (·.announced)).sum = 1 ∧
    (episodes "conn0.domwalker5" (past.foldl take c) moments).flatMap (fun e => e.fetched.getD []) =
      [Mutation.childList "conn0.domnode6" [] [] 1, .frameLoad "conn0.domnode6" [] []].map Mutation.toJson := by
  let known : WalkerActor := { host := "host", root := 1, known := [(1, "conn0.domnode6")] }
  have fetched (c : Connection) (past : List Turn) (moments : List Moment) (begun : Begun c)
      (up : (past.foldl take c).line = .up)
      (live : Scene.walker? ⟨{}, past.foldl take c⟩ "conn0.domwalker5" = some known)
      (live' : Scene.walker? ⟨{}, moments.foldl pass (past.foldl take c)⟩ "conn0.domwalker5" = some known)
      (few : (moments.foldl pass (past.foldl take c)).registry.next ≤ UInt32.size) :
      (episodes "conn0.domwalker5" (past.foldl take c) moments).flatMap (fun e => e.fetched.getD []) =
        ((episodes "conn0.domwalker5" (past.foldl take c) moments).flatMap (·.produced)).map Mutation.toJson := by
    have delivered := mutations_delivered begun past moments up (Scene.walker?_eq_some.mp live)
      (Scene.walker?_eq_some.mp live') few
    simpa [known] using delivered.1
  let site := onePage pair
  let past : List Turn := [⟨site, .packet (.obj (request "conn0.inspector1" "getWalker" []))⟩]
  let moments : List Moment :=
    [⟨site, .changes "conn0.domwalker5" [.childList 1 [2] [], .characterData 2]⟩,
      ⟨site, .frameLoad "conn0.domwalker5" 1⟩, ⟨site, .packet (.obj (request "conn0.domwalker5" "getMutations" []))⟩]
  let c := joined site
  have begun : Begun c := begun_joined site
  have observed : (episodes "conn0.domwalker5" (past.foldl take c) moments).flatMap (·.produced) =
      [.childList "conn0.domnode6" [] [] 1, .frameLoad "conn0.domnode6" [] []] := by decide +kernel
  have up : (past.foldl take c).line = .up := by decide +kernel
  refine ⟨c, past, moments, begun, up, ?_, observed ▸ fetched c past moments begun up ?_ ?_ ?_⟩
  · decide +kernel
  · decide +kernel
  · decide +kernel
  · decide +kernel

end Serve

end RemoteInspector
