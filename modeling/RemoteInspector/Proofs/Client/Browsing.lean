import RemoteInspector.Proofs.Client.Asking
import RemoteInspector.Proofs.Client.Upkeep
/-!
Browsing a document: whatever a client asks for and lets go, its tree hangs together up to the root document.
-/
namespace RemoteInspector

/-! ### A new walker -/

namespace Walker

variable {d : Dom} {s : Scene} {owner host : String}

theorem register_learns (dom : s.site.dom host = d) (wf : d.WellFormed) (valid : s.Valid)
    (above : s.conn.registry.Above 3 owner) (bare : ∀ x a, s.find? x ≠ some (.node a))
    (few : ((register owner host).after s).Few) :
    let own := s.conn.registry.newName s.conn.id "domwalker"
    let made := (Act.register "domwalker" owner (.walker { host := host, root := d.root })).after s
    ∃ w, Learns own [d.root] made ((register owner host).after s) { host := host, root := d.root } w ∧
      Ready d w d.root ∧ (register owner host).result s =
        (own, .object [("actor", .str own), ("root", (formOf made w d.root).toJson)]) := by
  intro own made
  have steps := orderly_steps own host
  have split : (register owner host).after s =
      (form (some ((ref own host d.root).result made))).after ((ref own host d.root).after made) := by
    subst dom
    rfl
  have few' : ((ref own host d.root).after made).Few := by
    refine Nat.le_trans ?_ few
    rw [split]
    exact (steps.optionalForm _ _ trivial).later
  have few₁ : made.Few := Nat.le_trans (steps.ref _ made trivial).later few'
  have kind : "domwalker" ∈ Registry.kinds := by decide
  have orderly : Act.Orderly 3 (fun r => Registry.Above r 3 owner)
      (Act.register "domwalker" owner (.walker { host := host, root := d.root })) :=
    .register kind (Nat.le_refl 3) (fun _ => id) rfl rfl
  have fresh := Scene.find?_newName valid few₁ kind
  have find := Scene.find?_register owner (.walker { host := host, root := d.root }) fresh
  have holds : Holds made own { host := host, root := d.root } := by
    refine ⟨((orderly s trivial).follows few₁ valid above).valid, ?_, ?_, ?_⟩
    · exact (find own).trans (if_pos rfl)
    · exact fun known => nomatch known
    · intro x a found
      rw [find] at found
      split at found
      · cases found
      · exact absurd found (bare x a)
  obtain ⟨w, learns, known⟩ := ref_learns holds rfl d.root few'
  have ready : Ready d w d.root := (Firm.root wf ⟨_, known⟩).ready
  obtain ⟨after, result⟩ := form?_known (learns.dom_eq dom) wf learns.holds ready known
  have told : (form (some ((ref own host d.root).result made))).after
      ((ref own host d.root).after made) = (ref own host d.root).after made := after
  refine ⟨w, ?_, ready, ?_⟩
  · rw [split, told]
    exact learns
  · have whole : (register owner host).result s = (own, .object [("actor", .str own),
        ("root", (form (some ((ref own host d.root).result made))).result
          ((ref own host d.root).after made))]) := by
      subst dom
      rfl
    rw [whole, form, Act.result_bind, result, formOf_unmoved learns.unmoved]
    rfl

end Walker

theorem Inspector.decide_getWalker {s : Scene} {self : String} {i : InspectorActor} {act : Act Reply}
    (decided : Inspector.decide self i "getWalker" = .ok act) :
    let made := Walker.register self i.host
    act.after s = (made.after s).update self (Actor.setWalkers (· ++ [(made.result s).1])) ∧
      act.result s = [("walker", (made.result s).2)] := by
  cases decided
  exact ⟨rfl, rfl⟩

/-- The number of names that the server has given out over a link. -/
def Link.names (l : Link ServerEnd) : Nat :=
  (l.peer.server.connection? l.peer.connection).elim 0 (·.registry.next)

theorem Link.names_congr {l l' : Link ServerEnd} (same : l'.peer = l.peer) : l'.names = l.names := by
  rw [Link.names, Link.names, same]

theorem Link.Quiet.names_eq {l : Link ServerEnd} {s : Scene} (quiet : l.Quiet s) : l.names = s.conn.registry.next := by
  rw [Link.names, quiet.conn, Option.elim_some]

theorem Link.Quiet.subscribe {l : Link ServerEnd} {s : Scene} (quiet : l.Quiet s) (actor : String) :
    Link.Quiet { l with client := (l.client.subscribe actor).1 } s :=
  ⟨quiet.conn, quiet.site, quiet.isOpen, quiet.up, quiet.sent, quiet.mail, quiet.listening⟩

/-- A link on which no node is known yet, with an inspector for a well-formed document. -/
structure Link.Fresh (l : Link ServerEnd) (s : Scene) (inspector : String) (d : Dom) : Prop where
  quiet : l.Quiet s
  history : ∃ (c : Connection) (turns : List Serve.Turn), Serve.Begun c ∧ s.conn = turns.foldl Serve.take c
  live : ∃ i, s.find? inspector = some (.inspector i) ∧ s.site.dom i.host = d
  wf : d.WellFormed
  nodes : ∀ x a, s.find? x ≠ some (.node a)
  lists : ∀ x l, s.find? x ≠ some (.nodeList l)

theorem Link.Fresh.valid {l : Link ServerEnd} {s : Scene} {inspector : String} {d : Dom}
    (start : l.Fresh s inspector d) (few : s.Few) : s.Valid := by
  obtain ⟨c, turns, begun, same⟩ := start.history
  have later := Serve.foldl_take_later c turns
  unfold Scene.Few at few
  unfold Scene.Valid
  rw [same] at few ⊢
  exact (later.sound few (Serve.sound_of_begun begun (Nat.le_trans later.later few))).1.valid

namespace WalkerFront

variable {d : Dom} {l : Link ServerEnd} {s : Scene} {inspector : String}

theorem ofInspector_eq (inspector : String) : (ofInspector inspector : Calling ServerEnd WalkerFront) =
    (Front.call ⟨inspector, Schema.inspector⟩ "getWalker" [] >>= fun reply =>
      match Fields.get? reply "walker" with
      | none => throw (.malformed .noWalker)
      | some form => ofForm form) := by
  exact Eq.refl _

/-- What is left to do for a front once its channel is there. -/
def finish (form : Json) (front : Front) (channel : ChannelId) : Calling ServerEnd WalkerFront :=
  match (form.get? "root").filter Json.isObject with
  | none => return { front := front, channel := channel }
  | some root =>
    match KnownTree.read {} root with
    | .ok (tree, name) =>
      return { front := front, channel := channel, tree := { tree with root := some name } }
    | .error e => do
        Calling.client (·.dropChannel channel)
        throw e

theorem ofForm_eq (form : Json) : (ofForm form : Calling ServerEnd WalkerFront) =
    (liftM (Front.ofForm form "domwalker") >>= fun front =>
      Calling.take (·.subscribe front.actor) >>= finish form front) :=
  rfl

theorem peer_ofForm (form : Json) (l : Link ServerEnd) :
    (Trial.after (ofForm form : Calling ServerEnd WalkerFront) l).peer = l.peer := by
  rw [ofForm_eq]
  cases made : Front.ofForm form "domwalker" with
  | error e => rfl
  | ok front =>
    have taken : Trial.result (Calling.take (·.subscribe front.actor) : Calling ServerEnd ChannelId) l =
        .ok l.client.channels.length := rfl
    change (Trial.after (Calling.take (·.subscribe front.actor) >>= finish form front) l).peer = _
    rw [(Trial.bind_ok taken).2]
    unfold finish
    split
    · rfl
    · split <;> rfl

/-- The front of a new walker, whose client has the root document alone. -/
def opened (own : String) (channel : ChannelId) (root : NodeForm) : WalkerFront where
  front := ⟨own, Schema.walker⟩
  channel := channel
  tree := KnownTree.opened (some root)

theorem trial_ofForm (own : String) {root : NodeForm} (readable : NodeForm.ofJson? root.toJson = some root)
    (l : Link ServerEnd) :
    let act : Calling ServerEnd WalkerFront := ofForm (.object [("actor", .str own), ("root", root.toJson)])
    (∃ channel, Trial.result act l = .ok (opened own channel root)) ∧
    Trial.after act l = { l with client := (l.client.subscribe own).1 } := by
  intro act
  have read : KnownTree.read {} root.toJson = .ok (KnownTree.readForm {} root, root.actor) := by
    rw [KnownTree.read, readable]
  let form : Json := .object [("actor", .str own), ("root", root.toJson)]
  have object : (form.get? "root").filter Json.isObject = some root.toJson := by
    simp [form, Json.object, Json.get?, Fields.get?_ofList, NodeForm.toJson, Json.isObject]
  have actor : form.getString? "actor" = some own := by
    simp [form, Json.getString?, Json.object, Json.get?, Fields.get?_ofList, Json.string?]
  have named : Front.ofForm form "domwalker" = .ok ⟨own, Schema.walker⟩ := by
    rw [Front.ofForm, actor]
    rfl
  have finished (channel : ChannelId) : finish form ⟨own, Schema.walker⟩ channel = pure (opened own channel root) := by
    simp only [finish, object, read]
    rfl
  have first : Trial.result (liftM (Front.ofForm form "domwalker") : Calling ServerEnd Front) l =
      .ok ⟨own, Schema.walker⟩ := named
  have second : Trial.result (Calling.take (·.subscribe own) : Calling ServerEnd ChannelId) l =
      .ok l.client.channels.length := rfl
  obtain ⟨result, after⟩ := Trial.bind_ok
    (f := fun front => Calling.take (·.subscribe front.actor) >>= finish form front) first
  obtain ⟨result', after'⟩ := Trial.bind_ok (f := finish form ⟨own, Schema.walker⟩) second
  rw [finished] at result' after'
  exact ⟨⟨_, result.trans result'⟩, after.trans after'⟩

theorem abreast_opened {own : String} {made t : Scene} {w₀ w : WalkerActor} {f : List String → List String}
    (dom : made.site.dom w₀.host = d) (base : w₀.root = d.root) (empty : w₀.known = [])
    (learns : Walker.Learns own [d.root] made t w₀ w) (ready : Walker.Ready d w d.root)
    (lists : ∀ x l, made.find? x ≠ some (.nodeList l))
    (valid : (t.update inspector (Actor.setWalkers f)).conn.registry.Valid t.conn.id)
    (quiet : l.Quiet (t.update inspector (Actor.setWalkers f))) (channel : ChannelId) :
    ∃ root, (Walker.formOf made w d.root).actor = root ∧
      Abreast d own root ⟨opened own channel (Walker.formOf made w d.root), l⟩
        (t.update inspector (Actor.setWalkers f)) w := by
  obtain ⟨root, known⟩ := learns.learnt d.root (by simp)
  obtain ⟨actor, parent⟩ := Walker.formOf_fields made w d.root
  rw [known, Option.getD_some] at actor
  rw [learns.host_eq, dom] at parent
  have only {n : NodeId} {x : String} (there : w.known.get? n = some x) : n = d.root := by
    rcases learns.new there with old | ⟨member, -⟩
    · rw [empty] at old
      cases old
    · exact List.mem_singleton.mp member
  have find := t.find?_update inspector (f := Actor.setWalkers f)
  refine ⟨root, actor, ?_⟩
  constructor
  case quiet => exact quiet
  case front => rfl
  case dom => exact learns.dom_eq dom
  case holds =>
    refine learns.holds.beside valid ?_ fun {x a} => ?_
    · rw [find, learns.holds.walker, Option.map_some]
      split <;> rfl
    · rw [find]
      cases t.find? x with
      | none => rfl
      | some b => cases b <;> by_cases same : x = inspector <;> simp [Actor.setWalkers, same]
  case base => rw [learns.rest, ← base]
  case rooted => exact known
  case closed =>
    intro n x there
    rw [only there]
    exact ready
  case lists =>
    intro x l found
    rw [find] at found
    obtain ⟨b, old, same⟩ := Option.map_eq_some_iff.mp found
    have list : t.find? x = some (.nodeList l) := by
      rw [old]
      cases b with
      | inspector i => split at same <;> cases same
      | nodeList l' => split at same <;> exact congrArg some same
      | _ => split at same <;> cases same
    have other : x ≠ own := by
      rintro rfl
      cases learns.holds.walker.symm.trans list
    rw [learns.others other fun a node => nomatch node.symm.trans list] at list
    exact absurd list (lists x l)
  case mirrors =>
    have none : Walker.Reads d w (fun _ => False) {} :=
      ⟨(KnownTree.tidy_opened Option.none).sound, False.elim, fun seen => nomatch seen⟩
    have read := none.readForm learns.holds (known.trans (congrArg some actor.symm)) parent
    refine ⟨read.sound.beside _ _, fun {n x} _ there => ?_, read.only⟩
    exact read.full (.inr (only there)) there
  case top => exact congrArg some actor

theorem ofInspector_abreast (start : l.Fresh s inspector d) {front : WalkerFront}
    (opened : Trial.result (ofInspector inspector) l = .ok front)
    (few : (Trial.after (ofInspector inspector) l).names ≤ UInt32.size) :
    ∃ own root t w, front.tree.root = some root ∧
      Abreast d own root ⟨front, Trial.after (ofInspector inspector) l⟩ t w := by
  obtain ⟨i, live, dom⟩ := start.live
  have looks (actor : Actor) (m : Method) (found : s.find? inspector = some actor)
      (named : actor.schema.method? "getWalker" = some m) : actor.looks = true ∧ m.release = false := by
    cases live.symm.trans found
    cases named
    exact ⟨rfl, rfl⟩
  rw [ofInspector_eq] at opened few ⊢
  rcases start.quiet.call_looks (f := ⟨inspector, Schema.inspector⟩) [] (by simp [Schema.all]) looks with
    ⟨e, failed, -⟩ | ⟨m, packet, actor, m', act, reply, -, -, live', named, decided, called, sent, still⟩
  · cases (Trial.bind_error failed).1.symm.trans opened
  · cases live.symm.trans live'
    have orderly := Request.decide_orderly live decided
    cases named
    obtain ⟨after_eq, result_eq⟩ := Inspector.decide_getWalker (s := s) decided
    rw [result_eq] at sent
    rw [after_eq] at still orderly
    have walker : reply.get? "walker" = some ((Walker.register inspector i.host).result s).2 :=
      sent "walker" (by decide) (by decide)
    obtain ⟨result, after⟩ := Trial.bind_ok (f := fun reply : Fields => (match Fields.get? reply "walker" with
      | none => throw (.malformed .noWalker)
      | some form => ofForm form : Calling ServerEnd WalkerFront)) called
    rw [opened, walker] at result
    rw [after, walker, Link.names_congr (peer_ofForm _ _), still.names_eq] at few
    rw [after, walker]
    dsimp only at result ⊢
    have valid₀ := start.valid (Nat.le_trans orderly.later few)
    have valid := (orderly.follows few valid₀ trivial).valid
    have above : s.conn.registry.Above 3 inspector := ⟨2, by decide, Registry.has_of_find? live⟩
    obtain ⟨w, learns, ready, form⟩ := Walker.register_learns dom start.wf valid₀ above start.nodes few
    let made := (Act.register "domwalker" inspector (.walker { host := i.host, root := d.root })).after s
    have kind : "domwalker" ∈ Registry.kinds := by decide
    have fresh := Scene.find?_newName valid₀ (Nat.lt_of_succ_le (Nat.le_trans learns.later few)) kind
    have lists (x : String) (l : NodeListActor) : made.find? x ≠ some (.nodeList l) := by
      intro found
      rw [Scene.find?_register _ _ fresh] at found
      split at found
      · cases found
      · exact start.lists x l found
    have here : made.site.dom w.host = d := by
      rw [learns.host_eq]
      exact dom
    obtain ⟨⟨channel, front_eq⟩, left⟩ := trial_ofForm (s.conn.registry.newName s.conn.id "domwalker")
      (Walker.ofJson?_formOf (here.symm ▸ start.wf) d.root)
      (Trial.after (Front.call ⟨inspector, Schema.inspector⟩ "getWalker" []) l)
    rw [form, front_eq] at result
    cases result
    rw [form, left]
    rw [← orderly.id] at valid
    obtain ⟨root, named, abreast⟩ := abreast_opened dom rfl rfl learns ready lists valid
      (still.subscribe _) channel
    exact ⟨_, root, _, w, congrArg some named, abreast⟩

end WalkerFront

/-! ### Calls -/

/-- The name by which the walker of a client knows a node. -/
def Walking.known? (v : Walking ServerEnd) (n : NodeId) : Option String :=
  (((v.link.peer.server.connection? v.link.peer.connection).bind fun c =>
    c.registry.find? v.walker.front.actor).bind Actor.walker?).bind (·.known.get? n)

theorem Link.Quiet.unique {l : Link ServerEnd} {s t : Scene} (quiet : l.Quiet s) (quiet' : l.Quiet t) : t = s := by
  obtain ⟨site, conn⟩ := t
  have same : conn = s.conn := Option.some.inj (quiet'.conn.symm.trans quiet.conn)
  have here : site = s.site := quiet'.site.symm.trans quiet.site
  rw [same, here]

namespace WalkerFront

/-- A call on a walker or on one of its lists. -/
inductive Call
  | document (node : Option String)
  | documentElement (node : Option String)
  | parents (node : String) (sameDocument : Bool)
  | children (node : String) (page : PageRequest)
  | siblings (node : String) (page : PageRequest)
  | nextSibling (node : String) (whatToShow : Option Nat)
  | previousSibling (node : String) (whatToShow : Option Nat)
  | querySelector (node selector : String)
  | querySelectorAll (node selector : String)
  | item (list : NodeListFront) (index : Nat)
  | items (list : NodeListFront) (first last : Option Nat)
  | releaseNode (node : String)

namespace Call

/-- What a call leaves behind, whether it succeeds or fails. -/
def after (v : Walking ServerEnd) : Call → Walking ServerEnd
  | .document node => Trial.after (WalkerCall.document node) v
  | .documentElement node => Trial.after (WalkerCall.documentElement node) v
  | .parents node sameDocument => Trial.after (WalkerCall.parents node sameDocument) v
  | .children node page => Trial.after (WalkerCall.children node page) v
  | .siblings node page => Trial.after (WalkerCall.siblings node page) v
  | .nextSibling node whatToShow => Trial.after (WalkerCall.nextSibling node whatToShow) v
  | .previousSibling node whatToShow => Trial.after (WalkerCall.previousSibling node whatToShow) v
  | .querySelector node selector => Trial.after (WalkerCall.querySelector node selector) v
  | .querySelectorAll node selector => Trial.after (WalkerCall.querySelectorAll node selector) v
  | .item list index => Trial.after (WalkerCall.item list index) v
  | .items list first last => Trial.after (WalkerCall.items list first last) v
  | .releaseNode node => Trial.after (WalkerCall.releaseNode node) v

/-- The call leaves the filter out, and does not release the root document. A list is called by its own
methods. -/
def Allowed (root : String) : Call → Prop
  | .children _ page | .siblings _ page => page.whatToShow = none
  | .nextSibling _ whatToShow | .previousSibling _ whatToShow => whatToShow = none
  | .item list _ | .items list _ _ => list.front.schema = Schema.nodeList
  | .releaseNode node => node ≠ root
  | _ => True

end Call

end WalkerFront

theorem Front.get?_arguments_none {pairs : List (String × Option Json)} {key : String}
    (absent : ∀ p ∈ pairs, p.1 = key → p.2 = none) : (Front.arguments pairs).get? key = none := by
  refine Fields.get?_ofList_eq_none fun member listed same => ?_
  obtain ⟨p, here, given⟩ := List.mem_filterMap.mp listed
  obtain ⟨value, present, rfl⟩ := Option.map_eq_some_iff.mp given
  cases (absent p here same).symm.trans present

namespace Abreast

variable {d : Dom} {own root : String} {v : Walking ServerEnd} {s : Scene} {w : WalkerActor}

/-- Every call leaves the client in its position. -/
theorem call (abreast : Abreast d own root v s w) (wf : d.WellFormed) (call : WalkerFront.Call)
    (allowed : call.Allowed root) : Again d own root s (call.after v) := by
  have asks {method : String} (listed : method ∈ asking) {pairs : List (String × Option Json)}
      (all : ∀ p ∈ pairs, p.1 = "whatToShow" → p.2 = none) {α : Type} {f : Fields → WalkerCall ServerEnd α}
      (still : ∀ reply v, Trial.after (f reply) v = v) :
      Again d own root s (Trial.after (WalkerCall.call method (Front.arguments pairs) >>= f) v) := by
    rw [WalkerCall.after_bind_still still]
    exact abreast.ask wf listed (Front.get?_arguments_none all)
  cases call with
  | document node => exact asks (by decide) (by simp) fun _ _ => rfl
  | documentElement node => exact asks (by decide) (by simp) fun _ _ => rfl
  | parents node sameDocument => exact asks (by decide) (by simp) fun _ _ => rfl
  | children node page =>
    have all : page.whatToShow = none := allowed
    exact asks (by decide) (by simp [all]) fun _ _ => rfl
  | siblings node page =>
    have all : page.whatToShow = none := allowed
    exact asks (by decide) (by simp [all]) fun _ _ => rfl
  | nextSibling node whatToShow =>
    have all : whatToShow = none := allowed
    exact asks (by decide) (by simp [all]) fun _ _ => rfl
  | previousSibling node whatToShow =>
    have all : whatToShow = none := allowed
    exact asks (by decide) (by simp [all]) fun _ _ => rfl
  | querySelector node selector => exact asks (by decide) (by simp) fun _ _ => rfl
  | querySelectorAll node selector =>
    refine asks (by decide) (by simp) fun reply v => ?_
    split
    · rfl
    · rename_i list _
      cases NodeListFront.ofForm list <;> rfl
  | item list index =>
    change Again d own root s (Trial.after (WalkerCall.callOn list.front "item" _ >>= _) v)
    rw [WalkerCall.after_bind_still fun _ _ => rfl]
    exact abreast.askList wf allowed (by decide) (Front.get?_arguments_none (by simp))
  | items list first last =>
    change Again d own root s (Trial.after (WalkerCall.callOn list.front "items" _ >>= _) v)
    rw [WalkerCall.after_bind_still fun _ _ => rfl]
    exact abreast.askList wf allowed (by decide) (Front.get?_arguments_none (by simp))
  | releaseNode node => exact abreast.release wf allowed

theorem known?_eq (abreast : Abreast d own root v s w) (n : NodeId) : v.known? n = w.known.get? n := by
  have live : s.conn.registry.find? own = some (.walker w) := abreast.holds.walker
  rw [Walking.known?, abreast.quiet.conn, abreast.front, Option.bind_some, live]
  rfl

end Abreast

/-! ### Searches -/

/-- The reply to a search: the match, if there is one, and with it those nodes above it that the walker
did not know before, nearest first. -/
def Walking.Answers (d : Dom) (v v' : Walking ServerEnd) (reply : Fields) : Option NodeId → Prop
  | none => WalkerCall.actorIn reply "node" = none ∧ WalkerCall.actorsIn reply "newNodes" = []
  | some n => ∃ x, v'.known? n = some x ∧ WalkerCall.actorIn reply "node" = some x ∧
      (WalkerCall.actorsIn reply "newNodes").map some =
        ((d.ancestors n).filter fun a => (v.known? a).isNone).map v'.known?

theorem NodeForm.getString?_toJson (f : NodeForm) : f.toJson.getString? "actor" = some f.actor := by
  rw [Json.getString?, get?_toJson]
  simp [Fields.get?_ofList, Json.string?]

theorem map_some_filterMap {α β : Type} {f : α → Option β} {items : List α}
    (all : ∀ a ∈ items, ∃ b, f a = some b) : (items.filterMap f).map some = items.map f := by
  induction items with
  | nil => rfl
  | cons a rest ih =>
    obtain ⟨b, here⟩ := all a (by simp)
    rw [List.filterMap_cons_some here, List.map_cons, List.map_cons, here, ih fun c later => all c (by simp [later])]

theorem Walker.names_sent {s : Scene} {w : WalkerActor} {n : NodeId} {path : List NodeId} {reply : Fields}
    (known : ∀ m ∈ n :: path, ∃ x, w.known.get? m = some x)
    (sent : Reply.Sent [("node", (formOf s w n).toJson), ("newNodes", sheet s w path)] reply) :
    ∃ x, w.known.get? n = some x ∧ WalkerCall.actorIn reply "node" = some x ∧
      (WalkerCall.actorsIn reply "newNodes").map some = path.map w.known.get? := by
  have named (m : NodeId) (told : m ∈ n :: path) :
      (formOf s w m).toJson.getString? "actor" = w.known.get? m := by
    obtain ⟨x, there⟩ := known m told
    rw [NodeForm.getString?_toJson, (formOf_fields s w m).1, there, Option.getD_some]
  have first : reply.get? "node" = some (formOf s w n).toJson := by
    rw [sent "node" (by decide) (by decide)]
    simp [Fields.get?_ofList]
  have second : reply.get? "newNodes" = some (sheet s w path) := by
    rw [sent "newNodes" (by decide) (by decide)]
    simp [Fields.get?_ofList]
  obtain ⟨x, there⟩ := known n (by simp)
  refine ⟨x, there, ?_, ?_⟩
  · rw [WalkerCall.actorIn, first, Option.bind_some, named n (by simp), there]
  · have items : (Json.obj reply).getItems "newNodes" = path.map fun m => (formOf s w m).toJson := by
      simp [Json.getItems, Json.get?, second, sheet, Json.items?]
    have same : path.filterMap ((·.getString? "actor") ∘ fun m => (formOf s w m).toJson) =
        path.filterMap w.known.get? := by
      refine List.filterMap_congr fun m told => ?_
      rw [Function.comp_apply, named m (List.mem_cons_of_mem n told)]
    rw [WalkerCall.actorsIn, items, List.filterMap_map, same]
    exact map_some_filterMap fun m told => known m (List.mem_cons_of_mem n told)

def WalkerCall.searched (node text : String) : Fields :=
  Front.arguments [("node", some (.str node)), ("selector", some (.str text))]

theorem WalkerCall.get?_searched (node text : String) : (searched node text).get? "node" = some (.str node) ∧
    (searched node text).get? "selector" = some (.str text) := by
  simp [searched, Front.arguments, Fields.get?_ofList]

theorem Walker.decide_querySelector {s : Scene} {own : String} {w : WalkerActor} {packet : Fields} {act : Act Reply}
    (decided : Walker.decide s own w "querySelector" packet = .ok act) :
    ∃ node base text selector, packet.get? "node" = some (.str node) ∧ s.lookupNode node = .ok base ∧
      packet.get? "selector" = some (.str text) ∧ Selector.parse? text = some selector ∧
      act = queryReply own w.host (selector.select (s.site.dom w.host) base).head? := by
  simp only [decide] at decided
  obtain ⟨base, given, decided⟩ := Decision.bind_ok decided
  obtain ⟨text, given', decided⟩ := Decision.bind_ok decided
  obtain ⟨nodes, selected, decided⟩ := Decision.bind_ok decided
  cases decided
  obtain ⟨node, there, live⟩ := nodeArgument?_some (nodeArgument_ok given)
  have search := Request.string?_eq_some.mp (textArgument_ok given')
  unfold select at selected
  split at selected
  · rename_i selector parsed
    cases selected
    exact ⟨node, base, text, selector, there, live, search, parsed, rfl⟩
  · cases selected

theorem WalkerCall.called_of_callOn {v : Walking ServerEnd} {front : Front} {method : String}
    {arguments reply : Fields} (done : Trial.result (callOn front method arguments) v = .ok reply) :
    Trial.result (front.call method arguments) v.link = .ok reply := by
  cases called : Trial.result (front.call method arguments) v.link with
  | error e => cases (trial_callOn_error called).1.symm.trans done
  | ok reply' =>
    have first : Trial.result (onLink (front.call method arguments)) v = .ok reply' := called
    obtain ⟨result, -⟩ := Trial.bind_ok (f := fun reply => do
      readForms (front.replyForms method reply)
      return reply) first
    rw [show Trial.result (callOn front method arguments) v = _ from result] at done
    cases read : Trial.result (readForms (front.replyForms method reply') : WalkerCall ServerEnd Unit)
        (Trial.after (onLink (front.call method arguments)) v) with
    | error e =>
      cases ((Trial.bind_error (f := fun _ => (pure reply' : WalkerCall ServerEnd Fields)) read).1).symm.trans done
    | ok u =>
      exact ((Trial.bind_ok (f := fun _ => (pure reply' : WalkerCall ServerEnd Fields)) read).1).symm.trans done

namespace Abreast

variable {d : Dom} {own root : String} {v : Walking ServerEnd} {s : Scene} {w : WalkerActor}

theorem query (abreast : Abreast d own root v s w) (wf : d.WellFormed) {node text : String} {reply : Fields}
    (done : Trial.result (WalkerCall.call "querySelector" (WalkerCall.searched node text)) v = .ok reply)
    (few : (Trial.after (WalkerCall.querySelector node text) v).link.names ≤ UInt32.size) :
    ∃ base selector, v.known? base = some node ∧ Selector.parse? text = some selector ∧
      v.Answers d (Trial.after (WalkerCall.querySelector node text) v) reply (selector.select d base).head? := by
  have called := WalkerCall.called_of_callOn done
  obtain ⟨t, still, -, next⟩ := abreast.call wf (.querySelector node text) trivial
  obtain ⟨w', abreast'⟩ := next (still.names_eq ▸ few)
  have same : Trial.after (WalkerCall.querySelector node text) v = Trial.after (WalkerCall.callOn v.walker.front
      "querySelector" (WalkerCall.searched node text)) v :=
    WalkerCall.after_bind_still fun _ _ => rfl
  have plain : "querySelector" ≠ "release" := by decide
  rcases abreast.call_walker plain (WalkerCall.searched node text) with
    ⟨e, failed, -⟩ | ⟨m, packet, act, reply', found, written, decided, called', sent, quiet, -⟩
  · cases failed.symm.trans called
  · cases called'.symm.trans called
    obtain ⟨name, base, search, selector, given, live, given', parsed, rfl⟩ := Walker.decide_querySelector decided
    rw [Link.get?_numbered_ne (by decide)] at given given'
    obtain ⟨node_given, text_given⟩ := WalkerCall.get?_searched node text
    cases Method.get?_write_str written (by decide) node_given given
    cases Method.get?_write_str written (by decide) text_given given'
    have link : (Trial.after (WalkerCall.querySelector node text) v).link =
        Trial.after (v.walker.front.call "querySelector" (WalkerCall.searched node text)) v.link := by
      rw [same, (WalkerCall.trial_callOn called).1, WalkerCall.link_readForms]
    cases quiet.unique (link ▸ still)
    rw [abreast.dom] at sent quiet abreast'
    have known := abreast.holds.lookupNode live
    refine ⟨base, selector, (abreast.known?_eq base).trans known, parsed, ?_⟩
    cases matched : (selector.select d base).head? with
    | none =>
      rw [matched] at sent
      have none : reply.get? "node" = none := sent "node" (by decide) (by decide)
      have bare : reply.get? "newNodes" = Option.none := sent "newNodes" (by decide) (by decide)
      simp [Walking.Answers, WalkerCall.actorIn, WalkerCall.actorsIn, Json.getItems, Json.get?, none, bare]
    | some n =>
      rw [matched] at sent quiet abreast'
      obtain ⟨below, shown⟩ := wf.mem_select (List.mem_of_head? matched)
      have under : d.Under n d.root := Relation.ReflTransGen.trans below (abreast.closed known).under
      rw [link, quiet.names_eq] at few
      obtain ⟨w₁, tells, result⟩ := Walker.queryReply_tells abreast.dom wf abreast.holds rfl under shown few
      have same : w₁ = w' := by
        cases tells.learns.holds.walker.symm.trans abreast'.holds.walker
        rfl
      rw [result] at sent
      obtain ⟨x, there, match_named, path_named⟩ := Walker.names_sent tells.learns.learnt sent
      have after : Walking.known? (Trial.after (WalkerCall.querySelector node text) v) = w₁.known.get? :=
        funext fun a => same ▸ abreast'.known?_eq a
      have before : v.known? = w.known.get? := funext abreast.known?_eq
      refine ⟨x, (congrFun after n).trans there, match_named, ?_⟩
      rw [path_named, abreast.closed.unknown_eq wf, after, before]

end Abreast

/-! ### Whole visits -/

namespace WalkerFront

variable {d : Dom} {own root : String} {v : Walking ServerEnd} {s : Scene} {w : WalkerActor}

theorem run_abreast (abreast : Abreast d own root v s w) (wf : d.WellFormed) {calls : List Call}
    (allowed : ∀ call ∈ calls, call.Allowed root)
    (few : ∀ first, first <+: calls → (first.foldl Call.after v).link.names ≤ UInt32.size) :
    ∃ t w', Abreast d own root (calls.foldl Call.after v) t w' := by
  induction calls generalizing v s w with
  | nil => exact ⟨s, w, abreast⟩
  | cons call rest ih =>
    obtain ⟨t, still, -, next⟩ := abreast.call wf call (allowed call (by simp))
    have here : (call.after v).link.names ≤ UInt32.size := few [call] ⟨rest, rfl⟩
    obtain ⟨w', abreast'⟩ := next (still.names_eq ▸ here)
    exact ih abreast' (fun other later => allowed other (by simp [later]))
      fun first shorter => few (call :: first) (List.prefix_cons_inj call |>.mpr shorter)

def visited (l : Link ServerEnd) (inspector : String) (front : WalkerFront) (calls : List Call) : Walking ServerEnd :=
  calls.foldl Call.after ⟨front, Trial.after (ofInspector inspector) l⟩

/-- A client that looks around a document, follows its nodes and lets them go has after every call a
tree without stand-ins that hangs together up to the root document. A search brings, nearest first,
exactly those nodes above the match that were not known before. -/
theorem tree_hangs_together {l : Link ServerEnd} {inspector : String} (start : l.Fresh s inspector d)
    {front : WalkerFront} (opened : Trial.result (ofInspector inspector) l = .ok front) {calls : List Call}
    (allowed : ∀ call ∈ calls, ∀ root, front.tree.root = some root → call.Allowed root)
    (few : ∀ first, first <+: calls → (visited l inspector front first).link.names ≤ UInt32.size) :
    let v := visited l inspector front calls
    ∃ root, front.tree.root = some root ∧ v.walker.tree.root = some root ∧
      (∀ x k, v.walker.tree.node? x = some k → k.standin = false ∧ v.walker.tree.Under x root) ∧
      ∀ node text reply,
        Trial.result (WalkerCall.call "querySelector" (WalkerCall.searched node text)) v = .ok reply →
        (Trial.after (WalkerCall.querySelector node text) v).link.names ≤ UInt32.size →
        ∃ base selector, v.known? base = some node ∧ Selector.parse? text = some selector ∧
          v.Answers d (Trial.after (WalkerCall.querySelector node text) v) reply
            (selector.select d base).head? := by
  intro v
  obtain ⟨own, root, s₀, w₀, rooted, abreast₀⟩ := ofInspector_abreast start opened (few [] (List.nil_prefix))
  obtain ⟨t, w, abreast⟩ := run_abreast abreast₀ start.wf (fun call member => allowed call member root rooted) few
  refine ⟨root, rooted, abreast.top, fun x k found => ?_, fun node text reply done few' => ?_⟩
  · have seen : v.walker.tree.glance? x = some ⟨k.standin, k.parent⟩ := by
      rw [KnownTree.glance?, found, Option.map_some]
    exact abreast.mirrors.under_root abreast.closed abreast.rooted abreast.holds seen
  · exact abreast.query start.wf done few'

/-! ### Runs on one page -/

namespace Opening

open Serve (begun_joined joined onePage take)

def scene (d : Dom) : Scene := ⟨onePage d, take (joined (onePage d)) ⟨onePage d, .told⟩⟩

def link (d : Dom) : Link ServerEnd :=
  ⟨{ greeting := [] }, ⟨{ site := onePage d, tabs := [(7, 0)], connections := [(scene d).conn] }, 0⟩⟩

theorem fresh {d : Dom} (wf : d.WellFormed) : (link d).Fresh (scene d) "conn0.inspector1" d := by
  -- The tree of the page has no part in the connection, so that an empty one stands for it.
  have conn : (scene d).conn = (scene {}).conn := rfl
  have ranks : ∀ e ∈ (scene d).conn.registry.entries, e.actor.rank ≠ 4 := by
    rw [conn]
    decide +kernel
  have bare (x : String) (a : Actor) (found : (scene d).find? x = some a) : a.rank ≠ 4 := by
    obtain ⟨e, member, -, rfl⟩ := Registry.entry_of_find? found
    exact ranks e member
  have inspector : ((scene d).conn.registry.find? "conn0.inspector1").bind Actor.inspector? =
      some { host := "host" } := by
    rw [conn]
    decide +kernel
  have sent : (scene d).conn.sent.isEmpty = true := by
    rw [conn]
    decide +kernel
  refine ⟨⟨rfl, rfl, ?_, ?_, List.isEmpty_iff.mp sent, rfl, rfl⟩,
    ⟨_, [⟨onePage d, .told⟩], begun_joined _, rfl⟩, ?_, wf, ?_, ?_⟩
  · rw [conn]; decide +kernel
  · rw [conn]; decide +kernel
  · obtain ⟨a, found, same⟩ := Option.bind_eq_some_iff.mp inspector
    cases a <;> cases same
    exact ⟨_, found, rfl⟩
  · exact fun x a found => bare x _ found rfl
  · exact fun x a found => bare x _ found rfl

theorem passes {l : Link ServerEnd} {p : WalkerFront → Bool}
    (check : (Trial.result (ofInspector "conn0.inspector1") l).toOption.any p = true) :
    ∃ front, Trial.result (ofInspector "conn0.inspector1") l = .ok front ∧ p front = true := by
  generalize Trial.result (ofInspector "conn0.inspector1") l = opened at check
  cases opened with
  | error e => cases check
  | ok front => exact ⟨front, rfl, check⟩

end Opening

/-- A search, looks below its finds into a frame, and the release of a part. -/
theorem tree_hangs_together_frame : ∃ (l : Link ServerEnd) (s : Scene) (d : Dom) (front : WalkerFront)
    (calls : List Call), l.Fresh s "conn0.inspector1" d ∧
    Trial.result (ofInspector "conn0.inspector1") l = .ok front ∧
    (∀ call ∈ calls, ∀ root, front.tree.root = some root → call.Allowed root) ∧
    (∀ first, first <+: calls → (visited l "conn0.inspector1" front first).link.names ≤ UInt32.size) ∧
    let v := visited l "conn0.inspector1" front calls
    v.walker.tree.nodes.keys = ["conn0.domnode6", "conn0.domnode9", "conn0.domnode10", "conn0.domnode11"] ∧
    ∃ root, v.walker.tree.root = some root ∧
      ∀ x k, v.walker.tree.node? x = some k → k.standin = false ∧ v.walker.tree.Under x root := by
  let d : Dom := { nodes := [(1, { kind := 9, children := [2] }), (2, { kind := 1, parent := some 1, children := [3, 5] }),
    (3, { kind := 1, parent := some 2, children := [4] }), (4, { kind := 1, name := "p", parent := some 3 }),
    (5, { kind := 1, parent := some 2, content := some 6 }), (6, { kind := 9 })] }
  let l := Opening.link d
  let calls : List Call := [.querySelector "conn0.domnode6" "p", .children "conn0.domnode9" {},
    .children "conn0.domnode10" {}, .releaseNode "conn0.domnode8"]
  have start : l.Fresh (Opening.scene d) "conn0.inspector1" d := Opening.fresh (by decide +kernel)
  obtain ⟨front, opened, fits⟩ := Opening.passes (l := l) (p := fun front => decide (front.tree.root ≠ some "conn0.domnode8") &&
      (calls.inits.all fun first => decide ((visited l "conn0.inspector1" front first).link.names ≤ UInt32.size)) &&
      decide ((visited l "conn0.inspector1" front calls).walker.tree.nodes.keys =
        ["conn0.domnode6", "conn0.domnode9", "conn0.domnode10", "conn0.domnode11"])) (by decide +kernel)
  simp only [Bool.and_eq_true, decide_eq_true_eq, List.all_eq_true] at fits
  obtain ⟨⟨inner, few⟩, keys⟩ := fits
  have few' (first : List Call) (shorter : first <+: calls) :
      (visited l "conn0.inspector1" front first).link.names ≤ UInt32.size :=
    few first ((List.mem_inits first calls).mpr shorter)
  have allowed (call : Call) (member : call ∈ calls) (root : String) (rooted : front.tree.root = some root) :
      call.Allowed root := by
    simp only [calls, List.mem_cons, List.not_mem_nil, or_false] at member
    rcases member with rfl | rfl | rfl | rfl
    · trivial
    · rfl
    · rfl
    · rintro rfl
      exact inner rooted
  obtain ⟨root, -, rooted, hangs, -⟩ := tree_hangs_together start opened allowed few'
  exact ⟨l, Opening.scene d, d, front, calls, start, opened, allowed, few', keys, root, rooted, hangs⟩

end WalkerFront

end RemoteInspector
