import Mathlib.Data.String.Basic
import RemoteInspector.Proofs.Client.Agreement
import RemoteInspector.Proofs.Client.Contents
import RemoteInspector.Proofs.Server.Letters
/-!
How a client keeps up with attributes: once it has fetched the records it has what it was told last, which is the
value in the host unless the node had another attribute of that name when the record was made.
-/
namespace RemoteInspector

open Attribute (Key value?)
open Dom (Touch)

/-! ### Links over which a server speaks -/

theorem Client.closed_receive (c : Client) (packet : Json) : (c.receive packet).closed = c.closed := by
  have oldest (actor : String) : (c.takeOldest actor).1.closed = c.closed := by
    unfold takeOldest
    split <;> rfl
  have event (sender : String) (packet : Fields) : (c.onEvent sender packet).closed = c.closed := by
    unfold onEvent
    split
    · rfl
    · split <;> rfl
  have dispatched (packet : Fields) : (c.dispatch packet).closed = c.closed := by
    unfold dispatch
    generalize ((packet.get? "from").bind Json.string?).getD "" = sender
    cases (packet.get? "requestId").bind Json.natural? with
    | some id =>
      dsimp only
      split <;> rfl
    | none =>
      dsimp only
      split
      · exact event sender packet
      · cases (c.takeOldest sender).2 <;> exact oldest sender
  unfold receive
  split
  · split
    · rfl
    · exact dispatched _
  · rfl

theorem Client.closed_foldl_receive (c : Client) (packets : List Json) :
    (packets.foldl Client.receive c).closed = c.closed := by
  induction packets generalizing c with
  | nil => rfl
  | cons packet rest ih => rw [List.foldl_cons, ih, closed_receive]

theorem Link.quiet_onServer {l : Link ServerEnd} {f : Server → Server} {t : Scene}
    (conn : (f l.peer.server).connection? l.peer.connection = some t.conn) (site : (f l.peer.server).site = t.site)
    (isOpen : t.conn.isOpen = true) (up : t.conn.line = .up) (mail : t.site.mail = [])
    (listening : l.client.closed = false) : (l.onServer f).Quiet (t.setConn fun c => { c with sent := [] }) := by
  obtain ⟨e, collected, same, kept, site'⟩ := ServerEnd.collect_eq (e := { l.peer with server := f l.peer.server }) conn
  have after : l.onServer f = Link.deliver { l with peer := e } t.conn.sent (!t.conn.isOpen) := by
    rw [onServer, collected]
  rw [after, isOpen]
  exact ⟨kept, site'.trans site, isOpen, up, rfl, mail, (Client.closed_foldl_receive _ _).trans listening⟩

/-! ### Records of attributes -/

namespace KnownTree

variable {m : KnownTree} {x : String} {f : NodeForm}

theorem applyRecords_append (m : KnownTree) (first later : List Mutation) :
    (m.applyRecords (first ++ later)).1 = ((m.applyRecords first).1.applyRecords later).1 := by
  induction first generalizing m with
  | nil => rfl
  | cons record rest ih => exact ih _

theorem form?_applyRecord_attributes (found : m.form? x = some f) (target name : String) (space value : Option String) :
    (m.applyRecord (.attributes target name space value)).1.form? x =
      some (if target = x then { f with attrs := NodeForm.setAttribute f.attrs name space value } else f) := by
  unfold applyRecord
  split
  · rename_i missing
    have other : target ≠ x := by
      rintro rfl
      simp [Mutation.target, knows_iff_form?.mpr ⟨f, found⟩] at missing
    rw [if_neg other]
    exact found
  · refine (form?_update m target x _ (·.apply (.attributes target name space value)) fun _ => rfl).trans ?_
    rw [found]
    rfl

section

variable {d : Dom} {w : WalkerActor} {e : NodeId} (known : ∀ n, w.known.get? n = some x ↔ n = e)
  (found : m.form? x = some f) (distinct : (f.attrs.map Attribute.key).Nodup)

include known found distinct

/-- Records that all give attributes the values they have in one tree leave a client with those values. -/
theorem form?_applyRecords_recorded {records : List Mutation}
    (only : ∀ r ∈ records, ∃ t, Serve.recorded d w t = some r) :
    ∃ f', (m.applyRecords records).1.form? x = some f' ∧ (f'.attrs.map Attribute.key).Nodup ∧
      ∀ key, value? f'.attrs key =
        if .attributes x key.2 key.1 (d.attribute? e key.2) ∈ records then d.attribute? e key.2 else value? f.attrs key := by
  induction records generalizing m f with
  | nil => exact ⟨f, found, distinct, fun key => by simp⟩
  | cons r rest ih =>
    obtain ⟨t, made⟩ := only r List.mem_cons_self
    obtain ⟨target, named, rfl⟩ := Option.map_eq_some_iff.mp made
    have first := form?_applyRecord_attributes found target t.key.2 t.key.1 (d.attribute? t.node t.key.2)
    have rest_only : ∀ r ∈ rest, ∃ t, Serve.recorded d w t = some r := fun r member => only r (List.mem_cons_of_mem _ member)
    by_cases here : target = x
    · subst here
      obtain rfl := (known t.node).mp named
      rw [if_pos rfl] at first
      obtain ⟨f', last, distinct', values⟩ := ih first (NodeForm.distinct_setAttribute distinct _ _ _) rest_only
      refine ⟨f', last, distinct', fun key => ?_⟩
      rw [values, NodeForm.value?_setAttribute distinct]
      by_cases met : t.key = key
      · subst met
        simp
      · have apart : Mutation.attributes target key.2 key.1 (d.attribute? t.node key.2) ≠
            .attributes target t.key.2 t.key.1 (d.attribute? t.node t.key.2) := by
          intro same
          injection same with _ name space _
          exact met (Prod.ext space.symm name.symm)
        simp [apart, met]
    · rw [if_neg here] at first
      obtain ⟨f', last, distinct', values⟩ := ih first distinct rest_only
      refine ⟨f', last, distinct', fun key => ?_⟩
      have apart : Mutation.attributes x key.2 key.1 (d.attribute? e key.2) ≠
          .attributes target t.key.2 t.key.1 (d.attribute? t.node t.key.2) := by
        intro same
        injection same with target _ _ _
        exact here target.symm
      rw [values]
      simp [apart]

theorem form?_applyRecords_batch {batch : List Touch} {records : List Mutation}
    (only : ∀ r ∈ records, ∃ t ∈ batch, Serve.recorded d w t = some r)
    (all : ∀ t ∈ batch, t.node = e → ∀ r, Serve.recorded d w t = some r → r ∈ records) :
    ∃ f', (m.applyRecords records).1.form? x = some f' ∧ (f'.attrs.map Attribute.key).Nodup ∧
      value? f'.attrs = Dom.hear e d batch (value? f.attrs) := by
  obtain ⟨f', form, distinct', values⟩ := form?_applyRecords_recorded known found distinct fun r member =>
    (only r member).imp fun t made => made.2
  refine ⟨f', form, distinct', funext fun key => ?_⟩
  have told : Mutation.attributes x key.2 key.1 (d.attribute? e key.2) ∈ records ↔
      (batch.any fun t => t.node = e && t.key = key) = true := by
    constructor
    · intro member
      obtain ⟨t, edited, made⟩ := only _ member
      obtain ⟨target, named, same⟩ := Option.map_eq_some_iff.mp made
      injection same with target name space _
      subst target
      exact List.any_eq_true.mpr ⟨t, edited, by simp [(known t.node).mp named, Prod.ext_iff, name, space]⟩
    · intro edited
      obtain ⟨t, member, meant⟩ := List.any_eq_true.mp edited
      obtain ⟨rfl, rfl⟩ : t.node = e ∧ t.key = key := by simpa using meant
      exact all t member rfl _ (by rw [Serve.recorded, (known t.node).mpr rfl]; rfl)
  rw [values, Dom.hear]
  by_cases edited : (batch.any fun t => t.node = e && t.key = key) = true
  · rw [if_pos edited, if_pos (told.mpr edited)]
  · rw [if_neg edited, if_neg fun member => edited (told.mp member)]

end

end KnownTree

/-! ### Fetching records -/

theorem Front.write_getMutations (own : String) (cleanup : Bool) :
    (⟨own, Schema.walker⟩ : Front).write "getMutations" (arguments [("cleanup", some (.bool cleanup))]) =
      .ok [("cleanup", .bool cleanup), ("to", .str own), ("type", .str "getMutations")] := by
  refine Link.Quiet.write_of_method (m := ⟨"getMutations", [Schema.option "cleanup" .boolean],
    [("mutations", .array Schema.domMutation)], false⟩) rfl ?_
  simp [-String.lt_iff_ltb, Method.write, Method.check, Parameter.check, Schema.option, Shape.write, Shape.accepts,
    arguments, Fields.ofList, Fields.insert, Table.insertBy, Fields.get?, Table.get?]

theorem Schema.forms_record (r : Mutation) : domMutation.forms r.toJson = [] := by
  have names (items : List String) : (Schema.nodes).forms (.strings items) = [] := by
    simp [nodes, Json.strings, Shape.forms, domNode]
  cases r with
  | attributes target name space value =>
    cases space <;> simp [Mutation.toJson, Json.object, domMutation, Shape.forms, Shape.fieldForms, Json.get?,
      Fields.get?_ofList, domNode]
  | characterData target value cut =>
    cases cut <;> simp [Mutation.toJson, Json.object, domMutation, Shape.forms, Shape.fieldForms, Json.get?,
      Fields.get?_ofList, domNode]
  | childList | frameLoad | documentUnload =>
    simp [Mutation.toJson, Json.object, domMutation, Shape.forms, Shape.fieldForms, Json.get?, Fields.get?_ofList,
      domNode, names]

theorem Link.Quiet.getMutations {l : Link ServerEnd} {s : Scene} (quiet : l.Quiet s) {own : String} {w : WalkerActor}
    (live : s.find? own = some (.walker w)) (cleanup : Bool) :
    let ask := Front.call ⟨own, Schema.walker⟩ "getMutations" (Front.arguments [("cleanup", some (.bool cleanup))])
    ∃ reply, Trial.result ask l = .ok reply ∧ reply.get? "mutations" = some (.arr (w.queue.map Mutation.toJson)) ∧
      (Trial.after ask l).Quiet ((Walker.takeMutations own w cleanup).after s) := by
  intro ask
  have written := Front.write_getMutations own cleanup
  let packet : Fields := [("cleanup", .bool cleanup), ("to", .str own), ("type", .str "getMutations")]
  let act : Act Reply := do
    let records ← Walker.takeMutations own w cleanup
    return [("mutations", .arr (records.map Mutation.toJson))]
  have get? {key : String} (other : key ≠ "requestId") : (l.numbered packet).get? key = packet.get? key :=
    get?_numbered_ne other
  have asked : ((Fields.get? (l.numbered packet) "cleanup").bind Json.bool?).getD false = cleanup := by
    rw [get? (by decide)]
    rfl
  have decided : Walker.decide s own w "getMutations" (l.numbered packet) = .ok act := by
    simp only [Walker.decide, asked]
    rfl
  have taken : Request.Taken s (l.numbered packet) own (.walker w)
      ⟨"getMutations", [Schema.option "cleanup" .boolean], [("mutations", .array Schema.domMutation)], false⟩ act :=
    ⟨get? (by decide), live, ⟨"getMutations", get? (by decide), rfl⟩, decided⟩
  have mail : (act.after s).site.mail = [] :=
    (Act.Unmoved.takeMutations own w cleanup s trivial).mail.trans quiet.mail
  obtain ⟨reply, result, sent, still⟩ := quiet.call_taken written taken rfl rfl mail
  refine ⟨reply, result, ?_, still⟩
  rw [sent "mutations" (by decide) (by decide)]
  change some (Json.arr (((Walker.takeMutations own w cleanup).result s).map Mutation.toJson)) = _
  rw [Serve.result_takeMutations]

/-! ### A client that follows a node -/

namespace WalkerFront

/-- A client with nothing under way, whose walker knows a node by a name and watches above it. Once the client has
fetched what waits for it, it will know the node by a form. -/
structure Follows (v : Walking ServerEnd) (s : Scene) (w : WalkerActor) (e : NodeId) (x : String) (f : NodeForm) :
    Prop where
  quiet : v.link.Quiet s
  front : v.walker.front.schema = Schema.walker
  live : s.find? v.walker.front.actor = some (.walker w)
  known : ∀ n, w.known.get? n = some x ↔ n = e
  watched : ∃ k target, s.site.Hears w.host k ⟨target, s.conn.id, v.walker.front.actor⟩ ∧
    s.site.Covers w.host ⟨target, s.conn.id, v.walker.front.actor⟩ e
  counted : ∀ r ∈ w.queue, r.Counted
  form : (v.walker.tree.applyRecords w.queue).1.form? x = some f

namespace Follows

variable {v : Walking ServerEnd} {s : Scene} {w : WalkerActor} {e : NodeId} {x : String} {f : NodeForm}

theorem touch (follows : Follows v s w e x f) (distinct : (f.attrs.map Attribute.key).Nodup) (batch : List Touch) :
    ∃ t w' f', Follows { v with link := v.link.onServer (·.edit w.host (batch.map Touch.edit)) } t w' e x f' ∧
      w'.host = w.host ∧ t.site.dom w.host = (s.site.dom w.host).touchAll batch ∧
      (f'.attrs.map Attribute.key).Nodup ∧
      value? f'.attrs = Dom.hear e ((s.site.dom w.host).touchAll batch) batch (value? f.attrs) := by
  obtain ⟨k, target, hears, covers⟩ := follows.watched
  let site : Site := { s.site.edits w.host (batch.map Touch.edit) with mail := [] }
  have id : s.conn.id = v.link.peer.connection := Server.id_of_connection? follows.quiet.conn
  have here := follows.quiet.site
  obtain ⟨c, records, site_eq, conn, reads, only, all⟩ := Server.edit_touches follows.quiet.conn
    (here ▸ follows.quiet.mail) follows.quiet.isOpen follows.live batch (here ▸ id ▸ hears) (here ▸ id ▸ covers)
  rw [here] at site_eq reads only all
  have isOpen : c.isOpen = true := by
    rw [Connection.isOpen, reads.stage]
    exact follows.quiet.isOpen
  have quiet := Link.quiet_onServer (l := v.link) (f := (·.edit w.host (batch.map Touch.edit))) (t := ⟨site, c⟩) conn
    site_eq isOpen (reads.line.trans follows.quiet.up) rfl follows.quiet.listening
  obtain ⟨f', form, distinct', values⟩ := KnownTree.form?_applyRecords_batch follows.known follows.form distinct only all
  have dom : site.dom w.host = (s.site.dom w.host).touchAll batch := Site.dom_edits s.site w.host _
  refine ⟨_, { w with queue := w.queue ++ records }, f', ⟨quiet, follows.front, reads.live, follows.known, ?_, ?_, ?_⟩,
    rfl, dom, distinct', values⟩
  · have same : c.id = s.conn.id := reads.id
    refine ⟨k, target, ?_, ?_⟩
    · change site.Hears w.host k ⟨target, c.id, v.walker.front.actor⟩
      rw [same]
      exact hears.edits _
    · change site.Covers w.host ⟨target, c.id, v.walker.front.actor⟩ e
      rw [same]
      exact covers.touches batch
  · intro r member
    rcases List.mem_append.mp member with old | new
    · exact follows.counted r old
    · obtain ⟨t, -, made⟩ := only r new
      obtain ⟨_, -, rfl⟩ := Option.map_eq_some_iff.mp made
      trivial
  · rw [KnownTree.applyRecords_append]
    exact form

theorem fetched (follows : Follows v s w e x f) (cleanup : Bool) :
    let m := (v.walker.tree.applyRecords w.queue).1
    let fetch : WalkerCall ServerEnd (List Mutation) := WalkerCall.getMutations cleanup
    (∃ records, Trial.result fetch v = .ok records) ∧
      ∃ l, Trial.after fetch v = ⟨{ v.walker with tree := if cleanup then m.cleanUp else m }, l⟩ ∧
        l.Quiet ((Walker.takeMutations v.walker.front.actor w cleanup).after s) := by
  intro m fetch
  have front : v.walker.front = ⟨v.walker.front.actor, Schema.walker⟩ := by rw [← follows.front]
  obtain ⟨reply, called, mutations, still⟩ := follows.quiet.getMutations follows.live cleanup
  let arguments := Front.arguments [("cleanup", some (.bool cleanup))]
  rw [← front] at called still
  have plain : v.walker.front.replyForms "getMutations" reply = [] := by
    rw [front]
    change Shape.fieldForms [("mutations", .array Schema.domMutation)] (.obj reply) = []
    rw [Shape.fieldForms, show (Json.obj reply).get? "mutations" = _ from mutations]
    simp [Shape.forms, Shape.fieldForms, Schema.forms_record]
  have read := WalkerCall.trial_callOn (v := v) called
  rw [plain] at read
  have answered : Trial.result (WalkerCall.call "getMutations" arguments) v = .ok reply := read.2 rfl
  have decoded : Json.listOf? Mutation.ofJson? (.arr (w.queue.map Mutation.toJson)) = some w.queue :=
    Json.listOf?_map fun r member => Mutation.ofJson?_toJson (follows.counted r member)
  let l := Trial.after (v.walker.front.call "getMutations" arguments) v.link
  have left : Trial.after (WalkerCall.call "getMutations" arguments) v = { v with link := l } := read.1
  rw [show fetch = WalkerCall.getMutations cleanup from rfl, WalkerCall.getMutations, (Trial.bind_ok answered).1,
    (Trial.bind_ok answered).2, left]
  simp only [mutations, Option.getD_some, decoded]
  exact ⟨⟨_, rfl⟩, l, rfl, still⟩

theorem fetch (follows : Follows v s w e x f) :
    ∃ t w', Follows (Trial.after (WalkerCall.getMutations false) v) t w' e x f ∧ w'.host = w.host ∧ t.site = s.site := by
  obtain ⟨-, l, after, quiet⟩ := follows.fetched false
  have live : ((Act.updateWalker v.walker.front.actor fun w => { w with queue := [] }).after s).find?
      v.walker.front.actor = some (.walker { w with queue := [] }) := by
    rw [Walker.after_updateWalker, follows.live]
    simp
  rw [after]
  exact ⟨_, { w with queue := [] }, ⟨quiet, follows.front, live, follows.known, follows.watched, nofun, follows.form⟩,
    rfl, rfl⟩

end Follows

/-! ### Runs -/

/-- What happens while attributes are edited: a host makes a batch of edits, or the client fetches what waits. -/
inductive Round
  | touch (batch : List Touch)
  | fetch

def Round.after (host : String) (v : Walking ServerEnd) : Round → Walking ServerEnd
  | .touch batch => { v with link := v.link.onServer (·.edit host (batch.map Touch.edit)) }
  | .fetch => Trial.after (WalkerCall.getMutations false) v

def Round.batch? : Round → Option (List Touch)
  | .touch batch => some batch
  | .fetch => none

variable {v : Walking ServerEnd} {s : Scene} {w : WalkerActor} {e : NodeId} {x : String} {f : NodeForm}

theorem Follows.run (follows : Follows v s w e x f) (distinct : (f.attrs.map Attribute.key).Nodup) (rounds : List Round) :
    let batches := rounds.filterMap Round.batch?
    ∃ t w' f', Follows (rounds.foldl (Round.after w.host) v) t w' e x f' ∧ w'.host = w.host ∧
      t.site.dom w.host = batches.foldl Dom.touchAll (s.site.dom w.host) ∧
      value? f'.attrs = Dom.heard e (s.site.dom w.host) (value? f.attrs) batches := by
  induction rounds generalizing v s w f with
  | nil => exact ⟨s, w, f, follows, rfl, rfl, rfl⟩
  | cons round rest ih =>
    cases round with
    | touch batch =>
      obtain ⟨s', w', f', follows', host, dom, distinct', values⟩ := follows.touch distinct batch
      obtain ⟨t, w'', f'', last, host', dom', values'⟩ := ih follows' distinct'
      rw [host] at last host' dom' values'
      rw [dom] at dom' values'
      rw [values] at values'
      exact ⟨t, w'', f'', last, host', dom', values'⟩
    | fetch =>
      obtain ⟨s', w', follows', host, site⟩ := follows.fetch
      obtain ⟨t, w'', f'', last, host', dom', values'⟩ := ih follows' distinct
      rw [host] at last host' dom' values'
      rw [site] at dom' values'
      exact ⟨t, w'', f'', last, host', dom', values'⟩

/-- Attributes of a node that a walker knows and watches are edited in batches, in any names and namespaces, while the
client, which had them from a form, fetches records now and then. After a last fetch, which may release orphans if the
node is none of them, the client has of each attribute what it had, or the value of the first attribute of the name, of
whatever namespace, at the end of the batch that edited it last. So if no other attribute had the name then, it has
just the attributes that the node has in the host, namespaces and all. -/
theorem attributes_mirrored (follows : Follows v s w e x f) (distinct : (f.attrs.map Attribute.key).Nodup)
    (agrees : value? f.attrs = value? ((s.site.dom w.host).attributes e)) (rounds : List Round) (cleanup : Bool) :
    let before := rounds.foldl (Round.after w.host) v
    let after := Trial.after (WalkerCall.getMutations cleanup) before
    let batches := rounds.filterMap Round.batch?
    (cleanup = true → after.walker.tree.knows x = true) →
    (∃ records, Trial.result (WalkerCall.getMutations cleanup) before = .ok records) ∧
    ∃ f', after.walker.tree.form? x = some f' ∧
      value? f'.attrs = Dom.heard e (s.site.dom w.host) (value? f.attrs) batches ∧
      (Dom.Sole e (s.site.dom w.host) batches →
        value? f'.attrs = value? ((after.link.peer.server.site.dom w.host).attributes e)) := by
  intro before after batches stays
  obtain ⟨t, w', f', last, host, dom, values⟩ := follows.run distinct rounds
  obtain ⟨fetched, l, left, quiet⟩ := last.fetched cleanup
  have site : after.link.peer.server.site.dom w.host = batches.foldl Dom.touchAll (s.site.dom w.host) := by
    have unmoved := Act.Unmoved.takeMutations before.walker.front.actor w' cleanup t trivial
    rw [show after = _ from left, quiet.site, unmoved.dom, dom]
  have form : after.walker.tree.form? x = some f' := by
    cases cleanup with
    | false =>
      rw [show after = _ from left]
      exact last.form
    | true =>
      have kept := KnownTree.keeps_cleanUp (before.walker.tree.applyRecords w'.queue).1 x
      rw [show after = _ from left] at stays ⊢
      exact (kept (stays rfl)).trans last.form
  refine ⟨fetched, f', form, values, fun sole => ?_⟩
  rw [values, site, agrees]
  exact Dom.heard_eq_value? sole

/-- What a form that has just been made of an element says of its attributes. -/
theorem attrs_ofInfo {d : Dom} {e : NodeId} (element : (d.info? e).any (·.kind = NodeKind.element)) (limit : Nat)
    (actor : String) (parent : Option String) :
    (NodeForm.ofInfo limit actor parent (d.info? e)).attrs = d.attributes e := by
  unfold Dom.info? at element ⊢
  unfold Dom.attributes
  generalize d.node? e = node at element ⊢
  cases node with
  | none => rfl
  | some node => exact if_pos (of_decide_eq_true element)

namespace Marking

def page (attrs : List Attribute) : Dom :=
  { nodes :=
      [(1, { kind := 9, children := [2] }), (2, { kind := 1, name := "p", parent := some 1, attrs := attrs })] }

def link : Link ServerEnd := Opening.link (page [⟨none, "a", "1"⟩, ⟨some "u", "b", "2"⟩])

def front : WalkerFront :=
  { front := ⟨"conn0.domwalker5", Schema.walker⟩, channel := 0
    tree := ((Trial.result (ofInspector "conn0.inspector1") link).toOption.map WalkerFront.tree).getD {} }

def client : Walking ServerEnd where
  walker := { front with tree := (followed link "conn0.inspector1" front [.call (.documentElement none)]).walker.tree }
  link := (followed link "conn0.inspector1" front [.call (.documentElement none)]).link

def scene : Scene :=
  ⟨client.link.peer.server.site, (client.link.peer.server.connection? client.link.peer.connection).getD { id := 0 }⟩

def walker : WalkerActor :=
  { host := "host", root := 1, known := [(1, "conn0.domnode6"), (2, "conn0.domnode7")] }

def form : NodeForm := .ofInfo 50 "conn0.domnode7" (some "conn0.domnode6") ((scene.site.dom walker.host).info? 2)

/-- An attribute goes, and later there is one of its name without a namespace. -/
def rounds : List Round :=
  [.touch [⟨2, (some "u", "b"), none⟩, ⟨2, (none, "a"), some "3"⟩], .fetch, .touch [⟨2, (none, "b"), some "4"⟩]]

theorem follows : Follows client scene walker 2 "conn0.domnode7" form := by
  have ⟨served, isOpen, up, sent, mail, listening, live, id, watches, within, known⟩ :
      (client.link.peer.server.connection? client.link.peer.connection).isSome = true ∧ scene.conn.isOpen = true ∧
      scene.conn.line = .up ∧ scene.conn.sent.isEmpty = true ∧ scene.site.mail.isEmpty = true ∧
      client.link.client.closed = false ∧ scene.walker? client.walker.front.actor = some walker ∧ scene.conn.id = 0 ∧
      (scene.site.host walker.host).observers = [(1, ⟨1, 0, client.walker.front.actor⟩)] ∧
      (scene.site.dom walker.host).isWithin 1 (scene.site.dom walker.host).reach 2 = true ∧
      (client.walker.tree.applyRecords walker.queue).1.form? "conn0.domnode7" = some form := by
    decide +kernel
  have conn := Option.getD_of_ne_none (Option.isSome_iff_ne_none.mp served) { id := 0 }
  refine ⟨⟨conn.symm, rfl, isOpen, up, List.isEmpty_iff.mp sent, List.isEmpty_iff.mp mail, listening⟩, rfl,
    Scene.walker?_eq_some.mp live, fun n => ?_, ⟨1, 1, ?_, ?_⟩, nofun, known⟩
  · simp only [walker, Table.get?]
    grind
  · rw [Site.Hears, watches, id]
    simp
  · rw [id]
    exact within

end Marking

/-- Attributes are changed and removed, and a name comes back in another namespace. -/
theorem attributes_mirrored_moved :
    Follows Marking.client Marking.scene Marking.walker 2 "conn0.domnode7" Marking.form ∧
    ∃ f', (Trial.after (WalkerCall.getMutations true)
        (Marking.rounds.foldl (Round.after "host") Marking.client)).walker.tree.form? "conn0.domnode7" = some f' ∧
      value? f'.attrs = value? [⟨none, "a", "3"⟩, ⟨none, "b", "4"⟩] := by
  let after := Trial.after (WalkerCall.getMutations true) (Marking.rounds.foldl (Round.after "host") Marking.client)
  have ⟨element, distinct, stays, sole, last⟩ :
      ((Marking.scene.site.dom Marking.walker.host).info? 2).any (·.kind = NodeKind.element) ∧
      (Marking.form.attrs.map Attribute.key).Nodup ∧
      after.walker.tree.knows "conn0.domnode7" = true ∧
      Dom.Sole 2 (Marking.scene.site.dom "host") (Marking.rounds.filterMap Round.batch?) ∧
      (after.link.peer.server.site.dom "host").attributes 2 = [⟨none, "a", "3"⟩, ⟨none, "b", "4"⟩] := by
    decide +kernel
  refine ⟨Marking.follows, ?_⟩
  obtain ⟨-, f', known, -, mirrored⟩ := attributes_mirrored Marking.follows distinct
    (congrArg value? (attrs_ofInfo element _ _ _)) Marking.rounds true fun _ => stays
  exact ⟨f', known, (mirrored sole).trans (congrArg value? last)⟩

/-- An element gets a second attribute of a name, in a namespace. The record takes the value from the first of that
name, and so does the client. -/
theorem value_from_other_namespace :
    ∃ (l : Link ServerEnd) (s : Scene) (d : Dom) (front : WalkerFront) (steps : List Step),
    l.Fresh s "conn0.inspector1" d ∧ Trial.result (ofInspector "conn0.inspector1") l = .ok front ∧
    let v := followed l "conn0.inspector1" front steps
    let w := (Step.fetch false).after v
    (Trial.result (WalkerCall.getMutations false) v).toOption =
        some [.attributes "conn0.domnode7" "x" (some "u") (some "1")] ∧
      value? ((w.link.peer.server.site.dom "host").attributes 2) (some "u", "x") = some "2" ∧
      (w.walker.tree.form? "conn0.domnode7").map (fun f => value? f.attrs (some "u", "x")) = some (some "1") := by
  let d := Marking.page [⟨none, "x", "1"⟩]
  let steps : List Step := [.call (.documentElement none), .edit "host" (.attr 2 "x" (some "u") (some "2"))]
  obtain ⟨front, opened, fits⟩ := Opening.passes (l := Opening.link d) (p := fun front =>
    let v := followed (Opening.link d) "conn0.inspector1" front steps
    let w := (Step.fetch false).after v
    decide ((Trial.result (WalkerCall.getMutations false) v).toOption =
        some [.attributes "conn0.domnode7" "x" (some "u") (some "1")]) &&
      decide (value? ((w.link.peer.server.site.dom "host").attributes 2) (some "u", "x") = some "2") &&
      decide ((w.walker.tree.form? "conn0.domnode7").map (fun f => value? f.attrs (some "u", "x")) = some (some "1")))
    (by decide +kernel)
  simp only [Bool.and_eq_true, decide_eq_true_eq, and_assoc] at fits
  exact ⟨_, _, _, front, steps, Opening.fresh (by decide +kernel), opened, fits⟩

end WalkerFront

end RemoteInspector
