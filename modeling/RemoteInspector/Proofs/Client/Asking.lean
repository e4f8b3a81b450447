import RemoteInspector.Client.Walker
import RemoteInspector.Proofs.Client.Calls
import RemoteInspector.Proofs.Client.Mirror
/-!
Asking a walker: a client that has just what the walker knows is in that position after every call.
-/
namespace RemoteInspector

/-! ### The site during a request -/

abbrev Act.Unmoved {γ : Type} (act : Act γ) : Prop :=
  Act.Keeps (fun _ => True) (fun s t => s.site.Unmoved t.site) act

namespace Act.Unmoved

theorem law : Act.Law Act.Unmoved :=
  keeps_law (fun s _ => .refl s.site) (fun first next => first.trans next) fun _ _ => trivial

theorem still {γ : Type} {act : Act γ} (same : ∀ s, (act.after s).site = s.site) : Act.Unmoved act := by
  intro s _
  rw [same s]
  exact .refl _

theorem ref (walker host : String) (node : NodeId) : Act.Unmoved (Walker.ref walker host node) := by
  intro s _
  cases known : s.known? walker node with
  | some name =>
    rw [(Walker.ref_of_known host known).2]
    exact .refl _
  | none =>
    rw [(Walker.ref_of_unknown host known).2]
    exact Walker.enrol_unmoved _ _ _ _ _

theorem walking (walker host : String) : Walking.Steps Act.Unmoved walker host where
  law := law
  read := still fun _ => rfl
  ref := ref walker host
  form := Walker.form?_law law (still fun _ => rfl) ref

theorem releaseNode (walker host name : String) : Act.Unmoved (Walker.releaseNode walker host name) :=
  Walker.releaseNode_law law (still fun _ => rfl) (fun name s _ => Scene.release_unmoved s name) walker host name

theorem takeMutations (walker : String) (w : WalkerActor) (cleanup : Bool) :
    Act.Unmoved (Walker.takeMutations walker w cleanup) := by
  refine law.bind (still fun _ => rfl) fun _ => ?_
  split
  · refine law.bind (still fun _ => rfl) fun _ => ?_
    exact law.bind (law.forM_mem fun name _ => releaseNode _ _ name) fun _ => law.pure _
  · exact law.pure _

theorem register (owner host : String) : Act.Unmoved (Walker.register owner host) := by
  refine law.bind (still fun _ => rfl) fun _ => law.bind (still fun _ => rfl) fun walker => ?_
  refine law.bind (ref _ _ _) fun name => ?_
  exact law.bind ((walking walker host).optionalForm _) fun _ => law.pure _

end Act.Unmoved

/-- Those who look into a document and change nothing there. -/
def Actor.looks : Actor → Bool
  | .inspector _ | .walker _ | .nodeList _ => true
  | _ => false

theorem Request.decide_unmoved {s : Scene} {self method : String} {packet : Fields} {act : Act Reply} {actor : Actor}
    (looks : actor.looks = true) (decided : Request.decide s self method packet actor = .ok act) :
    s.site.Unmoved (act.after s).site := by
  have steps : actor.Steps Act.Unmoved s self := by
    cases actor with
    | inspector i => exact ⟨Act.Unmoved.register _ _, fun _ => Act.Unmoved.still fun _ => rfl⟩
    | walker w =>
      exact ⟨Act.Unmoved.walking _ _, fun _ => Act.Unmoved.still fun _ => rfl,
        Act.Unmoved.releaseNode _ _, Act.Unmoved.takeMutations _ _⟩
    | nodeList l => exact fun w _ => Act.Unmoved.walking _ _
    | _ => cases looks
  exact (Request.decide_answering Act.Unmoved.law steps decided).law s trivial

/-! ### What is said -/

theorem Shape.write_str (text : String) : ∀ shape : Shape, shape.write (.str text) = .str text
  | .nullable inner => by
      rw [write]
      · exact write_str text inner
      · exact fun none => nomatch none
  | .primitive | .boolean | .number | .string | .json | .array _ | .dict _ _ | .actor _ => by simp [write]

namespace Method

variable {m : Method} {target key text : String} {arguments packet : Fields}

/-- No parameter has the name of another, or one that every packet has. -/
structure Plain (m : Method) : Prop where
  distinct : (m.request.map (·.name)).Nodup
  free : ∀ p ∈ m.request, p.name ∉ ["to", "type", "requestId"]

section

variable (written : m.write target arguments = .ok packet)

include written

theorem get?_write_head (plain : m.Plain) :
    packet.get? "to" = some (.str target) ∧ packet.get? "type" = some (.str m.name) := by
  rw [get?_write_ne written fun p member same => plain.free p member (by simp [same]),
    get?_write_ne written fun p member same => plain.free p member (by simp [same])]
  simp [Fields.get?_ofList]

theorem get?_write_given (plain : key ≠ "to" ∧ key ≠ "type") {value : Json} (there : packet.get? key = some value) :
    ∃ (p : Parameter) (j : Json), arguments.get? key = some j ∧ value = p.shape.write j := by
  rcases get?_write written there with head | ⟨p, -, -, j, given⟩
  · have none : (Fields.ofList [("to", .str target), ("type", .str m.name)]).get? key = none :=
      Fields.get?_ofList_eq_none (by simpa using ⟨plain.1.symm, plain.2.symm⟩)
    cases none.symm.trans head
  · exact ⟨p, j, given⟩

theorem get?_write_none (plain : key ≠ "to" ∧ key ≠ "type") (absent : arguments.get? key = none) :
    packet.get? key = none := by
  cases there : packet.get? key with
  | none => rfl
  | some value =>
    obtain ⟨_, _, given, -⟩ := get?_write_given written plain there
    cases absent.symm.trans given

theorem get?_write_str (plain : key ≠ "to" ∧ key ≠ "type") (given : arguments.get? key = some (.str text))
    {value : Json} (there : packet.get? key = some value) : value = .str text := by
  obtain ⟨p, _, given', rfl⟩ := get?_write_given written plain there
  cases given.symm.trans given'
  exact Shape.write_str text p.shape

end

end Method

theorem Schema.plain_of_listed {schema : Schema} {m : Method} (listed : schema ∈ all) (member : m ∈ schema.methods) :
    m.Plain := by
  have each : ∀ schema ∈ all, ∀ m ∈ schema.methods, (m.request.map (·.name)).Nodup ∧
      ∀ p ∈ m.request, p.name ∉ ["to", "type", "requestId"] := by decide
  exact ⟨(each schema listed m member).1, (each schema listed m member).2⟩

namespace Link.Quiet

variable {l : Link ServerEnd} {s : Scene} {f : Front} {method : String} {arguments : Fields}

theorem call_looks (quiet : l.Quiet s) (arguments : Fields) (known : f.schema ∈ Schema.all)
    (looks : ∀ actor m, s.find? f.actor = some actor → actor.schema.method? method = some m →
      actor.looks = true ∧ m.release = false) :
    (∃ e, Trial.result (f.call method arguments) l = .error e ∧
      (Trial.after (f.call method arguments) l).Quiet s) ∨
    ∃ m packet actor m' act reply, f.schema.method? method = some m ∧ m.write f.actor arguments = .ok packet ∧
      s.find? f.actor = some actor ∧ actor.schema.method? method = some m' ∧
      Request.decide s f.actor m'.name (l.numbered packet) actor = .ok act ∧
      Trial.result (f.call method arguments) l = .ok reply ∧ Reply.Sent (act.result s) reply ∧
      (Trial.after (f.call method arguments) l).Quiet (act.after s) := by
  rcases quiet.call_cases f method arguments with failed | ⟨m, packet, listed, written, sender, actor, m', act, taken, goes⟩
  · exact .inl failed
  · obtain ⟨target, type⟩ := Method.get?_write_head written
      (Schema.plain_of_listed known (List.mem_of_find?_eq_some listed))
    have addressed := taken.addressed
    rw [get?_numbered_ne (by decide), target] at addressed
    cases addressed
    obtain ⟨kind, typed, found⟩ := taken.checked
    rw [get?_numbered_ne (by decide), type, Walker.method_named listed] at typed
    cases typed
    obtain ⟨looks, stays⟩ := looks actor m' taken.live found
    have unmoved := Request.decide_unmoved looks taken.decided
    obtain ⟨reply, result, sent, still⟩ := goes stays (unmoved.mail.trans quiet.mail)
    exact .inr ⟨m, packet, actor, m', act, reply, listed, written, taken.live, found, taken.decided, result, sent,
      still⟩

end Link.Quiet

/-! ### Steps of a client with a walker -/

namespace WalkerCall

variable {α β : Type} {v : Walking ServerEnd}

theorem trial_onLink (act : Calling ServerEnd α) (v : Walking ServerEnd) :
    Trial.result (onLink act) v = Trial.result act v.link ∧
      Trial.after (onLink act) v = { v with link := Trial.after act v.link } :=
  ⟨rfl, rfl⟩

theorem trial_onTree (f : KnownTree → KnownTree) (v : Walking ServerEnd) :
    Trial.result (onTree f : WalkerCall ServerEnd Unit) v = .ok () ∧
      Trial.after (onTree f : WalkerCall ServerEnd Unit) v =
        { v with walker := { v.walker with tree := f v.walker.tree } } :=
  ⟨rfl, rfl⟩

theorem after_bind_still {x : WalkerCall ServerEnd α} {f : α → WalkerCall ServerEnd β}
    (still : ∀ a v, Trial.after (f a) v = v) : Trial.after (x >>= f) v = Trial.after x v := by
  cases done : Trial.result x v with
  | ok a => rw [(Trial.bind_ok done).2, still]
  | error e => exact (Trial.bind_error done).2

def readNode (form : Json) : WalkerCall ServerEnd Unit := do
  match (← get).walker.tree.read form with
  | .ok (m, _) => onTree fun _ => m
  | .error e => throw e

theorem readForms_cons (typeName : String) (form : Json) (rest : List (String × Json)) :
    (readForms ((typeName, form) :: rest) : WalkerCall ServerEnd Unit) =
      ((if typeName = "domnode" then readNode form else pure ()) >>= fun _ => readForms rest) :=
  rfl

theorem trial_readNode {form : NodeForm} (readable : NodeForm.ofJson? form.toJson = some form)
    (v : Walking ServerEnd) : Trial.result (readNode form.toJson) v = .ok () ∧
      Trial.after (readNode form.toJson) v =
        { v with walker := { v.walker with tree := v.walker.tree.readForm form } } := by
  have here : v.walker.tree.read form.toJson = .ok (v.walker.tree.readForm form, form.actor) := by
    rw [KnownTree.read, readable]
  have start : Trial.result (get : WalkerCall ServerEnd (Walking ServerEnd)) v = .ok v := rfl
  obtain ⟨result, after⟩ := Trial.bind_ok (f := fun u : Walking ServerEnd =>
    match u.walker.tree.read form.toJson with
    | .ok (m, _) => onTree fun _ => m
    | .error e => throw e) start
  rw [here] at result after
  exact ⟨result, after⟩

theorem trial_readForms {forms : List NodeForm} (readable : ∀ f ∈ forms, NodeForm.ofJson? f.toJson = some f)
    (v : Walking ServerEnd) :
    let read : WalkerCall ServerEnd Unit := readForms (forms.map fun f => ("domnode", f.toJson))
    Trial.result read v = .ok () ∧ Trial.after read v =
      { v with walker := { v.walker with tree := forms.foldl KnownTree.readForm v.walker.tree } } := by
  intro read
  induction forms generalizing v with
  | nil => exact ⟨rfl, rfl⟩
  | cons f rest ih =>
    obtain ⟨done, left⟩ := trial_readNode (readable f (by simp)) v
    obtain ⟨result, after⟩ := Trial.bind_ok (f := fun _ => (readForms
      (rest.map fun f => ("domnode", f.toJson)) : WalkerCall ServerEnd Unit)) done
    obtain ⟨result', after'⟩ := ih (fun g member => readable g (by simp [member]))
      { v with walker := { v.walker with tree := v.walker.tree.readForm f } }
    have split : read = (readNode f.toJson >>= fun _ => readForms (rest.map fun f => ("domnode", f.toJson))) := by
      rw [show read = readForms (("domnode", f.toJson) :: rest.map fun f => ("domnode", f.toJson)) from rfl,
        readForms_cons, if_pos rfl]
    rw [left] at result after
    rw [split]
    exact ⟨result.trans result', after.trans after'⟩

theorem trial_readForms_other {forms : List (String × Json)} (other : ∀ f ∈ forms, f.1 ≠ "domnode")
    (v : Walking ServerEnd) :
    Trial.result (readForms forms : WalkerCall ServerEnd Unit) v = .ok () ∧
      Trial.after (readForms forms : WalkerCall ServerEnd Unit) v = v := by
  induction forms with
  | nil => exact ⟨rfl, rfl⟩
  | cons f rest ih =>
    obtain ⟨typeName, form⟩ := f
    rw [readForms_cons, if_neg (other (typeName, form) (by simp)), pure_bind]
    exact ih fun g member => other g (by simp [member])

theorem link_readForms (forms : List (String × Json)) (v : Walking ServerEnd) :
    (Trial.after (readForms forms : WalkerCall ServerEnd Unit) v).link = v.link := by
  induction forms generalizing v with
  | nil => rfl
  | cons f rest ih =>
    obtain ⟨typeName, form⟩ := f
    have first : (Trial.after (if typeName = "domnode" then readNode form else pure ()) v).link = v.link := by
      split
      · have start : Trial.result (get : WalkerCall ServerEnd (Walking ServerEnd)) v = .ok v := rfl
        rw [readNode, (Trial.bind_ok start).2]
        cases v.walker.tree.read form <;> rfl
      · rfl
    rw [readForms_cons]
    cases done : Trial.result (if typeName = "domnode" then readNode form else pure ()) v with
    | ok u => rw [(Trial.bind_ok done).2, ih, first]
    | error e => rw [(Trial.bind_error done).2, first]

theorem trial_callOn {front : Front} {method : String} {arguments reply : Fields}
    (called : Trial.result (front.call method arguments) v.link = .ok reply) :
    let read : WalkerCall ServerEnd Unit := readForms (front.replyForms method reply)
    let v' : Walking ServerEnd := { v with link := Trial.after (front.call method arguments) v.link }
    Trial.after (callOn front method arguments) v = Trial.after read v' ∧
      (Trial.result read v' = .ok () → Trial.result (callOn front method arguments) v = .ok reply) := by
  intro read v'
  have first : Trial.result (onLink (front.call method arguments)) v = .ok reply := called
  obtain ⟨result, after⟩ := Trial.bind_ok (f := fun reply => do
    readForms (front.replyForms method reply)
    return reply) first
  refine ⟨after.trans (after_bind_still fun _ _ => rfl), fun done => result.trans ?_⟩
  exact (Trial.bind_ok (f := fun _ => (pure reply : WalkerCall ServerEnd Fields)) done).1

theorem trial_callOn_error {front : Front} {method : String} {arguments : Fields} {e : ClientError}
    (failed : Trial.result (front.call method arguments) v.link = .error e) :
    Trial.result (callOn front method arguments) v = .error e ∧
      Trial.after (callOn front method arguments) v =
        { v with link := Trial.after (front.call method arguments) v.link } :=
  Trial.bind_error (x := onLink (front.call method arguments)) failed

end WalkerCall

/-! ### A client that keeps up -/

/-- The client of a walker, with nothing under way. The walker knows the root document and of any other
node those above it; its lists are of nodes of the document; and the client has what the walker knows. -/
structure Abreast (d : Dom) (own root : String) (v : Walking ServerEnd) (s : Scene) (w : WalkerActor) : Prop where
  quiet : v.link.Quiet s
  front : v.walker.front = ⟨own, Schema.walker⟩
  dom : s.site.dom w.host = d
  holds : Walker.Holds s own w
  base : w.root = d.root
  rooted : w.known.get? d.root = some root
  closed : Walker.Closed d w
  lists : ∀ {name l}, s.find? name = some (.nodeList l) →
    l.walker = own ∧ ∀ n ∈ l.nodes, d.Under n d.root ∧ Walk.shown d .all n = true
  mirrors : Walker.Mirrors d w v.walker.tree
  top : v.walker.tree.root = some root

namespace Walker

variable {s t : Scene} {own : String} {w : WalkerActor}

theorem Holds.beside (holds : Holds s own w) (valid : t.Valid) (walker : t.find? own = some (.walker w))
    (same : ∀ {x a}, t.find? x = some (.node a) ↔ s.find? x = some (.node a)) : Holds t own w where
  valid := valid
  walker := walker
  known here := (holds.known here).imp fun _ => same.mpr
  node found := holds.node (same.mp found)

end Walker

namespace Abreast

variable {d : Dom} {own root : String} {v : Walking ServerEnd} {s : Scene} {w : WalkerActor} {packet : Fields}

section

variable (abreast : Abreast d own root v s w)

include abreast

theorem asked (wf : d.WellFormed) (all : packet.get? "whatToShow" = none) : Walker.Asked s own d w packet where
  dom := abreast.dom
  wf := wf
  holds := abreast.holds
  root := abreast.base
  rooted := ⟨root, abreast.rooted⟩
  firm _ _ _ _ _ known := abreast.closed.firm known
  all := all

theorem failed {l : Link ServerEnd} (still : l.Quiet s) : Abreast d own root { v with link := l } s w :=
  { abreast with quiet := still }

theorem told {t : Scene} {w' : WalkerActor} {told : List NodeId} (tells : Walker.Tells own d s t w w' told)
    {l : Link ServerEnd} (still : l.Quiet t) :
    Abreast d own root ⟨{ v.walker with tree :=
      (told.map (Walker.formOf s w')).foldl KnownTree.readForm v.walker.tree }, l⟩ t w' := by
  have learns := tells.learns
  constructor
  case quiet => exact still
  case front => exact abreast.front
  case dom => exact learns.dom_eq abreast.dom
  case holds => exact learns.holds
  case base => rw [learns.rest, ← abreast.base]
  case rooted => exact learns.kept abreast.rooted
  case closed => exact abreast.closed.tells tells
  case lists =>
    intro name l found
    have other : name ≠ own := by
      rintro rfl
      cases learns.holds.walker.symm.trans found
    rw [learns.others other fun a node => nomatch node.symm.trans found] at found
    exact abreast.lists found
  case mirrors => exact abreast.mirrors.tells abreast.closed tells abreast.dom
  case top =>
    have kept (forms : List NodeForm) (m : KnownTree) : (forms.foldl KnownTree.readForm m).root = m.root := by
      induction forms generalizing m with
      | nil => rfl
      | cons f rest ih => exact (ih _).trans (m.orphans_readForm f).2
    exact (kept _ _).trans abreast.top

theorem listed {nodes : List NodeId} (under : ∀ n ∈ nodes, d.Under n d.root ∧ Walk.shown d .all n = true)
    (few : s.conn.registry.next < UInt32.size) {l : Link ServerEnd}
    (still : l.Quiet ((Act.register "domnodelist" own (.nodeList ⟨own, nodes⟩)).after s)) :
    Abreast d own root { v with link := l }
      ((Act.register "domnodelist" own (.nodeList ⟨own, nodes⟩)).after s) w := by
  have holds := abreast.holds
  have kind : "domnodelist" ∈ Registry.kinds := by decide
  have fresh := holds.fresh few "domnodelist" kind
  have find := Scene.find?_register own (.nodeList ⟨own, nodes⟩) fresh
  have orderly : Act.Orderly 4 (fun r => Registry.Above r 4 own)
      (Act.register "domnodelist" own (.nodeList ⟨own, nodes⟩)) :=
    .register kind (Nat.le_refl 4) (fun _ => id) rfl rfl
  have valid := ((orderly s trivial).follows few holds.valid holds.above).valid
  refine { abreast with quiet := still, holds := holds.beside valid ?_ ?_, lists := ?_ }
  · rw [find, if_neg, holds.walker]
    intro same
    cases (same ▸ fresh).symm.trans holds.walker
  · intro x a
    rw [find]
    split
    · rename_i same
      subst same
      simp [fresh]
    · rfl
  · intro name l found
    rw [find] at found
    split at found
    · cases found
      exact ⟨rfl, under⟩
    · exact abreast.lists found

theorem released (wf : d.WellFormed) {name : String} {n : NodeId} (known : w.known.get? n = some name)
    (inner : name ≠ root) {l : Link ServerEnd} (still : l.Quiet ((Walker.releaseNode own w.host name).after s)) :
    ∃ w', Abreast d own root ⟨{ v.walker with tree := v.walker.tree.destroy name }, l⟩
      ((Walker.releaseNode own w.host name).after s) w' := by
  have holds := abreast.holds
  obtain ⟨w', forgets⟩ := Walker.releaseNode_forgets abreast.dom wf holds rfl known
  have stays : ¬ Walker.Hangs d w d.root n := by
    intro hangs
    rcases hangs.under.cases_up with rfl | ⟨p, up, -⟩
    · cases known.symm.trans abreast.rooted
      exact inner rfl
    · exact nomatch wf.up_root.symm.trans up
  refine ⟨w', ?_⟩
  constructor
  case quiet => exact still
  case front => exact abreast.front
  case dom => rw [forgets.unmoved.dom, forgets.rest, ← abreast.dom]
  case holds => exact forgets.holds
  case base => rw [forgets.rest, ← abreast.base]
  case rooted => exact (forgets.kept stays).trans abreast.rooted
  case closed => exact abreast.closed.forgets forgets
  case lists =>
    intro x l found
    have other : x ≠ own := by
      rintro rfl
      cases forgets.holds.walker.symm.trans found
    exact abreast.lists (forgets.old other found)
  case mirrors => exact abreast.mirrors.destroy abreast.closed holds known forgets
  case top =>
    have pruned := abreast.mirrors.sound.destroy name
    refine pruned.root.mpr ⟨abreast.top, fun under => stays ?_⟩
    exact (abreast.mirrors.under_iff abreast.closed abreast.rooted known holds).mp under

end

/-- The client is in that position again at a later time, as long as the names have lasted. -/
def Again (d : Dom) (own root : String) (s : Scene) (v : Walking ServerEnd) : Prop :=
  ∃ t, v.link.Quiet t ∧ s.conn.registry.next ≤ t.conn.registry.next ∧
    (t.conn.registry.next ≤ UInt32.size → ∃ w, Abreast d own root v t w)

/-- The methods by which a client asks for nodes and gets their forms, or a list of them. -/
def asking : List String :=
  ["document", "documentElement", "parents", "children", "siblings", "nextSibling", "previousSibling",
    "querySelector", "querySelectorAll"]

theorem kept_walker : ∀ m ∈ Schema.walker.methods, m.name ≠ "release" → m.release = false := by
  decide

section

variable (abreast : Abreast d own root v s w)

include abreast

theorem call_walker {method : String} (stays : method ≠ "release") (arguments : Fields) :
    let call : Calling ServerEnd Fields := v.walker.front.call method arguments
    (∃ e, Trial.result call v.link = .error e ∧ (Trial.after call v.link).Quiet s) ∨
    ∃ m packet act reply, Schema.walker.method? method = some m ∧ m.write own arguments = .ok packet ∧
      Walker.decide s own w method (v.link.numbered packet) = .ok act ∧
      Trial.result call v.link = .ok reply ∧ Reply.Sent (act.result s) reply ∧
      (Trial.after call v.link).Quiet (act.after s) ∧
      s.conn.registry.next ≤ (act.after s).conn.registry.next := by
  rw [abreast.front]
  have live := abreast.holds.walker
  have looks (actor : Actor) (m : Method) (found : s.find? own = some actor)
      (named : actor.schema.method? method = some m) : actor.looks = true ∧ m.release = false := by
    cases live.symm.trans found
    exact ⟨rfl, kept_walker m (List.mem_of_find?_eq_some named) (Walker.method_named named ▸ stays)⟩
  rcases abreast.quiet.call_looks (f := ⟨own, Schema.walker⟩) arguments (by simp [Schema.all]) looks with
    failed | ⟨m, packet, actor, m', act, reply, found, written, found', named, decided, result, sent, still⟩
  · exact .inl failed
  · cases live.symm.trans found'
    have later := (Request.decide_orderly live decided).later
    rw [Walker.method_named named] at decided
    exact .inr ⟨m, packet, act, reply, found, written, decided, result, sent, still, later⟩

theorem callOn_deed (wf : d.WellFormed) {front : Front} {method : String} {arguments reply : Fields} {m : Method}
    {act : Act Reply} (found : front.schema.method? method = some m)
    (called : Trial.result (front.call method arguments) v.link = .ok reply) (sent : Reply.Sent (act.result s) reply)
    (still : (Trial.after (front.call method arguments) v.link).Quiet (act.after s))
    (later : s.conn.registry.next ≤ (act.after s).conn.registry.next) (deed : Walker.Deed own d s w m act)
    (asks : m.name ∉ ["releaseNode", "getMutations", "release"])
    (lists : m.name = "querySelectorAll" → m.response = [("list", .actor "domnodelist")]) :
    Again d own root s (Trial.after (WalkerCall.callOn front method arguments) v) := by
  obtain ⟨after, -⟩ := WalkerCall.trial_callOn called
  have forms : front.replyForms method reply = m.replyForms (.obj reply) := by
    rw [Front.replyForms, found, Option.elim_some]
  rw [after, forms]
  refine ⟨act.after s, ?_, later, fun few => ?_⟩
  · rw [WalkerCall.link_readForms]
    exact still
  · cases deed with
    | tells describes =>
      obtain ⟨w', told, tells, told_forms⟩ := describes few
      have here : s.site.dom w'.host = d := by rw [tells.learns.host_eq, abreast.dom]
      have readable : ∀ f ∈ told.map (Walker.formOf s w'), NodeForm.ofJson? f.toJson = some f := by
        intro f member
        obtain ⟨n, -, rfl⟩ := List.mem_map.mp member
        exact Walker.ofJson?_formOf (here.symm ▸ wf) n
      obtain ⟨-, read⟩ := WalkerCall.trial_readForms readable
        { v with link := Trial.after (front.call method arguments) v.link }
      rw [List.map_map] at read
      rw [told_forms reply sent]
      exact ⟨w', read ▸ abreast.told tells still⟩
    | lists nodes under named =>
      have other : ∀ f ∈ m.replyForms (.obj reply), f.1 ≠ "domnode" := by
        rw [Method.replyForms, lists named]
        simp only [Shape.fieldForms, List.append_nil]
        intro f member
        cases there : (Json.obj reply).get? "list" with
        | none =>
          rw [there] at member
          cases member
        | some form =>
          rw [there, Option.elim_some] at member
          cases form <;> simp [Shape.forms] at member
          rw [member]
          exact show "domnodelist" ≠ "domnode" by decide
      rw [(WalkerCall.trial_readForms_other other _).2]
      exact ⟨w, abreast.listed under (Nat.lt_of_succ_le few) still⟩
    | releases known named => exact absurd named (by simp at asks; exact asks.1)
    | takes cleanup named => exact absurd named (by simp at asks; exact asks.2.1)
    | leaves named => exact absurd named (by simp at asks; exact asks.2.2)

theorem ask (wf : d.WellFormed) {method : String} (listed : method ∈ asking) {arguments : Fields}
    (all : arguments.get? "whatToShow" = none) :
    Again d own root s (Trial.after (WalkerCall.call method arguments) v) := by
  have other : method ∉ ["releaseNode", "getMutations", "release"] := by
    revert listed
    revert method
    decide
  have stays : method ≠ "release" := fun same => other (by simp [same])
  change Again d own root s (Trial.after (WalkerCall.callOn v.walker.front method arguments) v)
  rcases abreast.call_walker stays arguments with ⟨e, failed, still⟩ |
    ⟨m, packet, act, reply, found, written, decided, called, sent, still, later⟩
  · rw [(WalkerCall.trial_callOn_error failed).2]
    exact ⟨s, still, Nat.le_refl _, fun _ => ⟨w, abreast.failed still⟩⟩
  · have named := Walker.method_named found
    have asked : Walker.Asked s own d w (v.link.numbered packet) := by
      apply abreast.asked wf
      rw [Link.get?_numbered_ne (by decide)]
      exact Method.get?_write_none written (by decide) all
    have listed : v.walker.front.schema.method? method = some m := by rw [abreast.front]; exact found
    refine abreast.callOn_deed wf listed called sent still later (Walker.decide_deed asked found decided)
      (by rw [named]; exact other) fun same => ?_
    rw [← named, same] at found
    cases found
    rfl

theorem askList (wf : d.WellFormed) {front : Front} (schema : front.schema = Schema.nodeList) {method : String}
    (listed : method ∈ ["item", "items"]) {arguments : Fields} (all : arguments.get? "whatToShow" = none) :
    Again d own root s (Trial.after (WalkerCall.callOn front method arguments) v) := by
  have other : method ∉ ["querySelectorAll", "releaseNode", "getMutations", "release"] := by
    revert listed
    revert method
    decide
  have lists (actor : Actor) (m : Method) (named : actor.schema.method? method = some m) :
      (∃ l, actor = .nodeList l) ∧ m.release = false := by
    simp only [List.mem_cons, List.not_mem_nil, or_false] at listed
    rcases listed with rfl | rfl <;> cases actor <;> cases named <;> exact ⟨⟨_, rfl⟩, rfl⟩
  have looks (actor : Actor) (m : Method) (_ : s.find? front.actor = some actor)
      (named : actor.schema.method? method = some m) : actor.looks = true ∧ m.release = false := by
    obtain ⟨⟨l, rfl⟩, stays⟩ := lists actor m named
    exact ⟨rfl, stays⟩
  rcases abreast.quiet.call_looks arguments (by simp [schema, Schema.all]) looks with
    ⟨e, failed, still⟩ | ⟨m, packet, actor, m', act, reply, found, written, live, named, decided, called, sent, still⟩
  · rw [(WalkerCall.trial_callOn_error failed).2]
    exact ⟨s, still, Nat.le_refl _, fun _ => ⟨w, abreast.failed still⟩⟩
  · obtain ⟨⟨l, rfl⟩, -⟩ := lists actor m' named
    have later := (Request.decide_orderly live decided).later
    have same : m = m' := Option.some.inj (by rw [← found, schema, ← named]; rfl)
    subst same
    obtain ⟨mine, under⟩ := abreast.lists live
    have asked : Walker.Asked s own d w (v.link.numbered packet) := by
      apply abreast.asked wf
      rw [Link.get?_numbered_ne (by decide)]
      exact Method.get?_write_none written (by decide) all
    rw [Walker.method_named named] at decided
    have deed := NodeList.decide_deed asked mine under named decided
    refine abreast.callOn_deed wf found called sent still later deed ?_ fun same => ?_
    · rw [Walker.method_named named]
      exact fun member => other (by simp at member ⊢; tauto)
    · rw [Walker.method_named named] at same
      exact absurd (by simp [same]) other

theorem release (wf : d.WellFormed) {node : String} (inner : node ≠ root) :
    Again d own root s (Trial.after (WalkerCall.releaseNode node) v) := by
  let arguments := Front.arguments [("node", some (.str node))]
  have split : (WalkerCall.releaseNode node : WalkerCall ServerEnd Unit) =
      (WalkerCall.call "releaseNode" arguments >>= fun _ => WalkerCall.onTree (·.destroy node)) := rfl
  rw [split]
  have release : "releaseNode" ≠ "release" := by decide
  rcases abreast.call_walker release arguments with ⟨e, failed, still⟩ |
    ⟨m, packet, act, reply, found, written, decided, called, sent, still, later⟩
  · obtain ⟨result, after⟩ := WalkerCall.trial_callOn_error failed
    rw [(Trial.bind_error (x := WalkerCall.call "releaseNode" arguments) result).2]
    refine ⟨s, ?_, Nat.le_refl _, fun _ => ⟨w, ?_⟩⟩
    · exact (congrArg Walking.link after).symm ▸ still
    · exact after.symm ▸ abreast.failed still
  · obtain ⟨after, result⟩ := WalkerCall.trial_callOn called
    have forms : v.walker.front.replyForms "releaseNode" reply = [] := by
      rw [abreast.front]
      rfl
    rw [forms] at after result
    have done : Trial.result (WalkerCall.call "releaseNode" arguments) v = .ok reply := result rfl
    rw [(Trial.bind_ok (x := WalkerCall.call "releaseNode" arguments) done).2]
    have here : Trial.after (WalkerCall.call "releaseNode" arguments) v =
        { v with link := Trial.after (v.walker.front.call "releaseNode" arguments) v.link } := after
    rw [here, (WalkerCall.trial_onTree _ _).2]
    obtain ⟨name, n, given, live, rfl⟩ := Walker.decide_releaseNode decided
    rw [Link.get?_numbered_ne (by decide)] at given
    cases Method.get?_write_str written (by decide) (show arguments.get? "node" = some (.str node) from rfl) given
    refine ⟨_, still, later, fun _ => ?_⟩
    exact abreast.released wf (abreast.holds.lookupNode live) inner still

end

end Abreast

end RemoteInspector
