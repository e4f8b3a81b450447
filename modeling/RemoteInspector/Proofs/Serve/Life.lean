import RemoteInspector.Proofs.Serve.Order
/-!
The life of a connection, turn after turn: no name is given twice, and the owners of all lead up to the root.
-/
namespace RemoteInspector

open Registry (Named Valid)

namespace Serve

/-- What can happen to a connection. -/
inductive Input
  | packet (packet : Json)
  | event (event : Event)
  | entered (tracer : String) (frame : LiveFrame)
  | left (tracer : String) (completion : Completion Value)
  | lineBroken
  | hungUp
  /-- What the connection has sent so far has been told. -/
  | told

/-- A turn of a connection finds the site as others have left it. -/
structure Turn where
  site : Site
  input : Input

/-- The scene after a turn. A connection that has ended only hears of frames it saw entered. -/
def step (s : Scene) : Input → Scene
  | .packet packet => if s.conn.isOpen then receive s packet else s
  | .event event => onEvent s event
  | .entered tracer frame => ((Tracer.onEnter tracer frame).run s : Id _).2
  | .left tracer completion => ((Tracer.onPop tracer completion).run s : Id _).2
  | .lineBroken => if s.conn.isOpen then s.setConn fun c => { c with line := .broken } else s
  | .hungUp => if s.conn.isOpen then close s else s
  | .told => s.setConn fun c => { c with sent := [], stage := if c.isOpen then .opened else .told }

def take (c : Connection) (turn : Turn) : Connection := (step ⟨turn.site, c⟩ turn.input).conn

/-- A connection that has just been made. -/
def Begun (c : Connection) : Prop :=
  ∃ site id line tabs, c = (start ⟨site, { id := id, line := line }⟩ tabs).conn

/-- A document and its element. -/
def pair : Dom := { nodes := [(1, { kind := 9, children := [2] }), (2, { kind := 1, parent := some 1 })] }

/-- A site with one page, which shows a document. -/
def onePage (d : Dom) : Site :=
  { pages := [(0, { tab := 7, host := "host", info := ⟨"", ""⟩ })], hosts := [("host", { dom := d })] }

/-- A connection to a site with one page. -/
def joined (site : Site) : Connection := (start ⟨site, { id := 0 }⟩ [(7, 0)]).conn

theorem begun_joined (site : Site) : Begun (joined site) := ⟨site, 0, .up, [(7, 0)], rfl⟩

def request (target type : String) (arguments : Fields) : Fields :=
  ("to", .str target) :: ("type", .str type) :: arguments

end Serve

/-! ### One turn -/

/-- The registry is in order, and has a root as long as the connection is open. -/
structure Connection.Sound (c : Connection) : Prop where
  valid : c.registry.Valid c.id
  rooted : c.isOpen → c.registry.Above 1 Tabs.rootName

/-- Names are never given again: the actors of a later state were there before or have newer ones. -/
structure Connection.Later (c c' : Connection) : Prop where
  id : c'.id = c.id
  later : c.registry.next ≤ c'.registry.next
  sound : c'.registry.next ≤ UInt32.size → c.Sound → c'.Sound ∧
    ∀ name ∈ c'.registry.names, name ∈ c.registry.names ∨
      Named c.id c.registry.next c'.registry.next name

namespace Connection.Later

variable {c c' c'' : Connection} {s t : Scene}

theorem refl (c : Connection) : c.Later c :=
  ⟨rfl, Nat.le_refl _, fun _ sound => ⟨sound, fun _ => .inl⟩⟩

theorem trans (first : c.Later c') (next : c'.Later c'') : c.Later c'' where
  id := next.id.trans first.id
  later := Nat.le_trans first.later next.later
  sound few sound := by
    obtain ⟨sound', fresh⟩ := first.sound (Nat.le_trans next.later few) sound
    obtain ⟨sound'', fresh'⟩ := next.sound few sound'
    refine ⟨sound'', fun name member => ?_⟩
    rcases fresh' name member with member | named
    · exact (fresh name member).imp_right fun named => named.widen (Nat.le_refl _) next.later
    · rw [first.id] at named
      exact .inr (named.widen first.later (Nat.le_refl _))

theorem of_open (isOpen : s.conn.isOpen)
    (step : Scene.Orderly 1 (fun r => r.Above 1 Tabs.rootName) s t) : s.conn.Later t.conn where
  id := step.id
  later := step.later
  sound few sound := by
    have follows := step.follows few sound.valid (sound.rooted isOpen)
    refine ⟨⟨step.id.symm ▸ follows.valid, fun _ => ?_⟩, follows.fresh⟩
    exact Registry.stable_above 1 _ _ _ follows.high (sound.rooted isOpen)

theorem of_ended (ended : ¬ t.conn.isOpen) (step : Scene.Orderly 0 (fun _ => True) s t) : s.conn.Later t.conn where
  id := step.id
  later := step.later
  sound few sound := by
    have follows := step.follows few sound.valid trivial
    exact ⟨⟨step.id.symm ▸ follows.valid, fun isOpen => absurd isOpen ended⟩, follows.fresh⟩

theorem same (id : c'.id = c.id) (registry : c'.registry = c.registry) (isOpen : c'.isOpen = c.isOpen) :
    c.Later c' where
  id := id
  later := Nat.le_of_eq (congrArg _ registry.symm)
  sound _ sound := by
    refine ⟨⟨?_, ?_⟩, fun name member => .inl (registry ▸ member)⟩
    · rw [id, registry]
      exact sound.valid
    · rw [isOpen, registry]
      exact sound.rooted

end Connection.Later

namespace Serve

theorem releaseAll_orderly (s : Scene) : Scene.Orderly 0 (fun _ => True) s s.releaseAll := by
  unfold Scene.releaseAll
  generalize s.conn.registry.roots = roots
  induction roots generalizing s with
  | nil => exact .refl s
  | cons name rest ih =>
    refine Scene.Orderly.trans (Registry.stable_true 0) (.release fun r _ above => ?_) (ih _)
    obtain ⟨rank, top, _⟩ := above
    exact absurd top (Nat.not_lt_zero _)

theorem close_orderly (s : Scene) : Scene.Orderly 0 (fun _ => True) s (close s) :=
  (releaseAll_orderly s).trans (Registry.stable_true 0) (.same rfl rfl)

theorem close_later (s : Scene) : s.conn.Later (close s).conn :=
  .of_ended (by simp [close, Scene.setConn, Connection.isOpen]) (close_orderly s)

theorem receive_later {s : Scene} (isOpen : s.conn.isOpen) (packet : Json) : s.conn.Later (receive s packet).conn := by
  unfold receive
  split
  · rename_i fields
    have handled := Request.handle_orderly s fields
    dsimp only
    split
    · exact .of_open isOpen (handled.weaken (by decide) fun _ _ => trivial)
    · refine .of_ended (by simp [close, Scene.setConn, Connection.isOpen]) ?_
      exact (handled.weaken (Nat.zero_le 3) fun _ _ => trivial).trans (Registry.stable_true 0)
        (close_orderly _)
  · exact .refl _

theorem report_later (s : Scene) (tracer type : String)
    (details : Site → Tracing → Site × List (String × Json)) :
    s.conn.Later ((Tracer.report tracer type details).after s).conn := by
  have written (t : Scene) (packet : Json) : t.conn.Later (t.write packet).conn := by
    unfold Scene.write
    split <;> exact .same rfl rfl rfl
  rw [Tracer.after_report]
  refine Connection.Later.trans ?_ (written _ _)
  exact .same rfl rfl rfl

theorem take_later (c : Connection) (turn : Turn) : c.Later (take c turn) := by
  obtain ⟨site, input⟩ := turn
  unfold take step
  cases input with
  | packet packet =>
    dsimp only
    split
    · rename_i isOpen
      exact receive_later (s := ⟨site, c⟩) isOpen packet
    · exact .refl c
  | event event =>
    dsimp only [onEvent]
    split
    · rename_i isOpen
      exact .of_open isOpen (follow_orderly ⟨site, c⟩ event)
    · exact .refl c
  | entered tracer frame => exact report_later ⟨site, c⟩ tracer _ _
  | left tracer completion => exact report_later ⟨site, c⟩ tracer _ _
  | lineBroken =>
    dsimp only
    split
    · exact .same rfl rfl rfl
    · exact .refl c
  | hungUp =>
    dsimp only
    split
    · exact close_later ⟨site, c⟩
    · exact .refl c
  | told =>
    refine .same rfl rfl ?_
    cases stage : c.stage <;> simp [Scene.setConn, Connection.isOpen, stage]

theorem foldl_take_later (c : Connection) (turns : List Turn) : c.Later (turns.foldl take c) := by
  induction turns generalizing c with
  | nil => exact .refl c
  | cons turn rest ih => exact (take_later c turn).trans (ih _)

/-! ### The beginning -/

theorem root_valid (id : ConnectionId) : Registry.Valid id { entries := [⟨Tabs.rootName, none, .root {}⟩] } where
  nodup := List.nodup_singleton _
  root e member _ := by
    cases List.mem_singleton.mp member
    exact ⟨rfl, rfl⟩
  owned e member owner owned := by
    cases List.mem_singleton.mp member
    cases owned
  scripts _ member := nomatch member
  objects e member actor found := by
    cases List.mem_singleton.mp member
    cases found
  mentions e member name mentioned := by
    cases List.mem_singleton.mp member
    cases mentioned

def rooted (site : Site) (id : ConnectionId) (line : Line) : Scene :=
  (Act.registerAs Tabs.rootName none (.root {})).after ⟨site, { id, line }⟩

def greeted (site : Site) (id : ConnectionId) (line : Line) (tabs : Table TabId PageId) : Scene :=
  ((tabs.forM fun (tab, page) => Tabs.add tab page).after (rooted site id line)).write Tabs.greeting

theorem start_eq (site : Site) (id : ConnectionId) (line : Line) (tabs : Table TabId PageId) :
    start ⟨site, { id, line }⟩ tabs =
      if (greeted site id line tabs).conn.line == .up then greeted site id line tabs
      else close (greeted site id line tabs) := rfl

theorem greeted_sound {site : Site} {id : ConnectionId} {line : Line} {tabs : Table TabId PageId}
    (few : (greeted site id line tabs).Few) : (greeted site id line tabs).conn.Sound := by
  have stable := Registry.stable_above 1 Tabs.rootName
  let listed : Scene := (tabs.forM fun (tab, page) => Tabs.add tab page).after (rooted site id line)
  have adding : Scene.Orderly 1 (fun r => r.Above 1 Tabs.rootName) (rooted site id line)
      (listed.write Tabs.greeting) :=
    Scene.Orderly.trans stable
      ((Act.orderly_law stable).forM_mem (fun entry _ => Tabs.add_orderly entry.1 entry.2) _ trivial)
      (Act.Orderly.event Tabs.greeting listed trivial)
  have first : (rooted site id line).conn.Sound :=
    ⟨root_valid id, fun _ => ⟨0, by decide, _, List.mem_singleton_self _, rfl, rfl⟩⟩
  exact ((Connection.Later.of_open rfl adding).sound few first).1

theorem sound_of_begun {c : Connection} (begun : Begun c) (few : c.Few) : c.Sound := by
  obtain ⟨site, id, line, tabs, rfl⟩ := begun
  rw [start_eq] at few ⊢
  split
  · rename_i up
    rw [if_pos up] at few
    exact greeted_sound few
  · rename_i down
    rw [if_neg down] at few
    have closed := close_later (greeted site id line tabs)
    exact (closed.sound few (greeted_sound (Nat.le_trans closed.later few))).1

end Serve

/-! ### The tree of owners -/

namespace Registry.Valid

variable {e : Entry}

variable {id : ConnectionId} {r : Registry}

section

variable (valid : r.Valid id)

include valid

theorem under_roots (member : e ∈ r.entries) : ∃ top ∈ r.roots, r.Under top e.name := by
  induction rank : e.actor.rank using Nat.strongRecOn generalizing e with
  | ind n ih =>
    cases owner : e.owner with
    | none =>
      refine ⟨e.name, List.mem_map.mpr ⟨e, List.mem_filter.mpr ⟨member, ?_⟩, rfl⟩, .refl⟩
      rw [owner]
      rfl
    | some o =>
      obtain ⟨_, rank', above, e', member', named, rank_eq⟩ := valid.owned e member o owner
      obtain ⟨top, listed, up⟩ := ih rank' (rank ▸ above) member' rank_eq
      exact ⟨top, listed, .tail (named ▸ up) (owns_iff.mpr ⟨e, member, rfl, owner⟩)⟩

theorem name_of_mem_roots {name : String} (listed : name ∈ r.roots) : name = "root" := by
  obtain ⟨e, member, rfl⟩ := List.mem_map.mp listed
  obtain ⟨member, free⟩ := List.mem_filter.mp member
  exact (valid.root e member (by simpa using free)).1

theorem under_root (member : e ∈ r.entries) : r.Under "root" e.name := by
  obtain ⟨top, listed, up⟩ := valid.under_roots member
  rwa [valid.name_of_mem_roots listed] at up

theorem nodup_children (owner : String) : (r.children owner).Nodup :=
  (List.filter_sublist.map _).nodup valid.nodup

theorem one_owner (member : e ∈ r.entries) (other : e.name ≠ "root") :
    ∃ owner, e.owner = some owner ∧ owner ∈ r.names ∧ (r.children owner).count e.name = 1 ∧
      ∀ owner', e.name ∈ r.children owner' → owner' = owner := by
  cases owned : e.owner with
  | none => exact absurd (valid.root e member owned).1 other
  | some owner =>
    obtain ⟨_, _, _, has⟩ := valid.owned e member owner owned
    refine ⟨owner, rfl, has.mem_names, ?_, fun owner' listed => ?_⟩
    · exact List.count_eq_one_of_mem (valid.nodup_children owner) (owns_iff.mpr ⟨e, member, rfl, owned⟩)
    · obtain ⟨e', member', named, owned'⟩ := owns_iff.mp listed
      rw [valid.entry_unique member' member named, owned] at owned'
      exact (Option.some.inj owned').symm

end

end Registry.Valid

namespace Serve

theorem handle_absent {s : Scene} {packet : Fields} {name : String} (absent : name ∉ s.conn.registry.names)
    (addressed : packet.get? "to" = some (.str name)) :
    Request.handle s packet = Request.reject s packet name (.noSuchActor name) := by
  have dead : s.find? name = none := Registry.find?_eq_none.mpr absent
  simp [Request.handle, addressed, Json.string?, dead]

/-- As long as the names last, whatever a connection goes through: a number makes one name only, each
registered actor but the root has been given its name, and what is new has a new name; a name that was
given and is not registered stays so, and packets for it find no actor; each actor but the root has one
owner, registered, that lists it once, and the root is above all; the actor of an object is registered
and looks into that object; and a release takes out an actor with what is under it, and nothing else. -/
theorem registry_in_order {c : Connection} (begun : Begun c) (turns later : List Turn)
    (few : (later.foldl take (turns.foldl take c)).registry.next ≤ UInt32.size) :
    let now := turns.foldl take c
    let next := later.foldl take now
    (∀ kind ∈ Registry.kinds, ∀ kind' ∈ Registry.kinds, ∀ m < next.registry.next, ∀ n < next.registry.next,
      Registry.nameOf c.id kind m = Registry.nameOf c.id kind' n → m = n) ∧
    (∀ name ∈ now.registry.names, name = Tabs.rootName ∨ Named c.id 0 now.registry.next name) ∧
    (∀ name ∈ next.registry.names, name ∈ now.registry.names ∨
      Named c.id now.registry.next next.registry.next name) ∧
    (∀ name, Named c.id 0 now.registry.next name → name ∉ now.registry.names →
      name ∉ next.registry.names ∧ ∀ site packet, Fields.get? packet "to" = some (.str name) →
        Request.handle ⟨site, next⟩ packet = Request.reject ⟨site, next⟩ packet name (.noSuchActor name)) ∧
    (∀ e ∈ now.registry.entries, e.name ≠ Tabs.rootName →
      ∃ owner, e.owner = some owner ∧ owner ∈ now.registry.names ∧
        (now.registry.children owner).count e.name = 1 ∧
        (∀ owner', e.name ∈ now.registry.children owner' → owner' = owner) ∧
        now.registry.Under Tabs.rootName e.name) ∧
    (∀ p ∈ now.registry.scripts, ∃ actor : ObjectActor,
      now.registry.find? p.2 = some (.object actor) ∧ actor.object.id = p.1) ∧
    ∀ site name x, x ∈ (Scene.release ⟨site, now⟩ name).conn.registry.names ↔
      x ∈ now.registry.names ∧ ¬ now.registry.Under name x := by
  intro now next
  have first := foldl_take_later c turns
  have second := foldl_take_later now later
  have few_now : now.Few := Nat.le_trans second.later few
  have sound := (first.sound few_now (sound_of_begun begun (Nat.le_trans first.later few_now))).1
  have valid : now.registry.Valid c.id := first.id ▸ sound.valid
  have fresh := (second.sound few sound).2
  rw [first.id] at fresh
  refine ⟨?_, fun name => valid.name_given, fresh, ?_, ?_, ?_, ?_⟩
  · intro kind listed kind' listed' m below n below'
    exact Registry.nameOf_injective listed listed' (Nat.lt_of_lt_of_le below few)
      (Nat.lt_of_lt_of_le below' few)
  · intro name given gone
    have stays_gone : name ∉ next.registry.names := fun back =>
      (fresh name back).elim gone fun again => given.disjoint again (Nat.le_refl _) few
    exact ⟨stays_gone, fun site packet => handle_absent (s := ⟨site, next⟩) stays_gone⟩
  · intro e member other
    obtain ⟨owner, owned, registered, once, unique⟩ := valid.one_owner member other
    exact ⟨owner, owned, registered, once, unique, valid.under_root member⟩
  · intro p member
    obtain ⟨e, listed, named, actor, object, number⟩ := valid.scripts p member
    refine ⟨actor, ?_, number⟩
    rw [← named, valid.find?_name listed, Actor.object?_eq_some.mp object]
  · intro site name x
    exact (Scene.release_pruned (s := ⟨site, now⟩) valid name).mem_names

/-- A tab that is closed is gone for good, even if its page is announced again. -/
theorem registry_in_order_tab_closed : ∃ (c : Connection) (turns later : List Turn), Begun c ∧
    (later.foldl take (turns.foldl take c)).registry.next ≤ UInt32.size ∧
    "conn0.tab0" ∈ c.registry.names ∧
    "conn0.tab0" ∉ (later.foldl take (turns.foldl take c)).registry.names := by
  let site := onePage {}
  have order := registry_in_order (begun_joined site) [⟨site, .event (.tabClosed 7)⟩] [⟨site, .event (.tabAdded 7 0)⟩]
    (by decide +kernel)
  have given : Named 0 0 5 "conn0.tab0" := ⟨"tab", by decide, 0, Nat.le_refl 0, by decide, by decide +kernel⟩
  refine ⟨_, _, _, begun_joined site, by decide +kernel, by decide +kernel, (order.2.2.2.1 _ ?_ (by decide +kernel)).1⟩
  exact given.widen (Nat.le_refl 0) (by decide +kernel)

end Serve

end RemoteInspector
