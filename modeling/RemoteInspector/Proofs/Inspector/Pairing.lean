import RemoteInspector.Proofs.Serve.Moving
/-!
Nodes and their actors in pairs: whichever way an actor leaves, its own walker forgets it.
-/
namespace RemoteInspector

open Registry (Named Taken)
open Relation (ReflTransGen)

namespace Scene

/-- An actor stands for a node of a walker. -/
def Stands (s : Scene) (own name : String) (node : NodeId) : Prop :=
  ∃ actor, s.tie? name = some (.node actor) ∧ actor.walker = own ∧ actor.node = node

/-- The known nodes of each walker are paired with the actors it made. -/
structure Paired (s : Scene) : Prop where
  given : s.Given
  known : ∀ {own host root known orphans}, s.tie? own = some (.walker host root known orphans) →
    ∀ node name, known.get? node = some name ↔ s.Stands own name node
  keys : ∀ {own host root known orphans}, s.tie? own = some (.walker host root known orphans) → known.keys.Nodup
  orphans : ∀ {own host root known orphans}, s.tie? own = some (.walker host root known orphans) →
    orphans.Nodup ∧ ∀ name ∈ orphans, ∃ node, s.Stands own name node
  hosts : ∀ {own host root known orphans}, s.tie? own = some (.walker host root known orphans) →
    ∀ name actor, s.tie? name = some (.node actor) → actor.walker = own → actor.host = host
  makers : ∀ {own name node}, s.Stands own name node → Taken s.conn.id s.conn.registry.next own

namespace Paired

variable {s t : Scene}

section

variable (paired : s.Paired) (given : t.Given) (id : t.conn.id = s.conn.id)
  (next : s.conn.registry.next ≤ t.conn.registry.next)

include paired given id next

theorem relate (nodes : ∀ x actor, t.tie? x = some (.node actor) ↔ s.tie? x = some (.node actor))
    (walkers : ∀ {x host root known orphans}, t.tie? x = some (.walker host root known orphans) →
      (∃ old, s.tie? x = some (.walker host root known old) ∧ (old.Nodup → orphans.Nodup) ∧
        ∀ name ∈ orphans, name ∈ old ∨ ∃ node, known.get? node = some name) ∨
      known = [] ∧ orphans = [] ∧ ∀ name node, ¬ s.Stands x name node) : t.Paired := by
  have stands (own name : String) (node : NodeId) : t.Stands own name node ↔ s.Stands own name node := by
    simp only [Stands, nodes]
  refine ⟨given, fun tied node name => ?_, fun tied => ?_, fun tied => ?_, fun tied name actor made own => ?_,
    fun made => ?_⟩
  · rw [stands]
    obtain ⟨old, tied, -⟩ | ⟨rfl, -, nobody⟩ := walkers tied
    · exact paired.known tied node name
    · exact ⟨nofun, fun made => absurd made (nobody name node)⟩
  · obtain ⟨old, tied, -⟩ | ⟨rfl, -⟩ := walkers tied
    · exact paired.keys tied
    · exact .nil
  · simp only [stands]
    obtain ⟨old, tied, nodup, marks⟩ | ⟨-, rfl, -⟩ := walkers tied
    · obtain ⟨distinct, standing⟩ := paired.orphans tied
      refine ⟨nodup distinct, fun name member => ?_⟩
      rcases marks name member with member | ⟨node, known⟩
      · exact standing name member
      · exact ⟨node, (paired.known tied node name).mp known⟩
    · exact ⟨.nil, nofun⟩
  · have before := (nodes name actor).mp made
    obtain ⟨old, tied, -⟩ | ⟨-, -, nobody⟩ := walkers tied
    · exact paired.hosts tied _ _ before own
    · exact absurd ⟨actor, before, own, rfl⟩ (nobody name actor.node)
  · rw [id]
    exact (paired.makers ((stands _ _ _).mp made)).widen next

theorem congr
    (walkers : ∀ x host root known orphans, t.tie? x = some (.walker host root known orphans) → s.tie? x = some (.walker host root known orphans))
    (nodes : ∀ x actor, t.tie? x = some (.node actor) ↔ s.tie? x = some (.node actor)) : t.Paired :=
  paired.relate given id next nodes fun tied => .inl ⟨_, walkers _ _ _ _ _ tied, fun nodup => nodup, fun _ => .inl⟩

theorem idle (ties : ∀ x, t.tie? x = s.tie? x) : t.Paired := by
  refine paired.congr given id next (fun x _ _ _ _ tied => ?_) fun x _ => ?_
  · rwa [ties] at tied
  · rw [ties]

end

theorem mark (paired : s.Paired) {own : String} (marked : s.Marked t own) : t.Paired := by
  obtain ⟨host, root, known, orphans, orphans', before, after, nodup, marks⟩ := marked.marks
  have given := paired.given.congr marked.id marked.next fun _ member => marked.names ▸ member
  -- Every walker knows what it knew; only the orphans of one may have changed.
  refine paired.relate given marked.id (Nat.le_of_eq marked.next.symm) (fun x actor => ?_)
    fun {x _ _ _ marks'} tied => .inl ?_
  · by_cases self : x = own
    · subst self
      rw [before, after]
      simp
    · rw [marked.others x self]
  · by_cases self : x = own
    · subst self
      rw [after] at tied
      cases tied
      exact ⟨orphans, before, nodup, marks⟩
    · rw [marked.others x self] at tied
      exact ⟨marks', tied, id, fun _ => .inl⟩

theorem extend (paired : s.Paired) {added : List Registry.Entry} {next : Nat} (extended : s.Extended t added next)
    (few : next ≤ UInt32.size) : t.Paired := by
  have later : s.conn.registry.next ≤ t.conn.registry.next := by
    rw [extended.registry]
    exact extended.later
  refine paired.relate (paired.given.extended extended) extended.id later
    (fun x actor => ⟨extended.tie?_node, extended.tie?_of_old⟩) fun tied => ?_
  rcases extended.tie?_walker tied with tied | ⟨rfl, rfl, named⟩
  · exact .inl ⟨_, tied, id, fun _ => .inl⟩
  · exact .inr ⟨rfl, rfl, fun _ _ made => absurd rfl ((paired.makers made).ne_new named few)⟩

/-! ### Getting to know a node -/

theorem enrol (paired : s.Paired) {own : String} (host : String) (node : NodeId)
    (unknown : s.known? own node = none) (taken : Taken s.conn.id s.conn.registry.next own)
    (hosts : s.Hosts own host) (few : s.conn.registry.next + 1 ≤ UInt32.size) :
    (Walker.enrol s own host node (s.conn.registry.newName s.conn.id "domnode")).Paired := by
  have named := s.named_domnode
  have fresh := paired.given.find?_new named few
  have other := taken.ne_new named few
  have ties := tie?_enrol host node fresh other
  have nodes (x : String) (actor : NodeActor) := plain_enrol host node fresh other (x := x) (show (Actor.Tie.node actor).Plain from trivial)
  have given := paired.given.enrol own host node
  generalize s.conn.registry.newName s.conn.id "domnode" = name at named fresh other ties nodes given ⊢
  have stands (own' name' : String) (node' : NodeId) : (Walker.enrol s own host node name).Stands own' name' node' ↔
      s.Stands own' name' node' ∨ (name' = name ∧ own' = own ∧ node' = node) := by
    simp only [Stands, nodes]
    constructor
    · rintro ⟨actor, ⟨rfl, same⟩ | old, rfl, rfl⟩
      · cases same
        exact .inr ⟨rfl, rfl, rfl⟩
      · exact .inl ⟨actor, old, rfl, rfl⟩
    · rintro (⟨actor, tied, same⟩ | ⟨rfl, rfl, rfl⟩)
      · exact ⟨actor, .inr tied, same⟩
      · exact ⟨_, .inl ⟨rfl, rfl⟩, rfl, rfl⟩
  have walkers : ∀ {x host' root known orphans},
      (Walker.enrol s own host node name).tie? x = some (.walker host' root known orphans) →
      ∃ old, s.tie? x = some (.walker host' root old orphans) ∧ known = if x = own then old.insert node name else old := by
    intro x host' root known orphans tied
    rw [ties] at tied
    split at tied
    · cases tied
    · obtain ⟨tie, before, after⟩ := Option.map_eq_some_iff.mp tied
      split at after
      · cases tie with
        | walker host' root old orphans =>
          cases after
          exact ⟨old, before, by simp [*]⟩
        | _ => cases after
      · exact ⟨known, after ▸ before, by simp [*]⟩
  have untold : ∀ {host' root old orphans}, s.tie? own = some (.walker host' root old orphans) → old.get? node = none := by
    intro host' root old orphans tied
    obtain ⟨actor, found, same⟩ := Option.bind_eq_some_iff.mp tied
    cases actor with
    | walker w =>
      cases same
      rwa [known?_of_walker found] at unknown
    | _ => cases same
  refine ⟨given, fun tied node' name' => ?_, fun tied => ?_, fun tied => ?_, fun tied name' actor made own' => ?_,
    fun made => ?_⟩
  · obtain ⟨old, before, rfl⟩ := walkers tied
    rw [stands, ← paired.known before]
    grind [Table.get?_insert]
  · obtain ⟨old, before, rfl⟩ := walkers tied
    split
    · exact Table.nodup_keys_insert (paired.keys before) node name
    · exact paired.keys before
  · simp only [stands]
    obtain ⟨old, before, rfl⟩ := walkers tied
    obtain ⟨distinct, standing⟩ := paired.orphans before
    exact ⟨distinct, fun name member => (standing name member).imp fun _ => .inl⟩
  · obtain ⟨old, before, rfl⟩ := walkers tied
    rcases (nodes name' actor).mp made with ⟨rfl, same⟩ | there
    · cases same
      subst own'
      rcases hosts (Nat.le_of_succ_le few) before with same | ⟨name'', actor, there, own', same⟩
      · exact same.symm
      · exact same.symm.trans (paired.hosts before _ _ there own')
    · exact paired.hosts before _ _ there own'
  · rcases (stands _ _ _).mp made with old | ⟨_, rfl, _⟩
    · exact (paired.makers old).widen (Nat.le_succ _)
    · exact taken.widen (Nat.le_succ _)

/-! ### Leaving -/

theorem releaseOther (paired : s.Paired) {name : String} (other : ∀ actor, s.find? name ≠ some (.node actor)) :
    (s.releaseOne name).Paired := by
  have ties := tie?_releaseOne other
  have pruned := releaseOne_pruned s name
  refine paired.congr (paired.given.releaseOne name) (Silent.releaseOne s name).id (Nat.le_of_eq pruned.next.symm)
    (fun x _ _ _ _ tied => ?_) fun x actor => ?_
  · rw [ties] at tied
    split at tied
    · cases tied
    · exact tied
  · rw [ties]
    split
    · rename_i self
      refine ⟨nofun, fun tied => ?_⟩
      rw [self, tie?_eq_node] at tied
      exact absurd tied (other actor)
    · rfl

theorem releaseNode (paired : s.Paired) {name : String} {actor : NodeActor}
    (found : s.find? name = some (.node actor)) : (s.releaseOne name).Paired := by
  have ties := tie?_releaseNode found
  have nodes (x : String) (actor : NodeActor) := plain_releaseOne s name (x := x) (show (Actor.Tie.node actor).Plain from trivial)
  have pruned := releaseOne_pruned s name
  have id := (Silent.releaseOne s name).id
  have given := paired.given.releaseOne name
  have left : s.Stands actor.walker name actor.node := ⟨actor, tie?_eq_node.mpr found, rfl, rfl⟩
  generalize s.releaseOne name = t at ties nodes pruned id given ⊢
  have stands (own name' : String) (node : NodeId) :
      t.Stands own name' node ↔ s.Stands own name' node ∧ name' ≠ name := by
    simp only [Stands, nodes]
    constructor
    · rintro ⟨actor', ⟨other, tied⟩, rest⟩
      exact ⟨⟨actor', tied, rest⟩, other⟩
    · rintro ⟨⟨actor', tied, rest⟩, other⟩
      exact ⟨actor', ⟨other, tied⟩, rest⟩
  -- A name stands for one node of one walker.
  have one {own : String} {node : NodeId} (made : s.Stands own name node) : own = actor.walker ∧ node = actor.node := by
    obtain ⟨actor', tied, rfl, rfl⟩ := made
    rw [tie?_eq_node, found] at tied
    cases tied
    exact ⟨rfl, rfl⟩
  have walkers : ∀ {x host root known orphans}, t.tie? x = some (.walker host root known orphans) →
      ∃ known' orphans', s.tie? x = some (.walker host root known' orphans') ∧
        known = (if x = actor.walker then known'.erase actor.node else known') ∧
        orphans = if x = actor.walker then orphans'.filter (· ≠ name) else orphans' := by
    intro x host root known orphans tied
    rw [ties] at tied
    split at tied
    · cases tied
    · obtain ⟨tie, before, after⟩ := Option.map_eq_some_iff.mp tied
      split at after
      · rename_i own
        cases tie with
        | walker host root known' orphans' =>
          cases after
          have known := (paired.known before actor.node name).mpr (own ▸ left)
          exact ⟨known', orphans', before, by simp [own, known], by simp [own]⟩
        | _ => cases after
      · rename_i other
        exact ⟨known, orphans, after ▸ before, by simp [other], by simp [other]⟩
  refine ⟨given, fun tied node name' => ?_, fun tied => ?_, fun tied => ?_, fun tied name' actor' made own => ?_,
    fun made => ?_⟩
  · obtain ⟨known', orphans', before, rfl, _⟩ := walkers tied
    have known := paired.known before
    rw [stands, ← known]
    grind [Table.get?_erase]
  · obtain ⟨known', orphans', before, rfl, _⟩ := walkers tied
    split
    · exact Table.nodup_keys_erase (paired.keys before) _
    · exact paired.keys before
  · simp only [stands]
    obtain ⟨known', orphans', before, _, rfl⟩ := walkers tied
    obtain ⟨distinct, standing⟩ := paired.orphans before
    refine ⟨by split; exacts [distinct.filter _, distinct], fun name' member => ?_⟩
    obtain ⟨node, made⟩ := standing name' (by grind)
    refine ⟨node, made, ?_⟩
    rintro rfl
    grind
  · obtain ⟨known', orphans', before, -⟩ := walkers tied
    exact paired.hosts before _ _ ((nodes name' actor').mp made).2 own
  · rw [id, pruned.next]
    exact paired.makers ((stands _ _ _).mp made).1

end Paired

/-! ### Moves and turns -/

theorem Move.paired {s t : Scene} (move : s.Move t) (few : t.Few) (paired : s.Paired) : t.Paired := by
  have given := move.given paired.given
  have later := move.later
  cases move with
  | idle alike => exact paired.idle given later.1 later.2 alike.ties
  | mark own marked => exact paired.mark marked
  | extend added next extended =>
    rw [Scene.Few, extended.registry] at few
    exact paired.extend extended few
  | enrol own host node unknown taken hosts => exact paired.enrol host node unknown taken hosts few
  | release name =>
    by_cases node : ∃ actor, s.find? name = some (.node actor)
    · obtain ⟨actor, found⟩ := node
      exact paired.releaseNode found
    · exact paired.releaseOther (not_exists.mp node)
  | debug self c live none =>
    have ties := tie?_debugger live none
    have console : s.tie? self = some (.console Option.none) := tie?_eq_console.mpr ⟨c, live, none⟩
    refine paired.congr given later.1 later.2 (fun x _ _ _ _ tied => ?_) fun x actor => ?_
    · rw [ties] at tied
      split at tied
      · cases tied
      · exact tied
    · rw [ties]
      split
      · rename_i same
        rw [same, console]
        simp
      · rfl
  | attach self host host' live none => exact paired.idle given later.1 later.2 fun _ => rfl
  | detach self =>
    refine paired.idle given later.1 later.2 fun x => ?_
    rw [tie?, find?_detach, tie?]
  | trace self d f traces => exact paired.idle given later.1 later.2 (tie?_congr traces.registry)

theorem Moves.paired {s t : Scene} (moves : ReflTransGen Move s t) (few : t.Few) (paired : s.Paired) : t.Paired := by
  induction moves with
  | refl => exact paired
  | tail _ move ih => exact move.paired few (ih (Nat.le_trans move.later.2 few))

end Scene

namespace Serve

variable {c : Connection} {site site' : Site}

theorem paired_elsewhere (paired : Scene.Paired ⟨site, c⟩) : Scene.Paired ⟨site', c⟩ :=
  paired.idle (t := ⟨site', c⟩) paired.given rfl (Nat.le_refl _) fun _ => rfl

theorem paired_of_begun (begun : Begun c) (few : c.Few) : Scene.Paired ⟨site, c⟩ := by
  obtain ⟨site', id, line, tabs, rfl⟩ := begun
  have paired : (rooted site' id line).Paired := by
    refine ⟨rooted_given site' id line, fun tied => ?_, fun tied => ?_, fun tied => ?_, fun tied => ?_,
      fun ⟨_, tied, _⟩ => ?_⟩ <;>
    · rw [tie?_rooted] at tied
      cases tied
  exact paired_elsewhere (Scene.Moves.paired (start_moves site' id line tabs) few paired)

theorem paired_take (turn : Turn) (few : (take c turn).Few)
    (paired : Scene.Paired ⟨site, c⟩) : Scene.Paired ⟨site', take c turn⟩ := by
  have before : Scene.Paired ⟨turn.site, c⟩ := paired_elsewhere paired
  have goes := Scene.lasting.step ⟨turn.site, c⟩ turn.input
  exact paired_elsewhere (Scene.Moves.paired (goes before.given).1 few before)

theorem paired_run (turns : List Turn) (few : (turns.foldl take c).Few)
    (paired : Scene.Paired ⟨site, c⟩) : Scene.Paired ⟨site, turns.foldl take c⟩ := by
  induction turns generalizing c with
  | nil => exact paired
  | cons turn rest ih =>
    have later := (foldl_take_later (take c turn) rest).later
    exact ih few (paired_take turn (Nat.le_trans later few) paired)

/-- As long as the names last, whatever a connection goes through: a walker that is there knows a node by
a name exactly if that name is that of an actor which the walker made for that node of its host; it knows
each node by one name and each name for one node, and no two of its actors stand for one node; and its
orphans are actors that it made, each listed once. -/
theorem walkers_paired (begun : Begun c) (turns : List Turn)
    (few : (turns.foldl take c).registry.next ≤ UInt32.size) {own : String} {w : WalkerActor}
    (live : (turns.foldl take c).registry.find? own = some (.walker w)) :
    let now := (turns.foldl take c).registry
    (∀ node name, (node, name) ∈ w.known ↔ ∃ actor : NodeActor, now.find? name = some (.node actor) ∧
      actor.walker = own ∧ actor.host = w.host ∧ actor.node = node) ∧
    w.known.keys.Nodup ∧ w.known.values.Nodup ∧
    (∀ name name' (actor actor' : NodeActor), now.find? name = some (.node actor) →
      now.find? name' = some (.node actor') → actor.walker = own → actor'.walker = own →
      actor.node = actor'.node → name = name') ∧
    w.orphans.Nodup ∧ ∀ name ∈ w.orphans, ∃ actor : NodeActor, now.find? name = some (.node actor) ∧
      actor.walker = own := by
  intro now
  let s : Scene := ⟨{}, turns.foldl take c⟩
  have few' : c.Few := Nat.le_trans (foldl_take_later c turns).later few
  have paired : s.Paired := paired_run turns few (paired_of_begun begun few')
  have tied : s.tie? own = some (.walker w.host w.root w.known w.orphans) := Scene.tie?_of_walker live
  have keys := paired.keys tied
  have known (node : NodeId) (name : String) : (node, name) ∈ w.known ↔ s.Stands own name node := by
    rw [← Table.get?_eq_some_iff keys, paired.known tied]
  refine ⟨fun node name => ?_, keys, ?_, ?_, (paired.orphans tied).1, fun name member => ?_⟩
  · rw [known]
    constructor
    · rintro ⟨actor, there, made, same⟩
      exact ⟨actor, Scene.tie?_eq_node.mp there, made, paired.hosts tied _ _ there made, same⟩
    · rintro ⟨actor, there, made, _, same⟩
      exact ⟨actor, Scene.tie?_eq_node.mpr there, made, same⟩
  · -- A name stands for one node only, so it is listed once.
    refine List.Nodup.map_on (fun p member p' member' same => ?_) (List.Nodup.of_map _ keys)
    obtain ⟨actor, there, _, node⟩ := (known p.1 p.2).mp member
    obtain ⟨actor', there', _, node'⟩ := (known p'.1 p'.2).mp member'
    rw [same, there'] at there
    cases there
    exact Prod.ext (node.symm.trans node') same
  · intro name name' actor actor' there there' made made' same
    have first := (paired.known tied actor.node name).mpr ⟨actor, Scene.tie?_eq_node.mpr there, made, rfl⟩
    have second := (paired.known tied actor.node name').mpr ⟨actor', Scene.tie?_eq_node.mpr there', made', same.symm⟩
    exact Option.some.inj (first.symm.trans second)
  · obtain ⟨node, actor, there, made, _⟩ := (paired.orphans tied).2 name member
    exact ⟨actor, Scene.tie?_eq_node.mp there, made⟩

/-- An element that the client has asked for is taken out of the document; another walker is made after. -/
theorem walkers_paired_removed : ∃ (c : Connection) (turns : List Turn) (w : WalkerActor), Begun c ∧
    (turns.foldl take c).registry.find? "conn0.domwalker5" = some (.walker w) ∧
    w.known = [(1, "conn0.domnode6"), (2, "conn0.domnode7")] ∧ w.orphans = ["conn0.domnode7"] ∧
    ∃ actor : NodeActor, (turns.foldl take c).registry.find? "conn0.domnode7" = some (.node actor) ∧
      actor.walker = "conn0.domwalker5" ∧ actor.host = "host" ∧ actor.node = 2 := by
  let site := onePage pair
  let turns : List Turn :=
    [⟨site, .packet (.obj (request "conn0.inspector1" "getWalker" []))⟩,
      ⟨site, .packet (.obj (request "conn0.domwalker5" "documentElement" []))⟩,
      ⟨site, .event (.changes "conn0.domwalker5" [.childList 1 [] [2]])⟩,
      ⟨site, .packet (.obj (request "conn0.inspector1" "getWalker" []))⟩]
  let c := joined site
  let w : WalkerActor :=
    { host := "host", root := 1, known := [(1, "conn0.domnode6"), (2, "conn0.domnode7")]
      orphans := ["conn0.domnode7"], queue := [.childList "conn0.domnode6" [] ["conn0.domnode7"] 1] }
  have begun : Begun c := begun_joined site
  have live : Scene.walker? ⟨{}, turns.foldl take c⟩ "conn0.domwalker5" = some w := by decide +kernel
  have found := Scene.walker?_eq_some.mp live
  have paired := walkers_paired begun turns (by decide +kernel) found
  exact ⟨c, turns, w, begun, found, rfl, rfl, (paired.1 2 "conn0.domnode7").mp (by simp [w])⟩

end Serve

end RemoteInspector
