import RemoteInspector.Proofs.Inspector.Knowledge
import RemoteInspector.Proofs.Serve.Lineage
/-!
Object actors and their objects. Numbers of objects belong to hosts, so the actor that a grip names may stand for the
object of another host.
-/
namespace RemoteInspector

open Registry (Entry)

/-! ### One actor for a number -/

def Registry.Indexed (r : Registry) : Prop :=
  ∀ name o, r.find? name = some (.object o) → r.scripts.get? o.object.id = some name

namespace Registry.Indexed

variable {r r' : Registry}

section

variable (indexed : r.Indexed)

include indexed

theorem of_scripts (scripts : r'.scripts = r.scripts)
    (objects : ∀ name o, r'.find? name = some (.object o) → r.find? name = some (.object o)) : r'.Indexed := by
  intro name o found
  rw [scripts]
  exact indexed name o (objects name o found)

theorem update {name : String} {f : Actor → Actor}
    (kept : ∀ a, r.find? name = some a → ∀ o, f a = .object o → a = .object o) : (r.update name f).Indexed := by
  refine indexed.of_scripts rfl fun x o found => ?_
  rw [find?_update] at found
  obtain ⟨a, old, same⟩ := Option.map_eq_some_iff.mp found
  split at same
  · rename_i self
    rw [old, kept a (self ▸ old) o same]
  · rw [old, same]

theorem remove (name : String) : (r.remove name).Indexed := by
  intro x o found
  rw [find?_remove] at found
  split at found
  · cases found
  · rename_i other
    exact Table.get?_filter_ne (indexed x o found) other

theorem extend {added : List Entry} {next : Nat} (plain : ∀ e ∈ added, e.actor.object? = none) :
    (r.extend added r.scripts next).Indexed := by
  refine indexed.of_scripts rfl fun x o found => ?_
  rw [find?_extend, Option.or_eq_some_iff] at found
  refine found.resolve_right fun new => ?_
  obtain ⟨e, listed, object⟩ := Option.map_eq_some_iff.mp new.2
  have none := plain e (List.mem_of_find?_eq_some listed)
  rw [object] at none
  cases none

theorem object {owner name : String} {ref : ObjectRef} {next : Nat} (unlisted : Grip.listed? r ref.id = none) :
    (r.extend [⟨name, some owner, .object ⟨owner, ref⟩⟩] (r.scripts.insert ref.id name) next).Indexed := by
  intro x o found
  rw [find?_extend, Option.or_eq_some_iff] at found
  change (r.scripts.insert ref.id name).get? o.object.id = some x
  rw [Table.get?_insert]
  rcases found with old | ⟨_, new⟩
  · have listed := indexed x o old
    rw [if_neg, listed]
    intro same
    have there : r.contains x := contains_iff.mpr (has_of_find? old).mem_names
    rw [Grip.listed?, same, listed, Option.filter_some, if_pos there] at unlisted
    cases unlisted
  · obtain ⟨e, listed, object⟩ := Option.map_eq_some_iff.mp new
    cases List.mem_singleton.mp (List.mem_of_find?_eq_some listed)
    have named : name = x := by simpa using List.find?_some listed
    cases object
    rw [if_pos rfl, named]

end

end Registry.Indexed

theorem Scene.indexed_lasting : Lasting fun s t => s.conn.registry.Indexed → t.conn.registry.Indexed := by
  refine Registering.Tabbed.lasting {
    trans := fun first next indexed => next (first indexed)
    same := fun _ registry indexed => registry ▸ indexed
    object := fun unlisted _ registry indexed => ?_
    update := fun _ _ _ kept indexed => indexed.update fun a live o same => ?_
    remove := fun _ name indexed => indexed.remove name
    extend := fun _ registry _ new indexed => ?_
    root := fun s f indexed => indexed.update fun a _ o same => ?_ }
  · rw [registry]
    exact indexed.object unlisted
  · have kind := kept a live
    rw [same] at kind
    have seen := congrArg (Actor.Kind.seen true) kind.symm
    exact Actor.seen_eq_object seen
  · rw [registry]
    exact indexed.extend fun e member => (new e member).2.1
  · cases a with
    | root actor => cases same
    | _ => exact same

/-! ### Grips -/

namespace Grip

variable {s : Scene} {self : String} {ref : ObjectRef}

theorem site_actorOf (self : String) (ref : ObjectRef) (s : Scene) : ((actorOf self ref).after s).site = s.site := by
  cases listed : listed? s.conn.registry ref.id with
  | some name => rw [(actorOf_listed self listed).2]
  | none => exact (actorOf_unlisted self listed).2.2.1

theorem result_owned_object {o : ObjectActor}
    (found : ((actorOf self ref).after s).find? ((actorOf self ref).result s) = some (.object o)) :
    (owned self (.object ref)).result s =
      .object [("type", .str "object"), ("actor", .str ((actorOf self ref).result s)),
        ("class", .str (s.site.object o.object).className), ("extensible", .bool (s.site.object o.object).extensible),
        ("frozen", .bool (s.site.object o.object).frozen), ("sealed", .bool (s.site.object o.object).sealed)] := by
  change objectForm ((actorOf self ref).after s) ((actorOf self ref).result s) = _
  simp only [objectForm, found, Option.bind_some, Actor.object?, site_actorOf]

/-- The actor of an object is one of its number; it is that of another object only if there was one before. -/
theorem actorOf_names (valid : s.Valid) (indexed : s.conn.registry.Indexed)
    (few : ((actorOf self ref).after s).Few) :
    ∃ o, ((actorOf self ref).after s).find? ((actorOf self ref).result s) = some (.object o) ∧
      o.object.id = ref.id ∧
      (o.object = ref ↔ ∀ other o', s.find? other = some (.object o') → o'.object.id = ref.id → o'.object = ref) := by
  cases listed : listed? s.conn.registry ref.id with
  | some name =>
    obtain ⟨result, after⟩ := actorOf_listed self listed
    rw [result, after]
    have script := (Option.filter_eq_some_iff.mp listed).1
    obtain ⟨e, member, named, o, object, number⟩ := valid.scripts _ (Table.mem_of_get? script)
    dsimp only at named number
    have found : s.find? name = some (.object o) := by
      rw [← named, Scene.find?, valid.find?_name member, Actor.object?_eq_some.mp object]
    refine ⟨o, found, number, fun same other o' there number' => ?_, fun none => none name o found number⟩
    -- the other one is listed for the number, too
    have script' := indexed other o' there
    rw [number', script] at script'
    cases script'
    cases there.symm.trans found
    exact same
  | none =>
    obtain ⟨result, _, _, registry⟩ := actorOf_unlisted self listed
    refine ⟨⟨self, ref⟩, ?_, rfl, fun _ other o' there number => ?_, fun _ => rfl⟩
    · have fresh : s.find? (s.conn.registry.newName s.conn.id "obj") = none :=
        Scene.find?_newName valid (by rw [Scene.Few, registry] at few; exact few) (by decide)
      rw [result, Scene.find?, registry]
      change (s.conn.registry.add _).find? _ = _
      rw [Registry.find?_add]
      change (s.find? _).or _ = _
      rw [fresh, Option.none_or, if_pos rfl]
    · have script := indexed other o' there
      have contained : s.conn.registry.contains other :=
        Registry.contains_iff.mpr (Registry.has_of_find? there).mem_names
      rw [listed?, ← number, script, Option.filter_some, if_pos contained] at listed
      cases listed

end Grip

namespace Serve

theorem indexed_of_begun {c : Connection} (begun : Begun c) : c.registry.Indexed := by
  obtain ⟨site, id, line, tabs, rfl⟩ := begun
  refine Scene.indexed_lasting.start site id line tabs fun name o found => ?_
  change (Registry.add {} ⟨Tabs.rootName, none, .root {}⟩).find? name = _ at found
  rw [Registry.find?_add] at found
  change (if Tabs.rootName = name then some _ else none) = _ at found
  split at found <;> cases found

theorem foldl_take_indexed {c : Connection} (indexed : c.registry.Indexed) (turns : List Turn) :
    (turns.foldl take c).registry.Indexed := by
  induction turns generalizing c with
  | nil => exact indexed
  | cons turn rest ih => exact ih (Scene.indexed_lasting.step ⟨turn.site, c⟩ turn.input indexed)

/-- As long as the names last, whatever a connection has gone through and whatever it goes through afterwards: the grip
of an object names an object actor of the object's number, with the class and flags of the actor's object, and
under that name there is never anything else than this actor. The actor's object is the one gripped unless the
connection has an actor for another object of this number, one of another host. -/
theorem object_grips {c : Connection} (begun : Begun c) (turns later : List Turn) (site : Site) {self : String}
    {console : ConsoleActor} (live : (turns.foldl take c).registry.find? self = some (.console console))
    (ref : ObjectRef)
    (few : (later.foldl take ((Grip.owned self (.object ref)).after ⟨site, turns.foldl take c⟩).conn).registry.next ≤
      UInt32.size) :
    let s : Scene := ⟨site, turns.foldl take c⟩
    let t := (Grip.owned self (.object ref)).after s
    ∃ name o, t.find? name = some (.object o) ∧ o.object.id = ref.id ∧
      (Grip.owned self (.object ref)).result s =
        .object [("type", .str "object"), ("actor", .str name), ("class", .str (site.object o.object).className),
          ("extensible", .bool (site.object o.object).extensible), ("frozen", .bool (site.object o.object).frozen),
          ("sealed", .bool (site.object o.object).sealed)] ∧
      (o.object = ref ↔ ∀ other o', s.find? other = some (.object o') → o'.object.id = ref.id → o'.object = ref) ∧
      ∀ actor, (later.foldl take t.conn).registry.find? name = some actor → actor = .object o := by
  intro s t
  have before := foldl_take_later c turns
  have gripped : Scene.Orderly 5 (fun r => r.Above 5 self) s t :=
    (Act.Orderly.gripping (Registry.stable_above 5 self) (Nat.le_refl 5) fun _ => id).owned (.object ref) s trivial
  have afterwards := foldl_take_continues t.conn later t.site t.site
  have few_t : t.Few := Nat.le_trans afterwards.later few
  have few_s : s.Few := Nat.le_trans gripped.later few_t
  have sound := (before.sound few_s (sound_of_begun begun (Nat.le_trans before.later few_s))).1
  have above : s.conn.registry.Above 5 self := ⟨2, by decide, Registry.has_of_find? live⟩
  have valid : t.Valid := gripped.valid few_t sound.valid above
  have indexed := foldl_take_indexed (indexed_of_begun begun) turns
  obtain ⟨o, found, number, own⟩ := Grip.actorOf_names (s := s) sound.valid indexed few_t
  refine ⟨_, o, found, number, Grip.result_owned_object found, own, fun actor still => ?_⟩
  exact Actor.seen_eq_object (afterwards.heir few valid found still)

/-- Two hosts, each with an object of the number 5 and a tab of its own. -/
def twins : Site where
  hosts := [("first", { engine := { objects := [(5, { className := "Map" })]
                                    evals := [⟨"o", none, [], .returned (.const (.object ⟨"first", 5⟩))⟩] } }),
    ("second", { engine := { objects := [(5, { className := "Set" })] } })]
  pages := [(0, { tab := 7, host := "first", info := ⟨"", ""⟩ }), (1, { tab := 8, host := "second", info := ⟨"", ""⟩ })]

def visitor : Connection := (start ⟨twins, { id := 0 }⟩ [(7, 0), (8, 1)]).conn

/-- The client evaluates the object of the first host on the console of its tab. -/
def evaluation : Turn :=
  ⟨twins, .packet (.obj [("to", .str "conn0.console4"), ("type", .str "evaluateJS"), ("text", .str "o")])⟩

theorem visitor_begun : Begun visitor := ⟨twins, 0, .up, [(7, 0), (8, 1)], rfl⟩

/-- Gripped once more, the object has its actor still, which does not change as the other tab is closed. -/
theorem object_grips_again :
    let s : Scene := ⟨twins, [evaluation].foldl take visitor⟩
    let t := (Grip.owned "conn0.console4" (.object ⟨"first", 5⟩)).after s
    ∃ name o, t.find? name = some (.object o) ∧ o.object = ⟨"first", 5⟩ ∧
      ∀ actor, (take t.conn ⟨twins, .event (.tabClosed 8)⟩).registry.find? name = some actor → actor = .object o := by
  have alone : ([evaluation].foldl take visitor).registry.entries.all fun e =>
      e.actor.object?.all fun o => o.object.id = 5 → o.object = ⟨"first", 5⟩ := by decide +kernel
  have few : ([⟨twins, .event (.tabClosed 8)⟩].foldl take ((Grip.owned "conn0.console4" (.object ⟨"first", 5⟩)).after
      ⟨twins, [evaluation].foldl take visitor⟩).conn).registry.next ≤ UInt32.size := by decide +kernel
  have listening : ((⟨twins, [evaluation].foldl take visitor⟩ : Scene).console? "conn0.console4").isSome := by
    decide +kernel
  obtain ⟨console, found⟩ := Option.isSome_iff_exists.mp listening
  have live := Scene.console?_eq_some.mp found
  obtain ⟨name, o, found, _, _, own, stays⟩ := object_grips visitor_begun [evaluation] _ twins live _ few
  refine ⟨name, o, found, own.mpr fun other o' there number => ?_, stays⟩
  obtain ⟨e, member, _, same⟩ := Registry.entry_of_find? there
  have object := List.all_eq_true.mp alone e member
  rw [same] at object
  exact of_decide_eq_true object number

/-- On the console of the second tab the object of the second host is gripped as that of the first. -/
theorem object_grips_other_host :
    let s : Scene := ⟨twins, [evaluation].foldl take visitor⟩
    let form := (Grip.owned "conn0.console9" (.object ⟨"second", 5⟩)).result s
    (s.console? "conn0.console9").map (·.host) = some "second" ∧
      (s.site.object ⟨"second", 5⟩).className = "Set" ∧ form.getString? "class" = some "Map" ∧
      form.getString? "actor" = some "conn0.obj10" ∧
      ((s.find? "conn0.obj10").bind Actor.object?).map (·.object) = some ⟨"first", 5⟩ := by
  decide +kernel

end Serve

end RemoteInspector
