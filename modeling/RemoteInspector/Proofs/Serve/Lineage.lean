import RemoteInspector.Proofs.Serve.Registering
/-!
The lineage of actors: an actor is as long as it lives what it was made as.
-/
namespace RemoteInspector

open Registry (Entry Named)

namespace Actor

/-- The kind of an actor; the tabs of the root count only where they are fixed. -/
def Kind.seen (fixed : Bool) : Kind → Kind
  | .root actor => .root (if fixed then actor else {})
  | kind => kind

variable {fixed : Bool} {a : Actor}

theorem seen_eq_tab {t : TabActor} (same : a.kind.seen fixed = .tab t) : a = .tab t := by
  cases a <;> cases same
  rfl

theorem seen_eq_node {n : NodeActor} (same : a.kind.seen fixed = .node n) : a = .node n := by
  cases a <;> cases same
  rfl

theorem seen_eq_object {o : ObjectActor} (same : a.kind.seen fixed = .object o) : a = .object o := by
  cases a <;> cases same
  rfl

end Actor

structure Registry.Entry.Heir (fixed : Bool) (e e' : Entry) : Prop where
  owner : e'.owner = e.owner
  kind : e'.actor.kind.seen fixed = e.actor.kind.seen fixed

namespace Registry.Entry.Heir

variable {fixed : Bool} {e e' e'' : Entry}

theorem refl (e : Entry) : e.Heir fixed e := ⟨rfl, rfl⟩

theorem trans (first : e.Heir fixed e') (next : e'.Heir fixed e'') : e.Heir fixed e'' :=
  ⟨next.owner.trans first.owner, next.kind.trans first.kind⟩

theorem housed (heir : e.Heir fixed e') (housed : e.Housed) : e'.Housed := by
  intro n made
  have kind := heir.kind
  rw [made] at kind
  rw [heir.owner]
  exact housed n (Actor.seen_eq_node kind.symm)

end Registry.Entry.Heir

namespace Scene

structure Continues (fixed : Bool) (s t : Scene) : Prop where
  id : t.conn.id = s.conn.id
  later : s.conn.registry.next ≤ t.conn.registry.next
  entries : ∀ name e', t.conn.registry.entryOf? name = some e' →
    (∃ e, s.conn.registry.entryOf? name = some e ∧ e.Heir fixed e') ∨
      Named s.conn.id s.conn.registry.next t.conn.registry.next name ∧ e'.Housed

namespace Continues

variable {fixed : Bool} {s t u : Scene}

theorem of_entries (id : t.conn.id = s.conn.id) (next : t.conn.registry.next = s.conn.registry.next)
    (entries : ∀ name e', t.conn.registry.entryOf? name = some e' →
      ∃ e, s.conn.registry.entryOf? name = some e ∧ e.Heir fixed e') : s.Continues fixed t :=
  ⟨id, Nat.le_of_eq next.symm, fun name e' found => .inl (entries name e' found)⟩

theorem same (id : t.conn.id = s.conn.id) (registry : t.conn.registry = s.conn.registry) : s.Continues fixed t :=
  of_entries id (by rw [registry]) fun _ e found => ⟨e, registry ▸ found, .refl e⟩

theorem refl (s : Scene) : s.Continues fixed s := same rfl rfl

theorem trans (first : s.Continues fixed t) (next : t.Continues fixed u) : s.Continues fixed u where
  id := next.id.trans first.id
  later := Nat.le_trans first.later next.later
  entries name e'' found := by
    rcases next.entries name e'' found with ⟨e', found', heir'⟩ | ⟨new, housed⟩
    · rcases first.entries name e' found' with ⟨e, found, heir⟩ | ⟨new, housed⟩
      · exact .inl ⟨e, found, heir.trans heir'⟩
      · exact .inr ⟨new.widen (Nat.le_refl _) next.later, heir'.housed housed⟩
    · rw [first.id] at new
      exact .inr ⟨new.widen first.later (Nat.le_refl _), housed⟩

theorem update (s : Scene) (name : String) {f : Actor → Actor}
    (kept : ∀ a, s.find? name = some a → (f a).kind.seen fixed = a.kind.seen fixed) :
    s.Continues fixed (s.update name f) := by
  refine of_entries rfl rfl fun x e' found => ?_
  change (s.conn.registry.update name f).entryOf? x = some e' at found
  rw [Registry.entryOf?_update] at found
  obtain ⟨e, old, rfl⟩ := Option.map_eq_some_iff.mp found
  refine ⟨e, old, ?_⟩
  split
  · rename_i self
    subst self
    refine ⟨rfl, kept e.actor ?_⟩
    rw [find?, Registry.find?_eq_entryOf?, old, Option.map_some]
  · exact .refl e

theorem extend {added : List Entry} {scripts : Table ObjectId String} {next : Nat} (id : t.conn.id = s.conn.id)
    (registry : t.conn.registry = s.conn.registry.extend added scripts next) (later : s.conn.registry.next ≤ next)
    (new : ∀ e ∈ added, Named s.conn.id s.conn.registry.next next e.name ∧ e.Housed) : s.Continues fixed t where
  id := id
  later := by
    rw [registry]
    exact later
  entries name e found := by
    rw [registry] at found ⊢
    rw [Registry.entryOf?_extend, Option.or_eq_some_iff] at found
    rcases found with old | ⟨_, found⟩
    · exact .inl ⟨e, old, .refl e⟩
    · have named : e.name = name := by simpa using List.find?_some found
      exact .inr (named ▸ new e (List.mem_of_find?_eq_some found))

theorem registering (fixed : Bool) : Registering (Continues fixed) where
  trans := .trans
  same := .same
  update s name _ kept := .update s name fun a live => congrArg (Actor.Kind.seen fixed) (kept a live)
  remove s name := by
    refine of_entries rfl rfl fun x e found => ?_
    change (s.conn.registry.remove name).entryOf? x = some e at found
    rw [Registry.entryOf?_remove] at found
    split at found
    · cases found
    · exact ⟨e, found, .refl e⟩
  extend id registry later new := .extend id registry later fun e member => ⟨(new e member).1, (new e member).2.2⟩
  object _ id registry := by
    refine .extend id registry (Nat.le_succ _) fun e member => ?_
    cases List.mem_singleton.mp member
    exact ⟨Registry.newName_named (by decide) _ _, nofun⟩

theorem of_fixed (s : Scene) {input : Serve.Input} (fixed : input.Fixed) : s.Continues true (Serve.step s input) :=
  (registering true).fixed s fixed

theorem lasting : Lasting (Continues false) := by
  refine Registering.Tabbed.lasting { registering false with root := fun s f => .update s _ fun a _ => ?_ }
  cases a <;> rfl

end Continues

end Scene

/-! ### What stays -/

namespace Scene.Continues

variable {fixed : Bool} {s t : Scene} {name : String}

theorem heir (continues : s.Continues fixed t) (few : t.Few)
    (valid : s.Valid) {actor : Actor} (live : s.find? name = some actor) {actor' : Actor}
    (live' : t.find? name = some actor') : actor'.kind.seen fixed = actor.kind.seen fixed := by
  obtain ⟨e', found', rfl⟩ := Option.map_eq_some_iff.mp live'
  rcases continues.entries name e' found' with ⟨e, found, heir⟩ | ⟨new, _⟩
  · obtain ⟨_, found'', rfl⟩ := Option.map_eq_some_iff.mp live
    cases found.symm.trans found''
    exact heir.kind
  · -- the name was taken before
    rcases valid.name_given (Registry.has_of_find? live).mem_names with root | given
    · exact absurd root new.ne_root
    · exact (given.disjoint new (Nat.le_refl _) few).elim

end Scene.Continues

def Registry.Housed (r : Registry) : Prop := ∀ name e, r.entryOf? name = some e → e.Housed

theorem Scene.Continues.housed {fixed : Bool} {s t : Scene} (continues : s.Continues fixed t)
    (housed : s.conn.registry.Housed) : t.conn.registry.Housed := by
  intro name e' found
  rcases continues.entries name e' found with ⟨e, before, heir⟩ | ⟨_, new⟩
  · exact heir.housed (housed name e before)
  · exact new

namespace Serve

theorem foldl_take_continues (c : Connection) (turns : List Turn) (site site' : Site) :
    Scene.Continues false ⟨site, c⟩ ⟨site', turns.foldl take c⟩ := by
  induction turns generalizing c site with
  | nil => exact .same rfl rfl
  | cons turn rest ih =>
    have first : Scene.Continues false ⟨site, c⟩ ⟨turn.site, c⟩ := .same rfl rfl
    exact (first.trans (Scene.Continues.lasting.step _ turn.input)).trans (ih (take c turn) _)

theorem housed_of_begun {c : Connection} (begun : Begun c) : c.registry.Housed := by
  obtain ⟨site, id, line, tabs, rfl⟩ := begun
  refine (Scene.Continues.lasting.start site id line tabs).housed fun name e found n made => ?_
  have root : e = ⟨Tabs.rootName, none, .root {}⟩ := List.mem_singleton.mp (List.mem_of_find?_eq_some found)
  rw [root] at made
  cases made

end Serve

end RemoteInspector
