import Mathlib.Logic.Function.Basic
import RemoteInspector.Proofs.Serve.Lineage
import RemoteInspector.Proofs.Serve.Moving
/-!
The tabs that a connection lists: the root knows a tab by an actor whose own actors are all there.
-/
namespace RemoteInspector

open Registry (Entry Named)

namespace Actor

def Kind.schema : Kind → Schema
  | .root _ => Schema.root
  | .tab _ => Schema.tab
  | .inspector => Schema.inspector
  | .walker => Schema.walker
  | .node _ => Schema.node
  | .nodeList _ => Schema.nodeList
  | .longString _ => Schema.longString
  | .console => Schema.console
  | .object _ => Schema.object
  | .network => Schema.networkEvent
  | .thread => Schema.thread
  | .frame _ => Schema.frame
  | .trace _ => Schema.trace

theorem schema_kind (a : Actor) : a.kind.schema = a.schema := by cases a <;> rfl

theorem Kind.seen_true (k : Kind) : k.seen true = k := by cases k <;> rfl

theorem kind_eq_root {a : Actor} {root : RootActor} (same : a.kind = .root root) : a = .root root := by
  cases a <;> cases same
  rfl

end Actor

def TabActor.parts (t : TabActor) : List (String × Schema) :=
  [(t.inspector, Schema.inspector), (t.tracer, Schema.trace), (t.console, Schema.console), (t.thread, Schema.thread)]

theorem TabActor.rank_of_part {t : TabActor} {part : String × Schema} (listed : part ∈ t.parts) {a : Actor}
    (plays : a.schema = part.2) : a.rank = 2 := by
  have named : a.schema.typeName ∈ ["inspector", "trace", "console", "thread"] := by
    rw [plays]
    simp only [parts, List.mem_cons, List.not_mem_nil, or_false] at listed
    rcases listed with rfl | rfl | rfl | rfl <;> simp [Schema.inspector, Schema.trace, Schema.console, Schema.thread]
  cases a
  case inspector | trace | console | thread => rfl
  all_goals
    simp [Actor.schema, Schema.root, Schema.tab, Schema.walker, Schema.node, Schema.nodeList, Schema.longString,
      Schema.object, Schema.networkEvent, Schema.frame] at named

namespace Registry

variable {id : ConnectionId} {r r' : Registry} {name x : String} {t : TabActor} {e : Entry}

/-- An actor is there for a tab, below the root, and so are the actors of the tab, below it. -/
structure TabOf (r : Registry) (name : String) (t : TabActor) : Prop where
  tab : ∃ e, r.entryOf? name = some e ∧ e.owner = some Tabs.rootName ∧ e.actor = .tab t
  parts : ∀ part ∈ t.parts, ∃ e, r.entryOf? part.1 = some e ∧ e.owner = some name ∧ e.actor.schema = part.2

/-- The root lists the pages of some tabs, by increasing number, each under an actor of its own. -/
structure Lists (view : TabId → Option PageId) (r : Registry) (root : RootActor) : Prop where
  rooted : r.find? Tabs.rootName = some (.root root)
  sorted : root.tabs.keys.Pairwise (· < ·)
  rows : ∀ {tab name}, root.tabs.get? tab = some name → ∃ t, r.TabOf name t ∧ view tab = some t.page
  all : ∀ {tab page}, view tab = some page → ∃ name, root.tabs.get? tab = some name
  inj : ∀ {tab tab' name}, root.tabs.get? tab = some name → root.tabs.get? tab' = some name → tab = tab'

namespace TabOf

def Named (name : String) (t : TabActor) (x : String) : Prop := x = name ∨ ∃ part ∈ t.parts, x = part.1

theorem find? (tabOf : r.TabOf name t) : r.find? name = some (.tab t) := by
  obtain ⟨e, found, _, actor⟩ := tabOf.tab
  rw [find?_eq_entryOf?, found, Option.map_some, actor]

theorem carry (tabOf : r.TabOf name t)
    (stays : ∀ x e, Named name t x → r.entryOf? x = some e → ∃ e', r'.entryOf? x = some e' ∧ e.Heir true e') :
    r'.TabOf name t where
  tab := by
    obtain ⟨e, found, owner, actor⟩ := tabOf.tab
    obtain ⟨e', found', heir⟩ := stays name e (.inl rfl) found
    refine ⟨e', found', heir.owner.trans owner, ?_⟩
    have kind := heir.kind
    rw [actor] at kind
    exact Actor.seen_eq_tab kind
  parts part listed := by
    obtain ⟨e, found, owner, plays⟩ := tabOf.parts part listed
    obtain ⟨e', found', heir⟩ := stays part.1 e (.inr ⟨part, listed, rfl⟩) found
    refine ⟨e', found', heir.owner.trans owner, ?_⟩
    have kind := heir.kind
    rw [Actor.Kind.seen_true, Actor.Kind.seen_true] at kind
    rw [← Actor.schema_kind, kind, Actor.schema_kind, plays]

theorem rank (tabOf : r.TabOf name t) (named : Named name t x) (found : r.entryOf? x = some e) :
    e.actor.rank = 1 ∨ e.actor.rank = 2 := by
  rcases named with rfl | ⟨part, listed, rfl⟩
  · obtain ⟨e', found', _, actor⟩ := tabOf.tab
    cases found.symm.trans found'
    exact .inl (by rw [actor]; rfl)
  · obtain ⟨e', found', _, plays⟩ := tabOf.parts part listed
    cases found.symm.trans found'
    exact .inr (TabActor.rank_of_part listed plays)

theorem ne_root (tabOf : r.TabOf name t) {root : RootActor} (rooted : r.find? Tabs.rootName = some (.root root))
    (named : Named name t x) (found : r.entryOf? x = some e) : x ≠ Tabs.rootName := by
  rintro rfl
  rw [find?_eq_entryOf?, found] at rooted
  have root : e.actor = .root root := Option.some.inj rooted
  have rank := tabOf.rank named found
  rw [root] at rank
  exact absurd rank (by simp [Actor.rank])

end TabOf

/-! ### One tab leaves -/

theorem Valid.under_owner (valid : r.Valid id) (found : r.entryOf? x = some e) {owner : String}
    (owned : e.owner = some owner) (under : r.Under name x) : x = name ∨ r.Under name owner := by
  rcases Relation.ReflTransGen.cases_tail under with same | ⟨above, upper, owns⟩
  · exact .inl same
  · obtain ⟨e', member, named, owned'⟩ := owns_iff.mp owns
    obtain ⟨member', named'⟩ := mem_of_entryOf? found
    rw [valid.entry_unique member member' (named.trans named'.symm), owned] at owned'
    cases owned'
    exact .inr upper

section

variable (valid : r.Valid id) {root : RootActor} (rooted : r.find? Tabs.rootName = some (.root root))

include valid rooted

theorem Valid.not_under_root (other : name ≠ Tabs.rootName) : ¬ r.Under name Tabs.rootName := by
  intro under
  have has : r.Has Tabs.rootName 0 := has_of_find? rooted
  rcases Relation.ReflTransGen.cases_tail under with same | ⟨above, _, owns⟩
  · exact other same.symm
  · obtain ⟨e, member, _, owned⟩ := owns_iff.mp owns
    obtain ⟨_, rank, lower, _⟩ := valid.owned e member above owned
    have top : e.actor.rank = 0 := valid.has_unique ⟨e, member, ‹_›, rfl⟩ has
    omega

theorem TabOf.apart (tabOf : r.TabOf name t) {other : String} {t' : TabActor} (tabOf' : r.TabOf other t')
    (apart : name ≠ other) (named : TabOf.Named name t x) : ¬ r.Under other x := by
  intro under
  have ne_root : other ≠ Tabs.rootName := by
    obtain ⟨e, found, _, _⟩ := tabOf'.tab
    exact tabOf'.ne_root rooted (.inl rfl) found
  have clear : ¬ r.Under other name := by
    intro under
    obtain ⟨e, found, owned, _⟩ := tabOf.tab
    rcases valid.under_owner found owned under with same | under
    · exact apart same
    · exact valid.not_under_root rooted ne_root under
  rcases named with rfl | ⟨part, listed, rfl⟩
  · exact clear under
  · obtain ⟨e, found, owned, plays⟩ := tabOf.parts part listed
    rcases valid.under_owner found owned under with same | under
    · -- a part is no tab
      have tab := tabOf'.find?
      rw [← same, find?_eq_entryOf?, found] at tab
      have actor : e.actor = .tab t' := Option.some.inj tab
      have rank := TabActor.rank_of_part listed plays
      rw [actor] at rank
      exact absurd rank (by simp [Actor.rank])
    · exact clear under

end

end Registry

namespace Scene

open Registry (TabOf Lists)

variable {s t : Scene} {view : TabId → Option PageId} {root : RootActor}

section

variable (continues : s.Continues true t) (few : t.Few)
  (valid : s.Valid)

include continues few valid

theorem Continues.stays {name : String} {e : Entry} (found : s.conn.registry.entryOf? name = some e)
    (there : name ∈ t.conn.registry.names) : ∃ e', t.conn.registry.entryOf? name = some e' ∧ e.Heir true e' := by
  obtain ⟨e', member, named⟩ := List.mem_map.mp there
  cases found' : t.conn.registry.entryOf? name with
  | none => simpa [named] using List.find?_eq_none.mp found' e' member
  | some e' =>
    rcases continues.entries name e' found' with ⟨e'', found'', heir⟩ | ⟨new, _⟩
    · cases found.symm.trans found''
      exact ⟨e', rfl, heir⟩
    · obtain ⟨member, rfl⟩ := Registry.mem_of_entryOf? found
      rcases valid.name_given (List.mem_map_of_mem member) with root | given
      · exact absurd root new.ne_root
      · exact (given.disjoint new (Nat.le_refl _) few).elim

theorem Continues.lists (lists : s.conn.registry.Lists view root) (rooted : Tabs.rootName ∈ t.conn.registry.names)
    (there : ∀ {tab name tabActor}, root.tabs.get? tab = some name → s.conn.registry.TabOf name tabActor →
      ∀ x e, TabOf.Named name tabActor x → s.conn.registry.entryOf? x = some e → x ∈ t.conn.registry.names) :
    t.conn.registry.Lists view root where
  rooted := by
    obtain ⟨e, found, actor⟩ := Option.map_eq_some_iff.mp lists.rooted
    obtain ⟨e', found', heir⟩ := continues.stays few valid found rooted
    have kind := heir.kind
    rw [actor, Actor.Kind.seen_true, Actor.Kind.seen_true] at kind
    rw [Registry.find?_eq_entryOf?, found', Option.map_some, Actor.kind_eq_root kind]
  sorted := lists.sorted
  rows listed := by
    obtain ⟨tabActor, tabOf, shown⟩ := lists.rows listed
    refine ⟨tabActor, tabOf.carry fun x e named found => ?_, shown⟩
    exact continues.stays few valid found (there listed tabOf x e named found)
  all := lists.all
  inj := lists.inj

end

theorem Orderly.lists {P : Registry → Prop} (orderly : Scene.Orderly 3 P s t) (continues : s.Continues true t)
    (few : t.Few) (valid : s.Valid) (holds : P s.conn.registry)
    (lists : s.conn.registry.Lists view root) : t.conn.registry.Lists view root := by
  have high := (orderly.follows few valid holds).high
  refine continues.lists few valid lists ?_ fun _ tabOf x e named found => ?_
  · exact ((high _ 0 (by decide)).mpr (Registry.has_of_find? lists.rooted)).mem_names
  · obtain ⟨member, rfl⟩ := Registry.mem_of_entryOf? found
    refine ((high e.name e.actor.rank ?_).mpr ⟨e, member, rfl, rfl⟩).mem_names
    rcases tabOf.rank named found with rank | rank <;> omega

theorem release_lists (few : s.Few) (valid : s.Valid)
    (lists : s.conn.registry.Lists view root) {name : String} {tabActor : TabActor}
    (tabOf : s.conn.registry.TabOf name tabActor)
    (out : ∀ {tab name'}, root.tabs.get? tab = some name' → name' ≠ name) :
    (s.release name).conn.registry.Lists view root := by
  have pruned := release_pruned valid name
  have continues : s.Continues true (s.release name) := (Continues.registering true).minding.release s name
  refine continues.lists (Nat.le_trans (Nat.le_of_eq (next_release s name)) few) valid lists ?_ fun listed tabOf' x e named found => ?_
  · refine pruned.mem_names.mpr ⟨(Registry.has_of_find? lists.rooted).mem_names, ?_⟩
    obtain ⟨e, found, _, _⟩ := tabOf.tab
    exact valid.not_under_root lists.rooted (tabOf.ne_root lists.rooted (.inl rfl) found)
  · obtain ⟨member, rfl⟩ := Registry.mem_of_entryOf? found
    exact pruned.mem_names.mpr ⟨List.mem_map_of_mem member, tabOf'.apart valid lists.rooted tabOf (out listed) named⟩

end Scene

/-! ### Tabs come and go -/

namespace Tabs

open Registry (TabOf Lists)

variable {s : Scene} {tab : TabId} {id : PageId} {page : Page} {view : TabId → Option PageId} {root : RootActor}

def newest (s : Scene) (id : PageId) : TabActor :=
  let name kind i := Registry.nameOf s.conn.id kind (s.conn.registry.next + i)
  ⟨id, name "inspector" 1, name "trace" 2, name "console" 4, name "thread" 3⟩

theorem registry_enlisted (s : Scene) (tab : TabId) (id : PageId) (page : Page) :
    ∃ f, (enlisted s tab id page).conn.registry =
        (s.conn.registry.extend (added s id page) s.conn.registry.scripts (s.conn.registry.next + 5)).update rootName f ∧
      ∀ root, f (.root root) = .root { root with
        tabs := root.tabs.insertBy (fun a b => decide (a < b)) tab ((register id page).result s) } := by
  rw [← registry_register s id page, enlisted, updateRoot, Act.after_update, Scene.registry_update]
  exact ⟨_, rfl, fun root => rfl⟩

theorem entryOf?_enlisted {x : String} {e : Entry} (found : s.conn.registry.entryOf? x = some e)
    (other : x ≠ rootName) : (enlisted s tab id page).conn.registry.entryOf? x = some e := by
  obtain ⟨f, registry, _⟩ := registry_enlisted s tab id page
  rw [registry, Registry.entryOf?_update, Registry.entryOf?_extend, found, Option.some_or, Option.map_some, if_neg other]

theorem find?_enlisted (rooted : s.conn.registry.find? rootName = some (.root root)) :
    (enlisted s tab id page).conn.registry.find? rootName = some (.root { root with
      tabs := root.tabs.insertBy (fun a b => decide (a < b)) tab ((register id page).result s) }) := by
  obtain ⟨f, registry, replaces⟩ := registry_enlisted s tab id page
  rw [registry, Registry.find?_update, Registry.find?_extend, rooted, Option.some_or, Option.map_some, if_pos rfl, replaces]

section

variable (few : s.conn.registry.next + 5 ≤ UInt32.size) (valid : s.Valid)
  (rooted : s.conn.registry.find? rootName = some (.root root))

include few valid rooted

theorem enlisted_valid : (enlisted s tab id page).conn.registry.Valid (enlisted s tab id page).conn.id := by
  have orderly := enlisted_orderly s tab id page
  rw [orderly.id]
  exact (orderly.follows few valid ⟨0, by decide, Registry.has_of_find? rooted⟩).valid

theorem enlisted_tabOf : (enlisted s tab id page).conn.registry.TabOf ((register id page).result s) (newest s id) := by
  have there {e : Entry} (member : e ∈ added s id page) :
      (enlisted s tab id page).conn.registry.entryOf? e.name = some e := by
    refine (enlisted_valid few valid rooted).entryOf?_of_mem ?_
    obtain ⟨f, registry, _⟩ := registry_enlisted s tab id page
    rw [registry]
    exact Registry.mem_update.mpr (.inl ⟨List.mem_append_right _ member, (added_named s id page e member).ne_root⟩)
  constructor
  · exact ⟨_, there (List.mem_append_right [_, _, _, _] (List.mem_singleton_self _)), rfl, rfl⟩
  · intro part listed
    simp only [TabActor.parts, List.mem_cons, List.not_mem_nil, or_false] at listed
    rcases listed with rfl | rfl | rfl | rfl
    · exact ⟨_, there List.mem_cons_self, rfl, rfl⟩
    · exact ⟨_, there (.tail _ List.mem_cons_self), rfl, rfl⟩
    · exact ⟨_, there (.tail _ (.tail _ (.tail _ List.mem_cons_self))), rfl, rfl⟩
    · exact ⟨_, there (.tail _ (.tail _ List.mem_cons_self)), rfl, rfl⟩

end

theorem enlisted_keeps {name : String} {t : TabActor} (rooted : s.conn.registry.find? rootName = some (.root root))
    (tabOf : s.conn.registry.TabOf name t) : (enlisted s tab id page).conn.registry.TabOf name t := by
  refine tabOf.carry fun x e named found => ⟨e, entryOf?_enlisted found ?_, .refl e⟩
  exact tabOf.ne_root rooted named found

section

variable (few : s.conn.registry.next + 5 ≤ UInt32.size) (valid : s.Valid)
  (lists : s.conn.registry.Lists view root)

include few valid lists

theorem ne_register {tab' : TabId} {name : String} (listed : root.tabs.get? tab' = some name) :
    name ≠ (register id page).result s := by
  rintro rfl
  obtain ⟨t, tabOf, _⟩ := lists.rows listed
  have new : Named s.conn.id s.conn.registry.next (s.conn.registry.next + 5) ((register id page).result s) :=
    ⟨"tab", by decide, _, Nat.le_refl _, Nat.lt_add_of_pos_right (by decide), rfl⟩
  rcases valid.name_given (Registry.has_of_find? tabOf.find?).mem_names with root | given
  · exact new.ne_root root
  · exact given.disjoint new (Nat.le_refl _) few

theorem enlisted_lists : (enlisted s tab id page).conn.registry.Lists
      (Function.update view tab (some id)) { root with
        tabs := root.tabs.insertBy (fun a b => decide (a < b)) tab ((register id page).result s) } where
  rooted := find?_enlisted lists.rooted
  sorted := Table.sorted_insertBy lists.sorted tab _
  rows {tab' name} listed := by
    rw [Table.get?_insertBy] at listed
    split at listed
    · rename_i here
      cases here
      cases listed
      exact ⟨_, enlisted_tabOf few valid lists.rooted, Function.update_self ..⟩
    · rename_i other
      obtain ⟨t, tabOf, shown⟩ := lists.rows listed
      refine ⟨t, enlisted_keeps lists.rooted tabOf, ?_⟩
      rw [Function.update_of_ne (Ne.symm other), shown]
  all {tab' page'} shown := by
    rw [Table.get?_insertBy]
    split
    · exact ⟨_, rfl⟩
    · rename_i other
      rw [Function.update_of_ne (Ne.symm other)] at shown
      exact lists.all shown
  inj {tab' tab'' name} listed listed' := by
    rw [Table.get?_insertBy] at listed listed'
    split at listed <;> split at listed'
    · rename_i here here'
      exact here.symm.trans here'
    · cases listed
      exact absurd rfl (ne_register few valid lists listed')
    · cases listed'
      exact absurd rfl (ne_register few valid lists listed)
    · exact lists.inj listed listed'

end

theorem root_eq (rooted : s.conn.registry.find? rootName = some (.root root)) : Tabs.root s = root := by
  unfold Tabs.root
  rw [Scene.find?, rooted]

theorem next_enlisted (s : Scene) (tab : TabId) (id : PageId) (page : Page) :
    (enlisted s tab id page).conn.registry.next = s.conn.registry.next + 5 := by
  obtain ⟨f, registry, _⟩ := registry_enlisted s tab id page
  rw [registry]
  rfl

theorem add_lists (shown : s.site.page? id = some page) (few : ((add tab id).after s).Few) (valid : s.Valid)
    (lists : s.conn.registry.Lists view root) :
    ∃ root', ((add tab id).after s).conn.registry.Lists (Function.update view tab (some id)) root' := by
  rw [after_add s tab shown, root_eq lists.rooted] at few ⊢
  cases listed : root.tabs.get? tab with
  | none =>
    rw [listed] at few
    dsimp only at few ⊢
    rw [Scene.Few, next_enlisted] at few
    exact ⟨_, enlisted_lists few valid lists⟩
  | some previous =>
    simp only [listed, Scene.Few, Scene.next_release] at few
    dsimp only
    have few' : s.conn.registry.next + 5 ≤ UInt32.size := next_enlisted s tab id page ▸ few
    obtain ⟨t, tabOf, _⟩ := lists.rows listed
    refine ⟨_, Scene.release_lists few (enlisted_valid few' valid lists.rooted) (enlisted_lists few' valid lists)
      (enlisted_keeps lists.rooted tabOf) fun {tab' name} there same => ?_⟩
    rw [Table.get?_insertBy] at there
    split at there
    · cases there
      exact ne_register few' valid lists listed same.symm
    · rename_i other
      exact other (lists.inj listed (same ▸ there))

theorem remove_lists (few : ((remove tab).after s).Few)
    (valid : s.Valid) (lists : s.conn.registry.Lists view root) :
    ∃ root', ((remove tab).after s).conn.registry.Lists (Function.update view tab none) root' := by
  have follows := delisted_orderly (P := fun _ => True) s tab
  have keeps {name : String} {t : TabActor} (tabOf : s.conn.registry.TabOf name t) :
      (delisted s tab).conn.registry.TabOf name t := by
    refine tabOf.carry fun x e named found => ⟨e, ?_, .refl e⟩
    refine (Registry.entryOf?_update _ _ _ _).trans ?_
    rw [found, Option.map_some, if_neg (tabOf.ne_root lists.rooted named found)]
  have delisted : (delisted s tab).conn.registry.Lists (Function.update view tab none)
      { root with tabs := root.tabs.erase tab } := by
    refine ⟨?_, ?_, fun {tab' name} listed => ?_, fun {tab' page} shown => ?_, fun {tab' tab'' name} listed listed' => ?_⟩
    · refine (Registry.find?_update _ _ _ _).trans ?_
      rw [lists.rooted, Option.map_some, if_pos rfl]
    · rw [Table.keys_erase]
      exact lists.sorted.filter _
    · rw [Table.get?_erase] at listed
      split at listed
      · cases listed
      · rename_i other
        obtain ⟨t, tabOf, shown⟩ := lists.rows listed
        exact ⟨t, keeps tabOf, by rw [Function.update_of_ne (Ne.symm other), shown]⟩
    · rw [Table.get?_erase]
      by_cases here : tab' = tab
      · rw [here, Function.update_self] at shown
        cases shown
      · rw [Function.update_of_ne here] at shown
        rw [if_neg (Ne.symm here)]
        exact lists.all shown
    · rw [Table.get?_erase] at listed listed'
      split at listed <;> split at listed'
      · cases listed
      · cases listed
      · cases listed'
      · exact lists.inj listed listed'
  rw [after_remove, root_eq lists.rooted] at few ⊢
  cases listed : root.tabs.get? tab with
  | none => exact ⟨_, delisted⟩
  | some name =>
    rw [listed] at few
    dsimp only at few ⊢
    rw [Scene.Few, Scene.next_release] at few
    obtain ⟨t, tabOf, _⟩ := lists.rows listed
    refine ⟨_, Scene.release_lists few (follows.valid few valid trivial) delisted (keeps tabOf)
      fun {tab' name'} there same => ?_⟩
    rw [Table.get?_erase] at there
    split at there
    · cases there
    · rename_i other
      exact other (lists.inj listed (same ▸ there))

theorem site_enlisted (s : Scene) (tab : TabId) (id : PageId) (page : Page) :
    (enlisted s tab id page).site = s.site := by
  have named (kind : String) (t : Scene) : ((Act.newName kind).after t).site = t.site := rfl
  have listed (name : String) (owner : Option String) (actor : Actor) (t : Scene) :
      ((Act.registerAs name owner actor).after t).site = t.site := rfl
  have rooted (f : RootActor → RootActor) (t : Scene) : ((updateRoot f).after t).site = t.site := rfl
  simp only [enlisted, rooted, register, Act.register, Act.after_bind, Act.after_pure, listed, named]

theorem add_unmoved (s : Scene) (tab : TabId) (id : PageId) : s.site.Unmoved ((add tab id).after s).site := by
  cases shown : s.site.page? id with
  | none =>
    simp only [add, Act.after_bind, Act.after_get, Act.result_get, shown]
    exact .refl _
  | some page =>
    rw [after_add s tab shown]
    split
    · rename_i previous _
      have moved := Scene.release_unmoved (enlisted s tab id page) previous
      rwa [site_enlisted] at moved
    · rw [site_enlisted]
      exact .refl _

theorem forM_add_lists {tabs : Table TabId PageId} (distinct : tabs.keys.Nodup)
    (shown : ∀ p ∈ tabs, (s.site.page? p.2).isSome) (few : ((tabs.forM fun (tab, page) => add tab page).after s).Few)
    (valid : s.Valid) (lists : s.conn.registry.Lists view root) :
    ∃ root', ((tabs.forM fun (tab, page) => add tab page).after s).conn.registry.Lists
      (fun tab => (tabs.get? tab).or (view tab)) root' := by
  induction tabs generalizing s view root with
  | nil => exact ⟨root, lists⟩
  | cons first rest ih =>
    obtain ⟨tab, id⟩ := first
    obtain ⟨absent, distinct⟩ := List.nodup_cons.mp distinct
    change ((List.forM rest fun (tab, page) => add tab page).after ((add tab id).after s)).conn.registry.next ≤
      UInt32.size at few
    change ∃ root', ((List.forM rest fun (tab, page) => add tab page).after ((add tab id).after s)).conn.registry.Lists
      (fun tab' => (Table.get? ((tab, id) :: rest) tab').or (view tab')) root'
    have above : s.conn.registry.Above 1 rootName := ⟨0, by decide, Registry.has_of_find? lists.rooted⟩
    have adding := add_orderly tab id s trivial
    have more : Scene.Orderly 1 (fun r => r.Above 1 rootName) ((add tab id).after s) _ :=
      (Act.orderly_law (Registry.stable_above 1 rootName)).forM_mem
        (fun (entry : TabId × PageId) (_ : entry ∈ rest) => add_orderly entry.1 entry.2) _ trivial
    have few' := Nat.le_trans more.later few
    obtain ⟨page, here⟩ := Option.isSome_iff_exists.mp (shown _ List.mem_cons_self)
    obtain ⟨_, lists'⟩ := add_lists here few' valid lists
    have shown' : ∀ p ∈ rest, (((add tab id).after s).site.page? p.2).isSome := by
      intro p member
      rw [Site.page?, (add_unmoved s tab id).pages]
      exact shown p (List.mem_cons_of_mem _ member)
    obtain ⟨root', lists''⟩ := ih distinct shown' few (adding.valid few' valid above) lists'
    refine ⟨root', ?_⟩
    convert lists'' using 1
    funext tab'
    by_cases same : tab = tab'
    · subst same
      have none : Table.get? rest tab = none := by
        cases found : Table.get? rest tab with
        | none => rfl
        | some page => exact absurd (Table.mem_keys_iff.mpr ⟨page, found⟩) absent
      simp [Table.get?, none]
    · simp [Table.get?, same, Function.update_of_ne (Ne.symm same)]

end Tabs

/-! ### Turns -/

def Event.amend (view : TabId → Option PageId) : Event → TabId → Option PageId
  | .tabAdded tab page => Function.update view tab (some page)
  | .tabClosed tab => Function.update view tab none
  | _ => view

theorem Event.amend_of_fixed {event : Event} (fixed : event.Fixed) (view : TabId → Option PageId) :
    event.amend view = view := by
  cases event with
  | tabAdded | tabClosed => exact fixed.elim
  | _ => rfl

def Serve.Input.amend (view : TabId → Option PageId) : Serve.Input → TabId → Option PageId
  | .event news => news.amend view
  | _ => view

theorem Serve.Input.amend_of_fixed {input : Serve.Input} (fixed : input.Fixed) (view : TabId → Option PageId) :
    input.amend view = view := by
  cases input with
  | event news => exact news.amend_of_fixed fixed view
  | _ => rfl

theorem Scene.Moves.still {s t : Scene} (moves : Relation.ReflTransGen Move s t) : s.site.Still t.site :=
  site_rel .refl .trans (·.toStill) (fun unmoved => .elsewhere unmoved.pages unmoved.nextPage unmoved.mail)
    (fun _ _ _ => .elsewhere rfl rfl rfl) moves

namespace Serve

variable {s : Scene} {input : Input} {view : TabId → Option PageId} {root : RootActor}

theorem step_still (given : s.Given) (input : Input) : s.site.Still (step s input).site :=
  Scene.Moves.still (Scene.lasting.step s input given).1

theorem report_orderly (s : Scene) (tracer type : String)
    (details : Site → Tracing → Site × List (String × Json)) :
    Scene.Orderly 3 (fun _ => True) s ((Tracer.report tracer type details).after s) := by
  have counted : Scene.Orderly 3 (fun _ => True) s (((s.setSite fun _ => (details s.site (s.tracing tracer)).1).setTracing
      tracer fun t => { t with sequence := t.sequence + 1 })) := .same rfl rfl
  exact counted.trans (Registry.stable_true 3) (Act.Orderly.event _ _ trivial)

/-- As long as no tab comes or goes and the connection goes on, the tabs and their actors stay in place. -/
theorem step_orderly (fixed : input.Fixed) (goes_on : (step s input).conn.isOpen) :
    Scene.Orderly 3 (fun _ => True) s (step s input) := by
  have closes (t : Scene) : ¬ (close t).conn.isOpen := by simp [close, Scene.setConn, Connection.isOpen]
  cases input with
  | packet packet =>
    dsimp only [step] at goes_on ⊢
    split
    · rename_i isOpen
      rw [if_pos isOpen] at goes_on
      unfold receive at goes_on ⊢
      cases packet with
      | obj fields =>
        dsimp only at goes_on ⊢
        split
        · exact Request.handle_orderly s fields
        · rename_i ended
          rw [if_neg ended] at goes_on
          exact absurd goes_on (closes _)
      | _ => exact .refl s
    · exact .refl s
  | event event =>
    dsimp only [step, onEvent]
    split
    · exact fixed_orderly s fixed
    · exact .refl s
  | entered tracer frame => exact report_orderly s tracer _ _
  | left tracer completion => exact report_orderly s tracer _ _
  | lineBroken =>
    dsimp only [step]
    split
    · exact .same rfl rfl
    · exact .refl s
  | hungUp =>
    dsimp only [step] at goes_on ⊢
    split
    · rename_i isOpen
      rw [if_pos isOpen] at goes_on
      exact absurd goes_on (closes s)
    · exact .refl s
  | told => exact .same rfl rfl

theorem open_of_step (goes_on : (step s input).conn.isOpen) : s.conn.isOpen := by
  have reported (tracer type : String) (details : Site → Tracing → Site × List (String × Json)) :
      ((Tracer.report tracer type details).after s).conn.isOpen = s.conn.isOpen := by
    rw [Tracer.after_report]
    unfold Scene.write
    split <;> rfl
  cases input with
  | packet packet | event event | lineBroken | hungUp =>
    by_contra closed
    simp only [step, onEvent, if_neg closed] at goes_on
    exact closed goes_on
  | entered tracer frame => exact (reported tracer _ _).symm ▸ goes_on
  | left tracer completion => exact (reported tracer _ _).symm ▸ goes_on
  | told => simpa [step, Scene.setConn, Connection.isOpen] using goes_on

theorem step_lists (shown : ∀ {tab page}, input = .event (.tabAdded tab page) → (s.site.page? page).isSome)
    (goes_on : (step s input).conn.isOpen) (few : (step s input).Few)
    (valid : s.Valid) (lists : s.conn.registry.Lists view root) :
    ∃ root', (step s input).conn.registry.Lists (input.amend view) root' := by
  by_cases fixed : input.Fixed
  · rw [Input.amend_of_fixed fixed]
    exact ⟨root, (step_orderly fixed goes_on).lists (.of_fixed s fixed) few valid trivial lists⟩
  · have isOpen := open_of_step goes_on
    cases input with
    | event event =>
      simp only [step, onEvent, if_pos isOpen] at few ⊢
      cases event with
      | tabAdded tab id =>
        obtain ⟨page, here⟩ := Option.isSome_iff_exists.mp (shown rfl)
        exact Tabs.add_lists here few valid lists
      | tabClosed tab => exact Tabs.remove_lists few valid lists
      | _ => exact absurd trivial fixed
    | _ => exact absurd trivial fixed

theorem start_lists {site : Site} {id : ConnectionId} {line : Line} {tabs : Table TabId PageId}
    (distinct : tabs.keys.Nodup) (shown : ∀ p ∈ tabs, (site.page? p.2).isSome)
    (few : (start ⟨site, { id, line }⟩ tabs).Few)
    (isOpen : (start ⟨site, { id, line }⟩ tabs).conn.isOpen) :
    ∃ root, (start ⟨site, { id, line }⟩ tabs).conn.registry.Lists tabs.get? root := by
  have written (t : Scene) (packet : Json) : (t.write packet).conn.registry = t.conn.registry := by
    unfold Scene.write
    split <;> rfl
  have alone : (rooted site id line).conn.registry.Lists (fun _ => none) {} :=
    ⟨rfl, .nil, nofun, nofun, nofun⟩
  rw [start_eq] at few isOpen ⊢
  split
  · rename_i up
    rw [if_pos up, greeted, Scene.Few, written] at few
    rw [greeted, written]
    obtain ⟨root, lists⟩ := Tabs.forM_add_lists distinct shown few (root_valid id) alone
    simp only [Option.or_none] at lists
    exact ⟨root, lists⟩
  · rename_i down
    rw [if_neg down] at isOpen
    simp [close, Scene.setConn, Connection.isOpen] at isOpen

end Serve

end RemoteInspector
