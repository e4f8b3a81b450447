import RemoteInspector.Proofs.Network.Courses
import RemoteInspector.Proofs.Serve.Registering
/-!
The tables of consoles: the actors of the requests that have started and are still there.
-/
namespace RemoteInspector

open Registry (Entry Named)

/-- The actors that are forgotten are no longer in the table of a console. -/
def Actor.Link.forget (name : String) : Actor.Link → Actor.Link
  | .console requests => .console (requests.filter (·.2 ≠ name))
  | link => link

/-- The actor of a new request is in the table of its console. -/
def Actor.Link.enlist (id name : String) : Actor.Link → Actor.Link
  | .console requests => .console (requests.insert id name)
  | link => link

namespace Connection

def link? (c : Connection) (name : String) : Option Actor.Link := (c.registry.find? name).bind Actor.link?

variable {c d : Connection} {name : String}

theorem link?_network {n : NetworkActor} :
    c.link? name = some (.network n) ↔ c.registry.find? name = some (.network n) := by
  unfold link?
  cases c.registry.find? name with
  | none => simp
  | some actor => cases actor <;> simp [Actor.link?]

theorem link?_console {actor : ConsoleActor} (live : c.registry.find? name = some (.console actor)) :
    c.link? name = some (.console actor.requests) := by
  rw [link?, live]
  rfl

theorem link?_of_registry (same : d.registry = c.registry) (x : String) : d.link? x = c.link? x := by
  rw [link?, same, link?]

end Connection

namespace Scene

variable {s t : Scene}

theorem link?_update {name : String} {f : Actor → Actor} {g : Actor.Link → Actor.Link}
    (maps : ∀ a, s.find? name = some a → (f a).link? = a.link?.map g) (x : String) :
    (s.update name f).conn.link? x = if x = name then (s.conn.link? x).map g else s.conn.link? x := by
  rw [Connection.link?, registry_update, Registry.find?_update, Connection.link?]
  by_cases same : x = name
  · subst same
    cases live : s.conn.registry.find? x with
    | none => simp
    | some a => simpa using maps a live
  · rw [if_neg same]
    cases s.conn.registry.find? x <;> simp [same]

theorem link?_update_same {name : String} {f : Actor → Actor}
    (kept : ∀ a, s.find? name = some a → (f a).link? = a.link?) (x : String) :
    (s.update name f).conn.link? x = s.conn.link? x := by
  rw [link?_update (g := id) (fun a live => (kept a live).trans (by simp))]
  simp

/-- An actor that leaves is forgotten by its console, if it is that of a request. -/
theorem link?_releaseOne (s : Scene) (name x : String) : (s.releaseOne name).conn.link? x =
    if x = name then none else
      match s.conn.link? name with
      | some (.network n) => (s.conn.link? x).map fun link => if x = n.console then link.forget name else link
      | _ => s.conn.link? x := by
  have removed : (s.setRegistry (·.remove name)).conn.link? x = if x = name then none else s.conn.link? x := by
    change ((s.conn.registry.remove name).find? x).bind _ = _
    rw [Registry.find?_remove, Connection.link?]
    split <;> rfl
  have there : s.conn.link? name = (s.find? name).bind Actor.link? := rfl
  unfold releaseOne
  cases found : s.find? name with
  | none =>
    rw [there, found]
    by_cases same : x = name
    · rw [if_pos same, same, there, found]
      rfl
    · rw [if_neg same]
      rfl
  | some actor =>
    rw [there, found]
    have elsewhere {u : Scene} (same : u.conn.registry = (s.setRegistry (·.remove name)).conn.registry) :
        u.conn.link? x = if x = name then none else s.conn.link? x :=
      (Connection.link?_of_registry same x).trans removed
    have forgets {u : Scene} {walker : String} {f : Actor → Actor} (kept : ∀ a, (f a).link? = a.link?)
        (same : u.conn.registry = (s.setRegistry (·.remove name)).conn.registry) :
        (u.update walker f).conn.link? x = if x = name then none else s.conn.link? x :=
      (link?_update_same (fun a _ => kept a) x).trans (elsewhere same)
    cases actor with
    | node actor =>
      simp only [destroy]
      split
      · exact forgets (fun a => by cases a <;> rfl) rfl
      · exact forgets (fun a => by cases a <;> rfl) rfl
    | console actor =>
      simp only [destroy]
      split <;> exact removed
    | trace host => exact elsewhere (Scene.registry_detach _ name)
    | network n =>
      refine (link?_update (g := Actor.Link.forget name) (fun a _ => ?_) x).trans ?_
      · cases a <;> rfl
      · rw [removed]
        by_cases same : x = name
        · simp [same]
        · rw [if_neg same, if_neg same]
          split
          · rename_i here
            simp [here, Actor.link?]
          · rename_i here
            simp [here, Actor.link?]
    | _ => exact removed

end Scene

/-- The requests that have started, by the console that handled them and their numbers. -/
abbrev Courses := String → String → Option Course

namespace Courses

variable {courses : Courses} {own own' id id' : String} {k k' : Course}

def set (courses : Courses) (own id : String) (k : Course) : Courses := fun own' id' =>
  if own' = own ∧ id' = id then some k else courses own' id'

theorem set_self (courses : Courses) (own id : String) (k : Course) : courses.set own id k own id = some k :=
  if_pos ⟨rfl, rfl⟩

theorem set_other (other : ¬ (own' = own ∧ id' = id)) : courses.set own id k own' id' = courses own' id' :=
  if_neg other

theorem set_eq_some (tracked : courses.set own id k own' id' = some k') :
    own' = own ∧ id' = id ∧ k' = k ∨ ¬ (own' = own ∧ id' = id) ∧ courses own' id' = some k' := by
  by_cases here : own' = own ∧ id' = id
  · obtain ⟨rfl, rfl⟩ := here
    rw [set_self] at tracked
    exact .inl ⟨rfl, rfl, (Option.some.inj tracked).symm⟩
  · rw [set_other here] at tracked
    exact .inr ⟨here, tracked⟩

end Courses

/-- The actors of requests are those of the courses, each has what was told of its request, and the tables of consoles
have just those that are there. Strays are left aside. -/
structure Charted (courses : Courses) (strays : String → Prop) (c : Connection) : Prop where
  taken : ∀ {own id k}, courses own id = some k →
    Named c.id 0 c.registry.next k.actor ∧ Named c.id 0 c.registry.next own
  apart : ∀ {own id id' k k'}, courses own id = some k → courses own id' = some k' → k.actor = k'.actor → id = id'
  state : ∀ {own id k link}, courses own id = some k → c.link? k.actor = some link → link = .network (k.state own)
  listed : ∀ {x n}, c.link? x = some (.network n) → strays x ∨ ∃ id k, courses n.console id = some k ∧ k.actor = x
  keys : ∀ {own table}, c.link? own = some (.console table) → table.keys.Nodup
  table : ∀ {own table id x}, c.link? own = some (.console table) →
    (table.get? id = some x ↔ ∃ k, courses own id = some k ∧ k.actor = x ∧ (c.link? x).isSome)

namespace Charted

variable {courses : Courses} {strays : String → Prop} {c d : Connection}

theorem congr (charted : Charted courses strays c) (id : d.id = c.id) (later : c.registry.next ≤ d.registry.next)
    (links : ∀ x, d.link? x = c.link? x) : Charted courses strays d where
  taken tracked := by
    rw [id]
    obtain ⟨actor, own⟩ := charted.taken tracked
    exact ⟨actor.widen (Nat.le_refl _) later, own.widen (Nat.le_refl _) later⟩
  apart := charted.apart
  state tracked live := charted.state tracked (links _ ▸ live)
  listed live := charted.listed (links _ ▸ live)
  keys live := charted.keys (links _ ▸ live)
  table live := by
    rw [links] at live
    simp only [links]
    exact charted.table live

theorem extend {added : List Entry} {scripts : Table ObjectId String} {next : Nat}
    (charted : Charted courses strays c) (id : d.id = c.id)
    (registry : d.registry = c.registry.extend added scripts next) (later : c.registry.next ≤ next)
    (few : next ≤ UInt32.size)
    (new : ∀ e ∈ added, Named c.id c.registry.next next e.name ∧ e.actor.Unlinked) : Charted courses strays d := by
  have upto : d.registry.next = next := by
    rw [registry]
    rfl
  have find (x : String) : d.registry.find? x = (c.registry.find? x).or ((added.find? (·.name = x)).map (·.actor)) := by
    rw [registry, Registry.find?_extend]
  -- A name that has been given does not come again.
  have old {x : String} (given : Named c.id 0 c.registry.next x) : d.link? x = c.link? x := by
    have absent : added.find? (·.name = x) = none := by
      refine List.find?_eq_none.mpr fun e member same => ?_
      rw [decide_eq_true_iff] at same
      exact given.disjoint (same ▸ (new e member).1) (Nat.le_refl _) few
    rw [Connection.link?, find, absent, Option.map_none, Option.or_none, Connection.link?]
  have either {x : String} {link : Actor.Link} (live : d.link? x = some link) : c.link? x = some link ∨
      link = .console [] ∧ Named c.id c.registry.next next x := by
    rw [Connection.link?, find] at live
    cases there : c.registry.find? x with
    | some a =>
      rw [there] at live
      left
      rw [Connection.link?, there]
      exact live
    | none =>
      rw [there, Option.none_or] at live
      obtain ⟨a, came, linked⟩ := Option.bind_eq_some_iff.mp live
      obtain ⟨e, found, rfl⟩ := Option.map_eq_some_iff.mp came
      obtain ⟨named, unlinked⟩ := new e (List.mem_of_find?_eq_some found)
      have same : e.name = x := by simpa using List.find?_some found
      exact .inr ⟨unlinked link linked, same ▸ named⟩
  refine ⟨fun {own id' k} tracked => ?_, charted.apart, fun {own id' k link} tracked live => ?_, fun {x n} live => ?_,
    fun {own table} live => ?_, fun {own table id' x} live => ?_⟩
  · obtain ⟨actor, own⟩ := charted.taken tracked
    rw [id, upto]
    exact ⟨actor.widen (Nat.le_refl _) later, own.widen (Nat.le_refl _) later⟩
  · rw [old (charted.taken tracked).1] at live
    exact charted.state tracked live
  · rcases either live with live | ⟨same, -⟩
    · exact charted.listed live
    · cases same
  · rcases either live with live | ⟨same, -⟩
    · exact charted.keys live
    · cases same
      exact .nil
  · rcases either live with live | ⟨same, fresh⟩
    · have taken := @charted.taken
      rw [charted.table live]
      grind
    · cases same
      constructor
      · intro none
        cases none
      · rintro ⟨k, tracked, -⟩
        exact ((charted.taken tracked).2.disjoint fresh (Nat.le_refl _) few).elim

theorem releaseOne {s : Scene} (charted : Charted courses strays s.conn) (name : String)
    (id : (s.releaseOne name).conn.id = s.conn.id)
    (next : (s.releaseOne name).conn.registry.next = s.conn.registry.next) :
    Charted courses strays (s.releaseOne name).conn := by
  have links := Scene.link?_releaseOne s name
  -- Those who stay know what they knew, but for the console of the actor.
  have stayed {x : String} {link : Actor.Link} (live : (s.releaseOne name).conn.link? x = some link) :
      x ≠ name ∧ ∃ link', s.conn.link? x = some link' ∧ (link = link' ∨ link = link'.forget name) := by
    rw [links] at live
    split at live
    · cases live
    · rename_i other
      refine ⟨other, ?_⟩
      split at live
      · obtain ⟨link', there, same⟩ := Option.map_eq_some_iff.mp live
        refine ⟨link', there, ?_⟩
        split at same
        · exact .inr same.symm
        · exact .inl same.symm
      · exact ⟨link, live, .inl rfl⟩
  have isSome (x : String) : ((s.releaseOne name).conn.link? x).isSome ↔ x ≠ name ∧ (s.conn.link? x).isSome := by
    rw [links]
    split
    · rename_i same
      simp [same]
    · rename_i other
      split <;> simp [other]
  obtain ⟨taken, apart, state, listed, keys, tables⟩ := charted
  refine ⟨fun tracked => ?_, apart, fun {own id' k link} tracked live => ?_, fun {x n} live => ?_,
    fun {own table} live => ?_, fun {own table id' x} live => ?_⟩
  · rw [id, next]
    exact taken tracked
  · grind [Actor.Link.forget]
  · obtain ⟨-, link', there, same | same⟩ := stayed live
    · exact listed (same ▸ there)
    · cases link' with
      | console requests => cases same
      | network n' =>
        cases same
        exact listed there
  · obtain ⟨-, link', there, same | same⟩ := stayed live
    · exact keys (same ▸ there)
    · cases link' with
      | console requests =>
        cases same
        exact (List.filter_sublist.map _).nodup (keys there)
      | network n' => cases same
  · -- Other consoles do not have the actor in their tables.
    have owner {k : Course} (tracked : courses own id' = some k) (gone : k.actor = name)
        (there : (s.conn.link? name).isSome) : ∃ n, s.conn.link? name = some (.network n) ∧ n.console = own := by
      obtain ⟨link, linked⟩ := Option.isSome_iff_exists.mp there
      exact ⟨k.state own, state tracked (gone ▸ linked) ▸ linked, rfl⟩
    simp only [isSome]
    rw [links] at live
    split at live
    · cases live
    · split at live
      · obtain ⟨link, there, same⟩ := Option.map_eq_some_iff.mp live
        cases link with
        | console requests =>
          have kept : Table.get? (requests.filter (·.2 ≠ name)) id' = some x ↔ _ := Table.get?_filter_ne_iff (keys there)
          grind [Actor.Link.forget]
        | network n' => grind [Actor.Link.forget]
      · grind

theorem request (charted : Charted courses strays c) {own id x : String} {con : ConsoleActor}
    (live : c.registry.find? own = some (.console con)) (listed : con.requests.get? id = some x) :
    ∃ k, courses own id = some k ∧ k.actor = x ∧ c.registry.find? x = some (.network (k.state own)) := by
  obtain ⟨k, tracked, rfl, there⟩ := (charted.table (Connection.link?_console live)).mp listed
  obtain ⟨link, linked⟩ := Option.isSome_iff_exists.mp there
  cases charted.state tracked linked
  exact ⟨k, tracked, rfl, Connection.link?_network.mp linked⟩

theorem gone (charted : Charted courses strays c) {own id : String} {k : Course} (tracked : courses own id = some k)
    (absent : ∀ n, c.registry.find? k.actor ≠ some (.network n)) : c.link? k.actor = none := by
  refine Option.eq_none_iff_forall_ne_some.mpr fun link linked => ?_
  cases charted.state tracked linked
  exact absent _ (Connection.link?_network.mp linked)

/-- Something is told of a request, and its actor takes it down if it is still there. -/
theorem goes {own id : String} {k : Course} (event : NetworkEvent) (charted : Charted courses strays c)
    (same : d.id = c.id) (next : d.registry.next = c.registry.next) (tracked : courses own id = some k)
    (links : ∀ x, d.link? x =
      if x = k.actor then (c.link? x).map fun _ => .network ((k.add event).state own) else c.link? x) :
    Charted (courses.set own id (k.add event)) strays d := by
  have isSome (x : String) : (d.link? x).isSome = (c.link? x).isSome := by
    rw [links]
    split <;> simp
  have consoles {x : String} {table : Table String String} (there : d.link? x = some (.console table)) :
      c.link? x = some (.console table) := by
    rw [links] at there
    split at there
    · obtain ⟨link', there, same⟩ := Option.map_eq_some_iff.mp there
      cases same
    · exact there
  obtain ⟨taken, apart, state, listed, keys, tables⟩ := charted
  have actor : (k.add event).actor = k.actor := rfl
  have console (own : String) (k : Course) : (k.state own).console = own := rfl
  generalize k.add event = later at links actor ⊢
  refine ⟨fun {own' id' k'} now => ?_, fun {own' id₁ id₂ k₁ k₂} now now' actor => ?_,
    fun {own' id' k' link} now linked => ?_, fun {x n} linked => ?_, fun {own' table} linked => ?_,
    fun {own' table id' x} linked => ?_⟩
  · have here := taken tracked
    grind [Courses.set]
  · grind [Courses.set]
  · rcases Courses.set_eq_some now with ⟨rfl, rfl, rfl⟩ | ⟨other, before⟩
    · rw [links, if_pos actor] at linked
      obtain ⟨_, _, rfl⟩ := Option.map_eq_some_iff.mp linked
      rfl
    · rw [links] at linked
      split at linked
      · rename_i here
        -- Two consoles do not share an actor.
        obtain ⟨link', there, rfl⟩ := Option.map_eq_some_iff.mp linked
        have both := (state before there).symm.trans (state tracked (here ▸ there))
        have same : own' = own := congrArg NetworkActor.console (Actor.Link.network.inj both)
        grind
      · exact state before linked
  · rw [links] at linked
    split at linked
    · rename_i here
      obtain ⟨link', there, same⟩ := Option.map_eq_some_iff.mp linked
      cases same
      rw [console]
      exact .inr ⟨id, later, Courses.set_self courses own id _, actor.trans here.symm⟩
    · refine (listed linked).imp_right fun ⟨id', k', before, same⟩ => ⟨id', k', ?_, same⟩
      grind [Courses.set]
  · exact keys (consoles linked)
  · grind [Courses.set]

end Charted

/-! ### What leaves the tables alone -/

structure Upholds (s t : Scene) : Prop where
  id : t.conn.id = s.conn.id
  later : s.conn.registry.next ≤ t.conn.registry.next
  charted : t.conn.registry.next ≤ UInt32.size → ∀ {courses strays},
    Charted courses strays s.conn → Charted courses strays t.conn

namespace Upholds

variable {s t u : Scene}

theorem of_links (id : t.conn.id = s.conn.id) (later : s.conn.registry.next ≤ t.conn.registry.next)
    (links : ∀ x, t.conn.link? x = s.conn.link? x) : Upholds s t :=
  ⟨id, later, fun _ _ _ charted => charted.congr id later links⟩

theorem same (id : t.conn.id = s.conn.id) (registry : t.conn.registry = s.conn.registry) : Upholds s t :=
  of_links id (Nat.le_of_eq (congrArg Registry.next registry.symm)) (Connection.link?_of_registry registry)

theorem trans (first : Upholds s t) (next : Upholds t u) : Upholds s u where
  id := next.id.trans first.id
  later := Nat.le_trans first.later next.later
  charted few _ _ charted := next.charted few (first.charted (Nat.le_trans next.later few) charted)

theorem update {name : String} {f : Actor → Actor} (kept : ∀ a, s.find? name = some a → (f a).link? = a.link?) :
    Upholds s (s.update name f) :=
  of_links rfl (Nat.le_refl _) (Scene.link?_update_same kept)

theorem extend {added : List Entry} {scripts : Table ObjectId String} {next : Nat} (id : t.conn.id = s.conn.id)
    (registry : t.conn.registry = s.conn.registry.extend added scripts next) (later : s.conn.registry.next ≤ next)
    (new : ∀ e ∈ added, Named s.conn.id s.conn.registry.next next e.name ∧ e.actor.Unlinked) : Upholds s t := by
  have upto : t.conn.registry.next = next := by
    rw [registry]
    rfl
  refine ⟨id, upto ▸ later, fun few _ _ charted => charted.extend id registry later (upto ▸ few) new⟩

theorem releaseOne (s : Scene) (name : String) : Upholds s (s.releaseOne name) := by
  have id : (s.releaseOne name).conn.id = s.conn.id := (Scene.Silent.releaseOne s name).id
  have next : (s.releaseOne name).conn.registry.next = s.conn.registry.next := (Scene.releaseOne_pruned s name).next
  exact ⟨id, Nat.le_of_eq next.symm, fun _ _ _ charted => charted.releaseOne name id next⟩

theorem minding : Minding Upholds where
  trans := trans
  same := same
  update _ _ _ kept := update fun a live => (kept a live).2
  releaseOne := releaseOne
  extend id registry later new := extend id registry later fun e member => ⟨(new e member).1, (new e member).2.2.2.2⟩
  object _ id registry := by
    refine extend id registry (Nat.le_succ _) fun e member => ?_
    cases List.mem_singleton.mp member
    exact ⟨Registry.newName_named (by decide) _ _, .of_none rfl⟩

theorem attending : Attending Upholds := by
  refine minding.attending fun name f s _ => update fun a _ => ?_
  cases a <;> rfl

theorem opening : Steady.Opening Upholds := by
  refine { minding.steady with registerTab := minding.registerTab, root := fun f s _ => update fun a _ => ?_ }
  cases a <;> rfl

end Upholds

end RemoteInspector
