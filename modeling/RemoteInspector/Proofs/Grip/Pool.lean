import Mathlib.Data.Finset.Card
import RemoteInspector.Proofs.Grip.Graph
/-!
Pools come to an end and describe each object once, in the order in which the objects are met.
-/
namespace RemoteInspector.Pool

variable {reach' : Nat}

/-! ### Grips over a finished pool -/

/-- Grips by the places that objects have in a list, noting down which objects are gripped. -/
def survey (site : Site) (reach : Nat) (met : List ObjectRef) : Gripper (StateM (List ObjectRef)) where
  limits := StringLimits.ofPrefs site.prefs
  reach := reach
  object ref := pure (site.object ref)
  call ref receiver := pure (site.callObject none ref receiver).2
  objectGrip ref := modifyGet fun named => (objectGrip.grip (met.idxOf ref), named ++ [ref])
  longStringGrip s := pure (longStringGrip (StringLimits.ofPrefs site.prefs) s)

def gripped (site : Site) (reach : Nat) (met : List ObjectRef) (v : Value) : Json :=
  (Grip.value (survey site reach met) v []).1

def described (site : Site) (reach : Nat) (met : List ObjectRef) (ref : ObjectRef) : Json :=
  (Grip.describe (survey site reach met) ref []).1

def named (site : Site) (reach : Nat) (met : List ObjectRef) (ref : ObjectRef) : List ObjectRef :=
  (Grip.describe (survey site reach met) ref []).2

/-- The objects gripped from some roots on: these, and what descriptions of such objects grip. -/
inductive Met (site : Site) (reach : Nat) (met roots : List ObjectRef) : ObjectRef → Prop
  | root {ref : ObjectRef} : ref ∈ roots → Met site reach met roots ref
  | next {ref other : ObjectRef} : Met site reach met roots ref → other ∈ named site reach met ref →
      Met site reach met roots other

variable {site : Site} {graph : ObjectRef → Prop} {reach : Nat} {met final roots : List ObjectRef}
  {ref : ObjectRef} {p : Pooling}

theorem Met.trans {first : ObjectRef} {roots' : List ObjectRef} (early : ∀ r ∈ roots', Met site reach met roots r)
    (late : Met site reach met roots' first) : Met site reach met roots first := by
  induction late with
  | root member => exact early _ member
  | next _ member ih => exact .next ih member

/-! ### Objects that are in no table -/

def tabled (site : Site) : List ObjectId := site.hosts.flatMap fun h => h.2.engine.objects.keys

theorem length_tabled (site : Site) : (tabled site).length = site.objectCount := by
  have sum (hosts : Table String Host) (n : Nat) :
      hosts.foldl (fun n h => n + h.2.engine.objects.length) n =
        n + (hosts.flatMap fun h => h.2.engine.objects.keys).length := by
    induction hosts generalizing n with
    | nil => rfl
    | cons h rest ih =>
      rw [List.foldl_cons, ih, List.flatMap_cons, List.length_append, Table.keys, List.length_map]
      omega
  rw [Site.objectCount, sum, Nat.zero_add]
  rfl

theorem object_of_untabled (other : ref.id ∉ tabled site) : site.object ref = {} := by
  rw [Site.object, Engine.object]
  cases found : (site.engine ref.host).objects.get? ref.id with
  | none => rfl
  | some o =>
    refine absurd ?_ other
    rw [Site.engine, Site.host] at found
    cases host : site.hosts.get? ref.host with
    | none => simp [host, Table.get?] at found
    | some h =>
      rw [host, Option.getD_some] at found
      exact List.mem_flatMap.mpr ⟨_, Table.mem_of_get? host, Table.mem_keys_iff.mpr ⟨o, found⟩⟩

theorem tabled_of_proto {id : ObjectId} (proto : (site.object ref).proto = some id) : ref.id ∈ tabled site := by
  by_contra other
  rw [object_of_untabled other] at proto
  cases proto

def plain : Json :=
  .object (Grip.summary {} ++ [("prototype", Grip.null), ("ownProperties", .obj []), ("safeGetterValues", .obj [])])

theorem bind_apply {σ α β : Type} (x : StateM σ α) (f : α → StateM σ β) (s : σ) :
    (x >>= f) s = f (x s).1 (x s).2 := rfl

theorem pure_apply {σ α : Type} (a : α) (s : σ) : (pure a : StateM σ α) s = (a, s) := rfl

theorem describe_plain {σ : Type} {g : Gripper (StateM σ)} {s : σ} (object : g.object ref s = ({}, s)) :
    Grip.describe g ref s = (plain, s) := by
  have getters (own : Fields) : Grip.safeGetterValues g ref own s = ([], s) := by
    unfold Grip.safeGetterValues
    cases g.reach with
    | zero => rfl
    | succ reach =>
      rw [Grip.safeGetters, if_neg List.not_mem_nil, bind_apply, object]
      rfl
  have proto : Grip.prototype g ref s = (Grip.null, s) := by
    rw [Grip.prototype, bind_apply, object]
    rfl
  have own : Grip.ownProperties g {} s = ([], s) := rfl
  simp only [Grip.describe, bind_apply, object, proto, own, getters]
  rfl

def unlisted (site : Site) (ids : List ObjectId) : Nat := ((tabled site).toFinset \ ids.toFinset).card

theorem unlisted_le_objectCount (site : Site) (ids : List ObjectId) : unlisted site ids ≤ site.objectCount :=
  calc
    unlisted site ids ≤ (tabled site).toFinset.card := Finset.card_le_card Finset.sdiff_subset
    _ ≤ (tabled site).length := List.toFinset_card_le _
    _ = site.objectCount := length_tabled site

theorem unlisted_mono {ids ids' : List ObjectId} (more : ids ⊆ ids') : unlisted site ids' ≤ unlisted site ids := by
  refine Finset.card_le_card (Finset.sdiff_subset_sdiff Finset.Subset.rfl fun id member => ?_)
  exact List.mem_toFinset.mpr (more (List.mem_toFinset.mp member))

theorem unlisted_lt {id : ObjectId} {ids ids' : List ObjectId} (more : ids ⊆ ids') (tabled : id ∈ tabled site)
    (new : id ∉ ids) (listed : id ∈ ids') : unlisted site ids' < unlisted site ids := by
  refine Finset.card_lt_card ((Finset.ssubset_iff_of_subset ?_).mpr ⟨id, ?_, ?_⟩)
  · refine Finset.sdiff_subset_sdiff Finset.Subset.rfl fun other member => ?_
    exact List.mem_toFinset.mpr (more (List.mem_toFinset.mp member))
  · simp [tabled, new]
  · simp [listed]

/-! ### Pools that grow -/

/-- A pool under way lists some objects of a graph, each at its place. -/
structure Lists (site : Site) (graph : ObjectRef → Prop) (met : List ObjectRef) (p : Pooling) : Prop where
  objects : ∀ ref, p.site.object ref = site.object ref
  inside : ∀ ref ∈ met, graph ref
  places : ∀ {id place}, p.pool.places.get? id = some place ↔ ∃ ref, met[place]? = some ref ∧ ref.id = id
  length : p.pool.descriptors.length = met.length

namespace Lists

theorem start (site : Site) (graph : ObjectRef → Prop) : Lists site graph [] { site := site } where
  objects _ := rfl
  inside := nofun
  places := by simp [Table.get?]
  length := rfl

section

variable (lists : Lists site graph met p)

include lists

theorem nodup : (met.map (·.id)).Nodup := by
  refine List.nodup_iff_getElem?_ne_getElem?.mpr fun i j less inside same => ?_
  have bound : j < met.length := by simpa using inside
  have bound' : i < met.length := Nat.lt_trans less bound
  have first := lists.places.mpr ⟨met[i], List.getElem?_eq_getElem bound', rfl⟩
  have second := lists.places.mpr ⟨met[j], List.getElem?_eq_getElem bound, rfl⟩
  have ids : met[i].id = met[j].id := by simpa [bound, bound'] using same
  rw [ids, second] at first
  exact absurd (Option.some.inj first) (Nat.ne_of_gt less)

theorem unplaced {id : ObjectId} (none : p.pool.places.get? id = none) : id ∉ met.map (·.id) := by
  intro member
  obtain ⟨ref, member, same⟩ := List.mem_map.mp member
  obtain ⟨place, there⟩ := List.mem_iff_getElem?.mp member
  cases none.symm.trans (lists.places.mpr ⟨ref, there, same⟩)

theorem reserve (inside : graph ref) (none : p.pool.places.get? ref.id = none) :
    Lists site graph (met ++ [ref]) { p with pool := p.pool.reserve ref.id } where
  objects := lists.objects
  inside other member := by
    rcases List.mem_append.mp member with old | new
    · exact lists.inside other old
    · exact List.mem_singleton.mp new ▸ inside
  places := by
    intro id place
    change (p.pool.places.insert ref.id p.pool.descriptors.length).get? id = some place ↔ _
    rw [Table.get?_insert, lists.length]
    have last {other : ObjectRef} : (met ++ [ref])[place]? = some other ↔
        met[place]? = some other ∨ place = met.length ∧ ref = other := by
      rcases Nat.lt_trichotomy place met.length with less | same | more
      · simp [List.getElem?_append_left less, Nat.ne_of_lt less]
      · simp [same]
      · have out : (met ++ [ref]).length ≤ place := by
          rw [List.length_append]
          exact more
        rw [List.getElem?_eq_none out, List.getElem?_eq_none (Nat.le_of_lt more)]
        simp [Nat.ne_of_gt more]
    simp only [last]
    split
    · rename_i same
      subst same
      constructor
      · rintro ⟨⟩
        exact ⟨ref, .inr ⟨rfl, rfl⟩, rfl⟩
      · rintro ⟨other, old | new, same⟩
        · cases none.symm.trans (lists.places.mpr ⟨other, old, same⟩)
        · rw [new.1]
    · rename_i differs
      rw [lists.places]
      refine exists_congr fun other => and_congr_left fun same => ⟨.inl, fun there => there.resolve_right ?_⟩
      rintro ⟨-, rfl⟩
      exact differs same
  length := by
    change (p.pool.descriptors ++ [Json.null]).length = _
    simp [lists.length]

theorem describe (place : Nat) (description : Json) :
    Lists site graph met { p with pool := { p.pool with descriptors := p.pool.descriptors.set place description } } :=
  ⟨lists.objects, lists.inside, lists.places, (List.length_set ..).trans lists.length⟩

end

end Lists

/-- What a step adds to a pool, told by the places of the finished list: the new objects are described,
all that is gripped is listed, and nothing is new but what is met from the objects that the step grips. -/
structure Writes (site : Site) (reach : Nat) (final all new : List ObjectRef) (written : List Json)
    (noted : List ObjectRef) : Prop where
  descriptions : written = new.map (described site reach final)
  listed : ∀ ref ∈ noted, ref ∈ all
  closed : ∀ ref ∈ new, ∀ other ∈ named site reach final ref, other ∈ all
  met : ∀ ref ∈ new, Met site reach final noted ref

theorem Writes.append {all new new' noted noted' : List ObjectRef} {written written' : List Json}
    (first : Writes site reach final all new written noted)
    (next : Writes site reach final (all ++ new') new' written' noted') :
    Writes site reach final (all ++ new') (new ++ new') (written ++ written') (noted ++ noted') where
  descriptions := by rw [first.descriptions, next.descriptions, List.map_append]
  listed ref member := by
    rcases List.mem_append.mp member with early | late
    · exact List.mem_append_left _ (first.listed ref early)
    · exact next.listed ref late
  closed ref member other gripped := by
    rcases List.mem_append.mp member with early | late
    · exact List.mem_append_left _ (first.closed ref early other gripped)
    · exact next.closed ref late other gripped
  met ref member := by
    rcases List.mem_append.mp member with early | late
    · exact (first.met ref early).trans fun r there => .root (List.mem_append_left _ there)
    · exact (next.met ref late).trans fun r there => .root (List.mem_append_right _ there)

/-- A step of a growing pool gives what the same step gives by the places of the finished list. -/
def Fills (site : Site) (graph : ObjectRef → Prop) (reach : Nat) (final : List ObjectRef) (fuel : Nat) {γ : Type}
    (x : StateM Pooling γ) (y : StateM (List ObjectRef) γ) : Prop :=
  ∀ {p met}, Lists site graph met p → unlisted site (met.map (·.id)) < fuel →
    ∃ new written, Lists site graph (met ++ new) (x p).2 ∧
      (x p).2.pool.descriptors = p.pool.descriptors ++ written ∧
      (met ++ new <+: final → ∃ noted, (∀ log, y log = ((x p).1, log ++ noted)) ∧
        Writes site reach final (met ++ new) new written noted)

namespace Fills

variable {fuel : Nat} {γ δ : Type}

theorem pure (a : γ) : Fills site graph reach final fuel (Pure.pure a) (Pure.pure a) := by
  intro p met lists enough
  refine ⟨[], [], (List.append_nil met).symm ▸ lists, (List.append_nil _).symm, fun _ => ⟨[], fun log => ?_, ?_⟩⟩
  · rw [List.append_nil]
    rfl
  · exact ⟨rfl, nofun, nofun, nofun⟩

theorem bind {x : StateM Pooling γ} {y : StateM (List ObjectRef) γ} {f : γ → StateM Pooling δ}
    {f' : γ → StateM (List ObjectRef) δ} (first : Fills site graph reach final fuel x y)
    (next : ∀ a, Fills site graph reach final fuel (f a) (f' a)) :
    Fills site graph reach final fuel (x >>= f) (y >>= f') := by
  intro p met lists enough
  obtain ⟨new, written, lists', descriptors, writes⟩ := first lists enough
  have enough' : unlisted site ((met ++ new).map (·.id)) < fuel := by
    refine Nat.lt_of_le_of_lt (unlisted_mono ?_) enough
    rw [List.map_append]
    exact List.subset_append_left _ _
  obtain ⟨new', written', lists'', descriptors', writes'⟩ := next (x p).1 lists' enough'
  refine ⟨new ++ new', written ++ written', ?_, ?_, fun whole => ?_⟩
  · rw [← List.append_assoc]
    exact lists''
  · rw [bind_apply, descriptors', descriptors, List.append_assoc]
  · rw [← List.append_assoc] at whole ⊢
    obtain ⟨noted, same, writes⟩ := writes ((List.prefix_append _ _).trans whole)
    obtain ⟨noted', same', writes'⟩ := writes' whole
    refine ⟨noted ++ noted', fun log => ?_, writes.append writes'⟩
    rw [bind_apply, bind_apply, same, same', List.append_assoc]

theorem object {f : ScriptObject → StateM Pooling δ} {f' : ScriptObject → StateM (List ObjectRef) δ}
    {limits : StringLimits} {objectGrip : ObjectRef → StateM Pooling Json}
    (next : Fills site graph reach final fuel (f (site.object ref)) (f' (site.object ref))) :
    Fills site graph reach final fuel ((gripperWith limits reach objectGrip).object ref >>= f)
      ((survey site reach final).object ref >>= f') := by
  intro p met lists enough
  have seen : ((gripperWith limits reach objectGrip).object ref >>= f) p = f (site.object ref) p :=
    congrArg (f · p) (lists.objects ref)
  rw [seen]
  exact next lists enough

theorem call {f : Completion Value → StateM Pooling δ} {f' : Completion Value → StateM (List ObjectRef) δ}
    {receiver : Value} {limits : StringLimits} {objectGrip : ObjectRef → StateM Pooling Json}
    (next : Fills site graph reach final fuel (f (site.callObject none ref receiver).2)
      (f' (site.callObject none ref receiver).2)) :
    Fills site graph reach final fuel ((gripperWith limits reach objectGrip).call ref receiver >>= f)
      ((survey site reach final).call ref receiver >>= f') := by
  intro p met lists enough
  -- a call is noted on the site, where the objects stay as they are
  have same : (p.site.callObject none ref receiver).2 = (site.callObject none ref receiver).2 :=
    congrArg (fun o : ScriptObject => o.call.map (Expr.valueWith (some receiver))) (lists.objects ref)
  have called : ((gripperWith limits reach objectGrip).call ref receiver >>= f) p =
      f (site.callObject none ref receiver).2 { p with site := (p.site.callObject none ref receiver).1 } :=
    congrArg (f · { p with site := (p.site.callObject none ref receiver).1 }) same
  rw [called]
  exact next (p := { p with site := (p.site.callObject none ref receiver).1 })
    ⟨lists.objects, lists.inside, lists.places, lists.length⟩ enough

end Fills

theorem abreast {fuel : Nat} {objectGrip : ObjectRef → StateM Pooling Json}
    (each : ∀ {ref}, graph ref → Fills site graph reach final fuel (objectGrip ref)
      ((survey site reach final).objectGrip ref)) :
    Gripper.Abreast site graph (gripperWith (StringLimits.ofPrefs site.prefs) reach objectGrip)
      (survey site reach final) (Fills site graph reach final fuel) where
  limits := rfl
  pure := .pure
  bind := .bind
  object := .object
  call := .call
  objectGrip := each
  longStringGrip _ := Fills.pure _

/-- Objects of a graph that its numbers tell apart. -/
def Apart (graph : ObjectRef → Prop) : Prop := ∀ a b, graph a → graph b → a.id = b.id → a = b

theorem Lists.idxOf (lists : Lists site graph met p) (whole : met <+: final) {place : Nat}
    (there : met[place]? = some ref) : final.idxOf ref = place := by
  obtain ⟨rest, rfl⟩ := whole
  obtain ⟨bound, rfl⟩ := List.getElem?_eq_some_iff.mp there
  rw [List.idxOf_append_of_mem (List.getElem_mem bound)]
  exact (List.Nodup.of_map _ lists.nodup).idxOf_getElem place bound

theorem objectGrip_placed (limits : StringLimits) (reach fuel : Nat) {place : Nat}
    (placed : p.pool.places.get? ref.id = some place) :
    objectGrip limits reach fuel ref p = (objectGrip.grip place, p) := by
  unfold objectGrip
  rw [bind_apply]
  dsimp only [get, getThe, MonadStateOf.get, StateT.get, Pure.pure]
  rw [placed]
  rfl

theorem objectGrip_new (limits : StringLimits) (reach fuel : Nat) (unplaced : p.pool.places.get? ref.id = none) :
    objectGrip limits reach (fuel + 1) ref p =
      let r := Grip.describe (gripperWith limits reach (objectGrip limits reach fuel)) ref
        { p with pool := p.pool.reserve ref.id }
      (objectGrip.grip p.pool.descriptors.length, { r.2 with pool := { r.2.pool with
            descriptors := r.2.pool.descriptors.set p.pool.descriptors.length r.1 } }) := by
  rw [objectGrip]
  rw [bind_apply]
  dsimp only [get, getThe, MonadStateOf.get, StateT.get, Pure.pure]
  rw [unplaced]
  rfl

theorem Writes.describe {new noted : List ObjectRef} {written : List Json} {description : Json}
    (same : ∀ log, Grip.describe (survey site reach final) ref log = (description, log ++ noted))
    (writes : Writes site reach final (met ++ [ref] ++ new) new written noted) :
    Writes site reach final (met ++ ref :: new) (ref :: new) (description :: written) [ref] := by
  have all : met ++ [ref] ++ new = met ++ ref :: new := by simp
  have noted_eq : named site reach final ref = noted := by rw [named, same, List.nil_append]
  rw [all] at writes
  refine ⟨?_, ?_, ?_, ?_⟩
  · rw [List.map_cons, ← writes.descriptions, described, same]
  · intro other member
    simp [List.mem_singleton.mp member]
  · intro other member gripped there
    rcases List.mem_cons.mp member with rfl | new
    · exact writes.listed gripped (noted_eq ▸ there)
    · exact writes.closed other new gripped there
  · intro other member
    rcases List.mem_cons.mp member with rfl | new
    · exact .root List.mem_cons_self
    · refine (writes.met other new).trans fun r there => ?_
      exact .next (.root List.mem_cons_self) (noted_eq ▸ there)

theorem describe_fills {fuel : Nat} {grip : ObjectRef → StateM Pooling Json} (closed : site.Graph graph)
    (each : ∀ {ref}, graph ref → Fills site graph reach final fuel (grip ref)
      ((survey site reach final).objectGrip ref)) (inside : graph ref) (lists : Lists site graph met p)
    (enough : ref.id ∈ tabled site → unlisted site (met.map (·.id)) < fuel) :
    ∃ new written,
      let r := Grip.describe (gripperWith (StringLimits.ofPrefs site.prefs) reach grip) ref p
      Lists site graph (met ++ new) r.2 ∧ r.2.pool.descriptors = p.pool.descriptors ++ written ∧
        (met ++ new <+: final → ∃ noted,
          (∀ log, Grip.describe (survey site reach final) ref log = (r.1, log ++ noted)) ∧
            Writes site reach final (met ++ new) new written noted) := by
  by_cases listed : ref.id ∈ tabled site
  · exact (abreast each).describe closed rfl inside lists (enough listed)
  · have object : p.site.object ref = {} := (lists.objects ref).trans (object_of_untabled listed)
    have seen : (gripperWith (StringLimits.ofPrefs site.prefs) reach grip).object ref p = ({}, p) :=
      congrArg (·, p) object
    refine ⟨[], [], ?_⟩
    simp only [describe_plain seen, List.append_nil]
    refine ⟨lists, trivial, fun _ => ⟨[], fun log => ?_, rfl, nofun, nofun, nofun⟩⟩
    rw [List.append_nil]
    exact describe_plain (congrArg (·, log) (object_of_untabled listed))

theorem objectGrip_fills (closed : site.Graph graph) (apart : Apart graph) (reach : Nat) (final : List ObjectRef)
    (fuel : Nat) (inside : graph ref) :
    Fills site graph reach final fuel (objectGrip (StringLimits.ofPrefs site.prefs) reach fuel ref)
      ((survey site reach final).objectGrip ref) := by
  induction fuel generalizing ref with
  | zero => exact fun _ enough => absurd enough (Nat.not_lt_zero _)
  | succ fuel ih =>
    intro p met lists enough
    cases placed : p.pool.places.get? ref.id with
    | some place =>
      obtain ⟨other, there, same⟩ := lists.places.mp placed
      have member := List.mem_of_getElem? there
      have same : other = ref := apart other ref (lists.inside other member) inside same
      subst same
      rw [objectGrip_placed _ _ _ placed]
      refine ⟨[], [], (List.append_nil met).symm ▸ lists, (List.append_nil _).symm, fun whole => ?_⟩
      rw [List.append_nil] at whole ⊢
      refine ⟨[other], fun log => ?_, rfl, by simpa using member, nofun, nofun⟩
      rw [← lists.idxOf whole there]
      rfl
    | none =>
      have fewer (listed : ref.id ∈ tabled site) : unlisted site ((met ++ [ref]).map (·.id)) < fuel := by
        have less : unlisted site ((met ++ [ref]).map (·.id)) < unlisted site (met.map (·.id)) :=
          unlisted_lt (by simp) listed (lists.unplaced placed) (by simp)
        omega
      obtain ⟨new, written, lists', descriptors, writes⟩ :=
        describe_fills closed (fun {_} => ih) inside (lists.reserve inside placed) fewer
      have all : met ++ [ref] ++ new = met ++ ref :: new := by simp
      rw [objectGrip_new _ _ _ placed]
      generalize Grip.describe (gripperWith (StringLimits.ofPrefs site.prefs) reach
        (objectGrip (StringLimits.ofPrefs site.prefs) reach fuel)) ref
          { p with pool := p.pool.reserve ref.id } = r at lists' descriptors writes
      refine ⟨ref :: new, r.1 :: written, all ▸ lists'.describe _ _, ?_, fun whole => ?_⟩
      · dsimp only
        rw [descriptors]
        change ((p.pool.descriptors ++ [Json.null]) ++ written).set _ _ = _
        simp
      · rw [← all] at whole
        obtain ⟨noted, same, writes⟩ := writes whole
        refine ⟨[ref], fun log => ?_, writes.describe same⟩
        have place : (met ++ [ref])[p.pool.descriptors.length]? = some ref := by simp [lists.length]
        rw [← (lists.reserve inside placed).idxOf ((List.prefix_append _ _).trans whole) place]
        rfl

/-! ### Chains of prototypes -/

theorem safeGetters_reach {m : Type → Type} [Monad m] [LawfulMonad m] {g : Gripper m}
    (object : ∀ ref, g.object ref = pure (site.object ref)) (receiver : Value) (own : Fields) {fuel fuel' : Nat}
    {level : Nat} {visited : List ObjectId} {found : Fields} (enough : unlisted site visited < fuel)
    (enough' : unlisted site visited < fuel') :
    Grip.safeGetters g receiver own fuel level visited found ref =
      Grip.safeGetters g receiver own fuel' level visited found ref := by
  induction fuel generalizing fuel' level visited found ref with
  | zero => exact absurd enough (Nat.not_lt_zero _)
  | succ fuel ih =>
    obtain ⟨fuel', rfl⟩ := Nat.exists_eq_add_one_of_ne_zero (Nat.ne_zero_of_lt enough')
    unfold Grip.safeGetters
    split
    · rfl
    · rename_i new
      rw [object, pure_bind, pure_bind]
      split
      · rfl
      · refine congrArg _ (funext fun found => ?_)
        split
        · rfl
        · rename_i proto
          have less : unlisted site (ref.id :: visited) < unlisted site visited :=
            unlisted_lt (List.subset_cons_self _ _) (tabled_of_proto proto) new List.mem_cons_self
          exact ih (by omega) (by omega)

theorem describe_survey_reach (enough : site.objectCount < reach) (enough' : site.objectCount < reach') :
    Grip.describe (survey site reach met) ref = Grip.describe (survey site reach' met) ref := by
  have same : Gripper.Abreast site (fun _ => True) (survey site reach met) (survey site reach' met) (· = ·) :=
    { limits := rfl
      pure := fun _ => rfl
      bind := fun first next => by rw [first, funext next]
      object := id
      call := id
      objectGrip := fun _ => rfl
      longStringGrip := fun _ => rfl }
  have closed : site.Graph fun _ => True := ⟨fun _ _ => trivial, fun _ _ _ => trivial, fun _ _ _ => trivial⟩
  have getters (own : Fields) :
      Grip.safeGetterValues (survey site reach met) ref own = Grip.safeGetterValues (survey site reach' met) ref own := by
    have few := unlisted_le_objectCount site []
    unfold Grip.safeGetterValues
    rw [same.safeGetters closed trivial trivial]
    refine safeGetters_reach (fun _ => rfl) _ _ ?_ ?_
    · exact Nat.lt_of_le_of_lt few enough
    · exact Nat.lt_of_le_of_lt few enough'
  unfold Grip.describe
  refine same.object ?_
  refine same.bind (same.prototype closed trivial) fun _ => ?_
  refine same.bind (same.ownProperties closed trivial) fun own => ?_
  exact same.bind (getters own) fun _ => rfl

/-! ### Finished pools -/

/-- What a pool has written about some values, object by object. -/
structure Catalogue (site : Site) (reach : Nat) (values : List Value) (met : List ObjectRef)
    (grips descriptors : List Json) : Prop where
  /-- One place for each number. -/
  ids : (met.map (·.id)).Nodup
  /-- Just the objects are listed that are gripped in the results or in a description of a listed one. -/
  listed : ∀ ref, ref ∈ met ↔ Met site reach met (values.filterMap Value.object?) ref
  results : grips = values.map (gripped site reach met)
  descriptions : descriptors = met.map (described site reach met)
  /-- Whatever is gripped anywhere finds its own description at the place that its grip names. -/
  placed : ∀ {ref}, Met site reach met (values.filterMap Value.object?) ref →
    descriptors[met.idxOf ref]? = some (described site reach met ref)
  full : .null ∉ descriptors

theorem Lists.unique {met' : List ObjectRef} (apart : Apart graph) (lists : Lists site graph met p)
    (lists' : Lists site graph met' p) : met = met' := by
  refine List.ext_getElem? fun place => ?_
  have length : met.length = met'.length := lists.length.symm.trans lists'.length
  rcases Nat.lt_or_ge place met.length with less | out
  · have there := List.getElem?_eq_getElem less
    obtain ⟨other, there', same⟩ := lists'.places.mp (lists.places.mpr ⟨_, there, rfl⟩)
    rw [there, there', apart other _ (lists'.inside _ (List.mem_of_getElem? there'))
      (lists.inside _ (List.mem_of_getElem? there)) same]
  · rw [List.getElem?_eq_none out, List.getElem?_eq_none (length ▸ out)]

theorem value_survey (v : Value) (log : List ObjectRef) :
    Grip.value (survey site reach met) v log = (gripped site reach met v, log ++ v.object?.toList) := by
  cases v with
  | string text =>
    simp only [gripped, Grip.value]
    split <;> exact Prod.ext rfl (List.append_nil log).symm
  | object ref => rfl
  | _ => exact Prod.ext rfl (List.append_nil log).symm

theorem mapM_survey (values : List Value) (log : List ObjectRef) :
    values.mapM (Grip.value (survey site reach met)) log =
      (values.map (gripped site reach met), log ++ values.filterMap Value.object?) := by
  induction values generalizing log with
  | nil =>
    rw [List.mapM_nil]
    exact Prod.ext rfl (List.append_nil log).symm
  | cons v rest ih =>
    rw [List.mapM_cons, bind_apply, value_survey, bind_apply, ih]
    refine Prod.ext rfl ?_
    rw [List.append_assoc]
    cases v <;> rfl

theorem described_ne_null (site : Site) (reach : Nat) (met : List ObjectRef) (ref : ObjectRef) :
    described site reach met ref ≠ .null := by
  rw [described, Grip.describe, bind_apply, bind_apply, bind_apply, bind_apply]
  exact nofun

theorem Met.congr (same : ∀ ref, named site reach met ref = named site reach' met ref)
    (there : Met site reach met roots ref) : Met site reach' met roots ref := by
  induction there with
  | root member => exact .root member
  | next _ member ih => exact .next ih (same _ ▸ member)

theorem Catalogue.of_reach (reach : Nat) {values : List Value} {grips descriptors : List Json}
    (enough : site.objectCount < reach) (enough' : site.objectCount < reach')
    (catalogue : Catalogue site reach values met grips descriptors) :
    Catalogue site reach' values met grips descriptors := by
  have described_eq (ref : ObjectRef) : described site reach met ref = described site reach' met ref := by
    rw [described, described, describe_survey_reach enough enough']
  have named_eq (ref : ObjectRef) : named site reach met ref = named site reach' met ref := by
    rw [named, named, describe_survey_reach enough enough']
  have met_iff {roots : List ObjectRef} (ref : ObjectRef) :
      Met site reach met roots ref ↔ Met site reach' met roots ref :=
    ⟨.congr named_eq, .congr fun ref => (named_eq ref).symm⟩
  refine ⟨catalogue.ids, fun ref => (catalogue.listed ref).trans (met_iff ref), ?_, ?_, ?_, catalogue.full⟩
  · refine catalogue.results.trans (List.map_congr_left fun v _ => ?_)
    cases v <;> rfl
  · exact catalogue.descriptions.trans (List.map_congr_left fun ref _ => described_eq ref)
  · intro ref there
    rw [← described_eq]
    exact catalogue.placed ((met_iff ref).mpr there)

theorem gripAll_fills (closed : site.Graph graph) (apart : Apart graph) {values : List Value}
    (inside : ∀ ref, .object ref ∈ values → graph ref) (final : List ObjectRef) :
    let reach := site.objectCount + 2
    let r := values.mapM (Grip.value (gripper site)) { site := site }
    ∃ met, Lists site graph met r.2 ∧ (met <+: final → r.1 = values.map (gripped site reach final) ∧
      Writes site reach final met met r.2.pool.descriptors (values.filterMap Value.object?)) := by
  intro reach r
  have steps := abreast fun {_} (inside : graph _) => objectGrip_fills closed apart reach final reach inside
  have enough : unlisted site [] < reach :=
    Nat.lt_of_le_of_lt (unlisted_le_objectCount site []) (Nat.lt_add_of_pos_right (by decide))
  obtain ⟨met, written, lists, descriptors, writes⟩ := steps.mapM
    (fun v member => steps.value fun ref same => inside ref (same ▸ member)) (Lists.start site graph) enough
  refine ⟨met, lists, fun whole => ?_⟩
  obtain ⟨noted, same, writes⟩ := writes whole
  obtain ⟨results, rfl⟩ := Prod.mk.inj ((same []).symm.trans (mapM_survey values []))
  refine ⟨results, ?_⟩
  rw [List.nil_append] at descriptors writes
  exact descriptors ▸ writes

/-- Gripping values over one pool comes to an end: each object that is met has one place, where it is
described, and all grips name it by that place. More reach or more fuel would change nothing. -/
theorem gripAll_catalogue (closed : site.Graph graph) (apart : Apart graph) (values : List Value)
    (inside : ∀ ref, .object ref ∈ values → graph ref) :
    ∃ met, ∀ reach, site.objectCount < reach →
      Catalogue site reach values met (gripAll site values).2.1 (gripAll site values).2.2 := by
  obtain ⟨met, lists, -⟩ := gripAll_fills closed apart inside []
  obtain ⟨met', lists', writes⟩ := gripAll_fills closed apart inside met
  obtain rfl := lists.unique apart lists'
  obtain ⟨results, writes⟩ := writes (List.prefix_refl met)
  refine ⟨met, fun reach more => Catalogue.of_reach (site.objectCount + 2) (by omega) more ?_⟩
  have listed (ref : ObjectRef) :
      Met site (site.objectCount + 2) met (values.filterMap Value.object?) ref → ref ∈ met := by
    intro there
    induction there with
    | root member => exact writes.listed _ member
    | next _ member ih => exact writes.closed _ ih _ member
  refine ⟨lists.nodup, fun ref => ⟨writes.met ref, listed ref⟩, results, writes.descriptions, ?_, ?_⟩
  · intro ref there
    have less := List.idxOf_lt_length_of_mem (listed ref there)
    change (List.mapM (Grip.value (gripper site)) values { site := site }).2.pool.descriptors[_]? = _
    rw [writes.descriptions, List.getElem?_map, List.getElem?_eq_getElem less, List.getElem_idxOf]
    rfl
  · change Json.null ∉ (List.mapM (Grip.value (gripper site)) values { site := site }).2.pool.descriptors
    rw [writes.descriptions]
    intro member
    obtain ⟨ref, -, same⟩ := List.mem_map.mp member
    exact described_ne_null _ _ _ _ same

/-- Objects that lead back to each other: by a property, a prototype, and a getter that gives its receiver. -/
def ring : Site :=
  { hosts := [("page", { engine := { objects := [
      (1, { proto := some 2, props := [("self", .data (.const (.object ⟨"page", 1⟩)) true true true)] }),
      (2, { props := [("owner", .accessor (some (.const (.object ⟨"page", 3⟩))) none true true)] }),
      (3, { className := "Function", callable := true, call := .returned .receiver })] } })] }

theorem ring_graph : ring.Graph (·.host = "page") := by
  constructor
  case proto =>
    intro ref id inside _
    exact inside
  case property =>
    rintro ⟨host, id⟩ name d other rfl found holds
    rcases id with _ | _ | _ | _ | id <;>
      simp [ring, Site.object, Site.engine, Site.host, Engine.object, Table.get?, ScriptObject.ownProperty] at found
    · by_cases self : "self" = name <;> simp only [self, if_true, if_false] at found
      · cases found
        cases holds
        rfl
      · cases found
    · by_cases owner : "owner" = name <;> simp only [owner, if_true, if_false] at found
      · cases found
        rcases holds with get | set
        · cases get
          rfl
        · cases set
      · cases found
  case result =>
    rintro receiver ⟨host, id⟩ other inside rfl result
    rcases id with _ | _ | _ | _ | id <;>
      simp [ring, Site.object, Site.engine, Site.host, Engine.object, Table.get?, Site.callObject, Completion.map,
        Completion.result?, Expr.valueWith] at result
    exact result ▸ inside

theorem apart_of_host (host : String) : Apart (·.host = host) := by
  rintro ⟨_, a⟩ ⟨_, b⟩ rfl rfl same
  exact congrArg _ same

/-- The ring twice over, with an object that is in no table. -/
theorem gripAll_catalogue_ring :
    let values : List Value := [.object ⟨"page", 1⟩, .null, .object ⟨"page", 7⟩, .object ⟨"page", 3⟩]
    ring.Graph (·.host = "page") ∧ Apart (·.host = "page") ∧ (gripAll ring values).2.2.length = 4 ∧
      ∃ met, ∀ reach, 3 < reach → Catalogue ring reach values met (gripAll ring values).2.1 (gripAll ring values).2.2 := by
  refine ⟨ring_graph, apart_of_host "page", by decide +kernel, ?_⟩
  exact gripAll_catalogue ring_graph (apart_of_host "page") _ (by simp)

end RemoteInspector.Pool
