import RemoteInspector.Proofs.Grip.Pool
import RemoteInspector.Proofs.Json.Fields
/-!
The native getters that are called while an object is looked at, along its prototypes and for each name until one
gives a value. Nothing but a property of the object itself hides a name.
-/
namespace RemoteInspector

theorem Fields.contains_insert {fields : Fields} {key name : String} {value : Json} :
    (fields.insert key value).contains name = true ↔ key = name ∨ fields.contains name = true := by
  change (Fields.get? (fields.insert key value) name).isSome = true ↔ key = name ∨ (fields.get? name).isSome = true
  rw [Fields.get?_insert]
  by_cases same : key = name <;> simp [same]

/-! ### Chains of prototypes -/

namespace Site

/-- The object that many steps up the chain of prototypes. -/
def ancestor (site : Site) : Nat → ObjectRef → Option ObjectRef
  | 0, ref => some ref
  | level + 1, ref => (site.object ref).proto.bind fun id => ancestor site level ⟨ref.host, id⟩

/-- The chain gets to an object: all objects up to it can be looked at, and none of them is met twice. -/
structure OnChain (site : Site) (ref : ObjectRef) (level : Nat) (o : ObjectRef) : Prop where
  there : site.ancestor level ref = some o
  alive : ∀ i ≤ level, ∀ a, site.ancestor i ref = some a → (site.object a).dead = none
  fresh : ∀ i j, i < j → j ≤ level → ∀ a b, site.ancestor i ref = some a → site.ancestor j ref = some b → a.id ≠ b.id

/-- The objects that the chain gets to, as far as the fuel goes. -/
def chainFrom (site : Site) : Nat → List ObjectId → ObjectRef → List ObjectRef
  | 0, _, _ => []
  | fuel + 1, visited, ref =>
    if ref.id ∈ visited ∨ (site.object ref).dead.isSome then []
    else ref :: (site.object ref).proto.elim [] fun id => chainFrom site fuel (ref.id :: visited) ⟨ref.host, id⟩

variable {site : Site} {ref o : ObjectRef} {level fuel : Nat} {visited : List ObjectId}

theorem ancestor_succ {id : ObjectId} (proto : (site.object ref).proto = some id) (level : Nat) :
    site.ancestor (level + 1) ref = site.ancestor level ⟨ref.host, id⟩ := by
  rw [ancestor, proto, Option.bind_some]

namespace OnChain

theorem zero : site.OnChain ref 0 o ↔ ref = o ∧ (site.object ref).dead = none := by
  constructor
  · intro on
    exact ⟨Option.some.inj on.there, on.alive 0 (Nat.le_refl 0) ref rfl⟩
  · rintro ⟨rfl, alive⟩
    refine ⟨rfl, fun i bound a there => ?_, fun i j less bound => ?_⟩
    · obtain rfl := Nat.le_zero.mp bound
      cases there
      exact alive
    · exact absurd (Nat.lt_of_lt_of_le less bound) (Nat.not_lt_zero i)

theorem succ {id : ObjectId} (proto : (site.object ref).proto = some id) :
    site.OnChain ref (level + 1) o ↔ (site.object ref).dead = none ∧ site.OnChain ⟨ref.host, id⟩ level o ∧
      ∀ i ≤ level, ∀ a, site.ancestor i ⟨ref.host, id⟩ = some a → ref.id ≠ a.id := by
  have step := ancestor_succ proto
  constructor
  · intro on
    refine ⟨on.alive 0 (Nat.zero_le _) ref rfl, ⟨step level ▸ on.there, ?_, ?_⟩, ?_⟩
    · intro i bound a there
      exact on.alive (i + 1) (Nat.succ_le_succ bound) a ((step i).trans there)
    · intro i j less bound a b first second
      exact on.fresh (i + 1) (j + 1) (Nat.succ_lt_succ less) (Nat.succ_le_succ bound) a b
        ((step i).trans first) ((step j).trans second)
    · intro i bound a there
      exact on.fresh 0 (i + 1) (Nat.succ_pos i) (Nat.succ_le_succ bound) ref a rfl ((step i).trans there)
  · rintro ⟨alive, on, new⟩
    refine ⟨(step level).trans on.there, ?_, ?_⟩
    · intro i bound a there
      cases i with
      | zero =>
        cases there
        exact alive
      | succ i => exact on.alive i (Nat.le_of_succ_le_succ bound) a (step i ▸ there)
    · intro i j less bound a b first second
      obtain ⟨j, rfl⟩ := Nat.exists_eq_add_one_of_ne_zero (Nat.ne_zero_of_lt less)
      rw [step] at second
      cases i with
      | zero =>
        cases first
        exact new j (Nat.le_of_succ_le_succ bound) b second
      | succ i =>
        rw [step] at first
        exact on.fresh i j (Nat.lt_of_succ_lt_succ less) (Nat.le_of_succ_le_succ bound) a b first second

theorem unique {o' : ObjectRef} (on : site.OnChain ref level o) (on' : site.OnChain ref level o') : o = o' :=
  Option.some.inj (on.there.symm.trans on'.there)

theorem start (on : site.OnChain ref level o) : (site.object ref).dead = none := on.alive 0 (Nat.zero_le _) ref rfl

end OnChain

/-- With fuel for what the tables still hold, the chain is followed to its end. -/
theorem getElem?_chainFrom (enough : Pool.unlisted site visited < fuel) :
    (site.chainFrom fuel visited ref)[level]? = some o ↔
      site.OnChain ref level o ∧ ∀ i ≤ level, ∀ a, site.ancestor i ref = some a → a.id ∉ visited := by
  induction fuel generalizing visited ref level with
  | zero => exact absurd enough (Nat.not_lt_zero _)
  | succ fuel ih =>
    unfold chainFrom
    split
    · rename_i ends
      simp only [List.getElem?_nil, reduceCtorEq, false_iff]
      rintro ⟨on, new⟩
      rcases ends with old | dead
      · exact new 0 (Nat.zero_le _) ref rfl old
      · rw [on.start] at dead
        cases dead
    · rename_i goes
      obtain ⟨new, alive⟩ := not_or.mp goes
      have alive : (site.object ref).dead = none := Option.not_isSome_iff_eq_none.mp alive
      cases level with
      | zero =>
        rw [List.getElem?_cons_zero, OnChain.zero]
        constructor
        · rintro ⟨⟩
          refine ⟨⟨rfl, alive⟩, fun i bound a there => ?_⟩
          obtain rfl := Nat.le_zero.mp bound
          cases there
          exact new
        · rintro ⟨⟨rfl, -⟩, -⟩
          rfl
      | succ level =>
        rw [List.getElem?_cons_succ]
        cases proto : (site.object ref).proto with
        | none =>
          simp only [Option.elim_none, List.getElem?_nil, reduceCtorEq, false_iff]
          rintro ⟨on, -⟩
          have there := on.there
          rw [ancestor, proto] at there
          cases there
        | some id =>
          have less : Pool.unlisted site (ref.id :: visited) < Pool.unlisted site visited :=
            Pool.unlisted_lt (List.subset_cons_self _ _) (Pool.tabled_of_proto proto) new List.mem_cons_self
          rw [Option.elim_some, ih (by omega), OnChain.succ proto]
          constructor
          · rintro ⟨on, apart⟩
            refine ⟨⟨alive, on, fun i bound a there same => ?_⟩, fun i bound a there listed => ?_⟩
            · exact apart i bound a there (same ▸ List.mem_cons_self)
            · cases i with
              | zero =>
                cases there
                exact new listed
              | succ i =>
                exact apart i (Nat.le_of_succ_le_succ bound) a (ancestor_succ proto i ▸ there)
                  (List.mem_cons_of_mem _ listed)
          · rintro ⟨⟨-, on, differs⟩, apart⟩
            refine ⟨on, fun i bound a there listed => ?_⟩
            rcases List.mem_cons.mp listed with same | listed
            · exact differs i bound a there same.symm
            · exact apart (i + 1) (Nat.succ_le_succ bound) a ((ancestor_succ proto i).trans there) listed

end Site

/-! ### Grippers that show a site -/

def Alike {σ γ : Type} (Good : σ → Prop) (x y : StateM σ γ) : Prop := ∀ s, Good s → x s = y s ∧ Good (x s).2

namespace Alike

variable {σ γ δ : Type} {Good : σ → Prop}

theorem pure (a : γ) : Alike Good (Pure.pure a) (Pure.pure a) := fun _ good => ⟨rfl, good⟩

theorem bind {x y : StateM σ γ} {f f' : γ → StateM σ δ} (first : Alike Good x y)
    (next : ∀ a, Alike Good (f a) (f' a)) : Alike Good (x >>= f) (y >>= f') := by
  intro s good
  obtain ⟨same, good'⟩ := first s good
  rw [Pool.bind_apply, Pool.bind_apply, ← same]
  exact next _ _ good'

theorem pure_bind {x : StateM σ γ} {a : γ} {f : γ → StateM σ δ} {y : StateM σ δ} (first : Alike Good x (Pure.pure a))
    (next : Alike Good (f a) y) : Alike Good (x >>= f) y := by
  intro s good
  rw [Pool.bind_apply, (first s good).1]
  exact next s good

theorem foldlM {α : Type} {f f' : γ → α → StateM σ γ} (each : ∀ b a, Alike Good (f b a) (f' b a)) (items : List α)
    (b : γ) : Alike Good (items.foldlM f b) (items.foldlM f' b) := by
  induction items generalizing b with
  | nil => exact pure b
  | cons a rest ih =>
    rw [List.foldlM_cons, List.foldlM_cons]
    exact bind (each b a) ih

end Alike

/-- A gripper through which the objects of a site are seen as they are, and called, as long as its state is good. -/
structure Gripper.Shows {σ : Type} (g : Gripper (StateM σ)) (site : Site) (Good : σ → Prop) : Prop where
  reach : site.objectCount < g.reach
  object : ∀ {s}, Good s → ∀ ref, g.object ref s = (site.object ref, s)
  call : ∀ {s}, Good s → ∀ ref receiver,
    (g.call ref receiver s).1 = (site.callObject none ref receiver).2 ∧ Good (g.call ref receiver s).2
  objectGrip : ∀ {s}, Good s → ∀ ref, Good (g.objectGrip ref s).2
  longStringGrip : ∀ {s}, Good s → ∀ text, Good (g.longStringGrip text s).2

namespace Gripper.Shows

variable {σ δ : Type} {g : Gripper (StateM σ)} {site : Site} {Good : σ → Prop}
variable (shows : g.Shows site Good)

include shows

theorem obeys : g.Obeys fun x => Alike Good x x where
  pure := .pure
  bind := .bind
  object ref _ good := ⟨rfl, by rw [shows.object good]; exact good⟩
  call ref receiver _ good := ⟨rfl, (shows.call good ref receiver).2⟩
  objectGrip ref _ good := ⟨rfl, shows.objectGrip good ref⟩
  longStringGrip text _ good := ⟨rfl, shows.longStringGrip good text⟩

theorem object_bind {x : StateM σ δ} {f : ScriptObject → StateM σ δ} {ref : ObjectRef}
    (next : Alike Good (f (site.object ref)) x) : Alike Good (g.object ref >>= f) x :=
  Alike.pure_bind (fun _ good => ⟨shows.object good ref, by rw [shows.object good]; exact good⟩) next

end Gripper.Shows

/-! ### What is asked of an object -/

/-- A property that is read through a native getter: how far up the chain it is, and what it is. -/
structure Probe where
  level : Nat
  name : String
  getter : ObjectRef
  enumerable : Bool
  deriving DecidableEq, Repr

namespace Probe

def answer? (site : Site) (receiver : Value) (p : Probe) : Option Value :=
  (site.callObject none p.getter receiver).2.result?.filter (· ≠ .undefined)

def ask {m : Type → Type} [Monad m] (g : Gripper m) (receiver : Value) (found : Fields) (p : Probe) : m Fields := do
  match (← g.call p.getter receiver).result?.filter (· ≠ .undefined) with
  | none => return found
  | some v => return found.insert p.name (Grip.getterEntry (← Grip.value g v) p.level p.enumerable)

def attempt {m : Type → Type} [Monad m] (g : Gripper m) (receiver : Value) (found : Fields) (p : Probe) : m Fields :=
  if found.contains p.name then pure found else p.ask g receiver found

/-- The probe is an accessor of that object, with a getter that is native code. -/
structure Of (site : Site) (o : ObjectRef) (p : Probe) : Prop where
  accessor : ∃ configurable set, (site.object o).ownProperty p.name =
    .ok (some ⟨configurable, p.enumerable, .accessor (some (.object p.getter)) set⟩)
  callable : (site.object p.getter).callable = true
  function : (site.object p.getter).className = "Function"
  native : (site.object p.getter).script = false

/-- A probe of an object that the chain gets to, at the level it has there. From the prototypes on, it is not
hidden by a property of the first object. -/
structure Sought (site : Site) (ref : ObjectRef) (p : Probe) : Prop where
  holder : ∃ o, site.OnChain ref p.level o ∧ p.Of site o
  unhidden : 0 < p.level → (site.object ref).ownProperty p.name = .ok none

variable {site : Site} {ref o : ObjectRef} {p q : Probe}

theorem Of.unique (of : p.Of site o) (of' : q.Of site o) (name : p.name = q.name) (level : p.level = q.level) :
    p = q := by
  obtain ⟨_, _, found⟩ := of.accessor
  obtain ⟨_, _, found'⟩ := of'.accessor
  rw [name, found'] at found
  cases p
  cases q
  cases found
  cases name
  cases level
  rfl

theorem Sought.unique (sought : p.Sought site ref) (sought' : q.Sought site ref) (name : p.name = q.name)
    (level : p.level = q.level) : p = q := by
  obtain ⟨o, on, of⟩ := sought.holder
  obtain ⟨o', on', of'⟩ := sought'.holder
  rw [level] at on
  obtain rfl := on.unique on'
  exact of.unique of' name level

/-- The native getter of a property, and whether the property is enumerable. -/
def native? (site : Site) (o : ObjectRef) (name : String) : Option (ObjectRef × Bool) :=
  match (site.object o).ownProperty name with
  | .ok (some ⟨_, enumerable, .accessor (some (.object getter)) _⟩) =>
    if (site.object getter).isSafeGetter then some (getter, enumerable) else none
  | _ => none

theorem of_iff_native? {level : Nat} {name : String} {getter : ObjectRef} {enumerable : Bool} :
    (⟨level, name, getter, enumerable⟩ : Probe).Of site o ↔ native? site o name = some (getter, enumerable) := by
  unfold native?
  constructor
  · intro of
    obtain ⟨_, _, property⟩ := of.accessor
    have safe : (site.object getter).isSafeGetter = true := by
      simp [ScriptObject.isSafeGetter, of.callable, of.function, of.native]
    simp only [property, safe, if_true]
  · intro found
    split at found
    · rename_i property
      split at found
      · rename_i safe
        cases found
        simp only [ScriptObject.isSafeGetter, Bool.and_eq_true, beq_iff_eq, Bool.not_eq_true'] at safe
        exact ⟨⟨_, _, property⟩, safe.1.1, safe.1.2, safe.2⟩
      · cases found
    · cases found

def at? (site : Site) (own : Fields) (level : Nat) (o : ObjectRef) (name : String) : Option Probe :=
  if decide (0 < level) && own.contains name then none
  else (native? site o name).map fun x => ⟨level, name, x.1, x.2⟩

theorem at?_eq_some {own : Fields} {level : Nat} {name : String} :
    at? site own level o name = some p ↔
      p.level = level ∧ p.name = name ∧ p.Of site o ∧ (0 < level → own.contains name = false) := by
  unfold at?
  split
  · rename_i hidden
    obtain ⟨above, hidden⟩ := Bool.and_eq_true_iff.mp hidden
    simp [of_decide_eq_true above, hidden]
  · rename_i shown
    have shown : 0 < level → own.contains name = false := fun above => by simpa [above] using shown
    rw [Option.map_eq_some_iff]
    constructor
    · rintro ⟨x, found, rfl⟩
      exact ⟨rfl, rfl, of_iff_native?.mpr found, shown⟩
    · rintro ⟨rfl, rfl, of, -⟩
      exact ⟨(p.getter, p.enumerable), of_iff_native?.mp of, rfl⟩

def along (site : Site) (own : Fields) (level : Nat) (chain : List ObjectRef) : List Probe :=
  (chain.zipIdx level).flatMap fun x => ((site.object x.1).props.map Prod.fst).filterMap (at? site own x.2 x.1)

theorem along_cons (own : Fields) (level : Nat) (chain : List ObjectRef) :
    along site own level (o :: chain) =
      ((site.object o).props.map Prod.fst).filterMap (at? site own level o) ++ along site own (level + 1) chain := by
  rw [along, List.zipIdx_cons, List.flatMap_cons]
  rfl

theorem level_le_of_mem_along {own : Fields} {level : Nat} {chain : List ObjectRef}
    (member : p ∈ along site own level chain) : level ≤ p.level := by
  obtain ⟨x, place, there⟩ := List.mem_flatMap.mp member
  obtain ⟨_, -, found⟩ := List.mem_filterMap.mp there
  rw [(at?_eq_some.mp found).1]
  exact (List.mem_zipIdx place).1

theorem along_ordered (site : Site) (own : Fields) (level : Nat) (chain : List ObjectRef) :
    (along site own level chain).Pairwise (·.level ≤ ·.level) := by
  induction chain generalizing level with
  | nil => exact List.Pairwise.nil
  | cons o rest ih =>
    have here {p : Probe} (member : p ∈ ((site.object o).props.map Prod.fst).filterMap (at? site own level o)) :
        p.level = level := by
      obtain ⟨_, -, found⟩ := List.mem_filterMap.mp member
      exact (at?_eq_some.mp found).1
    rw [along_cons, List.pairwise_append]
    refine ⟨List.pairwise_of_forall_mem_list fun p first q second => ?_, ih (level + 1), fun p first q second => ?_⟩
    · rw [here first, here second]
    · rw [here first]
      exact Nat.le_of_succ_le (level_le_of_mem_along second)

end Probe

/-! ### The properties of an object itself -/

namespace Grip

variable {σ : Type} {g : Gripper (StateM σ)} {o : ScriptObject} {name : String}

theorem property_isSome (g : Gripper (StateM σ)) (o : ScriptObject) (name : String) (s : σ) :
    (property g o name s).1.isSome = true ↔ o.ownProperty name ≠ .ok none := by
  rw [property]
  cases o.ownProperty name with
  | error e => simp [Pool.pure_apply]
  | ok d => cases d <;> simp [Pool.bind_apply, Pool.pure_apply]

theorem contains_foldlM_property (names : List String) (fields : Fields) (s : σ) :
    (names.foldlM (fun (fields : Fields) name => do
      match ← property g o name with
      | some j => return fields.insert name j
      | none => return fields) fields s).1.contains name = true ↔
      fields.contains name = true ∨ name ∈ names ∧ o.ownProperty name ≠ .ok none := by
  induction names generalizing fields s with
  | nil => simp [Pool.pure_apply]
  | cons first rest ih =>
    rw [List.foldlM_cons, Pool.bind_apply, ih, Pool.bind_apply]
    have shown := property_isSome g o first s
    cases found : (property g o first s).1 with
    | none =>
      have none : o.ownProperty first = .ok none := by simpa [found] using shown
      simp only [Pool.pure_apply, List.mem_cons]
      grind
    | some j =>
      have there : o.ownProperty first ≠ .ok none := shown.mp (found ▸ rfl)
      simp only [Pool.pure_apply, List.mem_cons, Fields.contains_insert]
      grind

theorem contains_ownProperties (alive : o.dead = none) (s : σ) :
    (ownProperties g o s).1.contains name = true ↔ o.ownProperty name ≠ .ok none := by
  have names : o.ownPropertyNames = .ok (o.props.map Prod.fst) := by rw [ScriptObject.ownPropertyNames, alive]
  have listed (shown : o.ownProperty name ≠ .ok none) : name ∈ o.props.map Prod.fst := by
    rw [ScriptObject.ownProperty, alive] at shown
    cases found : Table.get? o.props name with
    | none => simp [found] at shown
    | some entry => exact List.mem_map_of_mem (Table.mem_of_get? found)
  rw [ownProperties, names]
  refine (contains_foldlM_property _ _ s).trans ?_
  constructor
  · rintro (none | there)
    · cases none
    · exact there.2
  · intro shown
    exact .inr ⟨listed shown, shown⟩

end Grip

/-! ### The getters that are called -/

namespace Probe

variable {σ : Type} {g : Gripper (StateM σ)} {site : Site} {Good : σ → Prop} {receiver : Value} {own found : Fields}
variable {ref o : ObjectRef} {p q : Probe}

theorem mem_along {fuel : Nat} (enough : site.objectCount < fuel)
    (tells : (site.object ref).dead = none → ∀ name,
      own.contains name = true ↔ (site.object ref).ownProperty name ≠ .ok none) :
    p ∈ along site own 0 (site.chainFrom fuel [] ref) ↔ p.Sought site ref := by
  have enough : Pool.unlisted site [] < fuel := Nat.lt_of_le_of_lt (Pool.unlisted_le_objectCount site []) enough
  constructor
  · intro member
    obtain ⟨⟨o, level⟩, place, there⟩ := List.mem_flatMap.mp member
    obtain ⟨name, -, found⟩ := List.mem_filterMap.mp there
    obtain ⟨rfl, rfl, of, shown⟩ := at?_eq_some.mp found
    have on := ((Site.getElem?_chainFrom enough).mp (List.mem_zipIdx_iff_getElem?.mp place)).1
    refine ⟨⟨o, on, of⟩, fun above => ?_⟩
    have hides := tells on.start p.name
    rw [shown above] at hides
    by_contra shows
    cases hides.mpr shows
  · intro sought
    obtain ⟨o, on, of⟩ := sought.holder
    refine List.mem_flatMap.mpr ⟨(o, p.level), ?_, List.mem_filterMap.mpr ⟨p.name, ?_, ?_⟩⟩
    · refine List.mem_zipIdx_iff_getElem?.mpr ?_
      exact (Site.getElem?_chainFrom enough).mpr ⟨on, fun _ _ _ _ => List.not_mem_nil⟩
    · obtain ⟨_, _, property⟩ := of.accessor
      rw [ScriptObject.ownProperty, on.alive p.level (Nat.le_refl _) o on.there] at property
      cases entry : Table.get? (site.object o).props p.name with
      | none => simp [entry] at property
      | some entry' => exact List.mem_map_of_mem (Table.mem_of_get? entry)
    · refine at?_eq_some.mpr ⟨rfl, rfl, of, fun above => ?_⟩
      have hides := tells on.start p.name
      rw [sought.unhidden above] at hides
      simpa using hides

theorem ask_eq {m : Type → Type} [Monad m] (g : Gripper m) :
    p.ask g receiver found = do
      match (← g.call p.getter receiver).result? with
      | none | some .undefined => return found
      | some v => return found.insert p.name (Grip.getterEntry (← Grip.value g v) p.level p.enumerable) := by
  unfold ask
  refine congrArg _ (funext fun completion => ?_)
  cases completion.result? with
  | none => rfl
  | some v => cases v <;> rfl

section Asking

variable {taken : List String}

variable (shows : g.Shows site Good)

include shows

theorem safeGetter?_alike (name : String) :
    Alike Good (Grip.safeGetter? g (site.object o) name) (pure (native? site o name)) := by
  unfold Grip.safeGetter?
  split
  · rename_i property
    rw [native?, property]
    exact shows.object_bind (.pure _)
  · rename_i other
    have none : native? site o name = none := by
      unfold native?
      split
      · rename_i property
        exact absurd property (other _ _ _ _)
      · rfl
    rw [none]
    exact .pure _

theorem ask_alike (receiver : Value) (found : Fields) (p : Probe) :
    Alike Good (p.ask g receiver found) (p.ask g receiver found) := by
  refine shows.obeys.bind (shows.obeys.call _ _) fun completion => ?_
  split
  · exact .pure found
  · exact shows.obeys.bind (shows.obeys.value _) fun _ => .pure _

theorem safeGetterValue_alike (receiver : Value) (own found : Fields) (level : Nat) (o : ObjectRef) (name : String) :
    Alike Good (Grip.safeGetterValue g receiver own level (site.object o) found name)
      (match at? site own level o name with
        | some p => p.attempt g receiver found
        | none => pure found) := by
  unfold Grip.safeGetterValue at?
  by_cases hidden : (decide (0 < level) && own.contains name) = true
  · rw [hidden, Bool.or_true, if_pos rfl, if_pos rfl]
    exact .pure found
  · rw [if_neg hidden, Bool.eq_false_of_not_eq_true hidden, Bool.or_false]
    split
    · rename_i taken
      cases native? site o name with
      | none => exact .pure found
      | some x =>
        simp only [Option.map_some, attempt, taken, if_true]
        exact .pure found
    · rename_i new
      refine Alike.pure_bind (safeGetter?_alike shows name) ?_
      cases native? site o name with
      | none => exact .pure found
      | some x =>
        have asked := ask_alike shows receiver found ⟨level, name, x.1, x.2⟩
        rw [ask_eq] at asked
        simp only [Option.map_some, attempt, new, ask_eq]
        exact asked

theorem safeGetters_alike (receiver : Value) (own : Fields) (ref : ObjectRef) (fuel level : Nat)
    (visited : List ObjectId) (found : Fields) :
    Alike Good (Grip.safeGetters g receiver own fuel level visited found ref)
      ((along site own level (site.chainFrom fuel visited ref)).foldlM
        (fun found p => p.attempt g receiver found) found) := by
  induction fuel generalizing level visited found ref with
  | zero => exact .pure found
  | succ fuel ih =>
    unfold Grip.safeGetters Site.chainFrom
    by_cases old : ref.id ∈ visited
    · rw [if_pos old, if_pos (.inl old)]
      exact .pure found
    · rw [if_neg old]
      refine shows.object_bind ?_
      cases dead : (site.object ref).dead with
      | some e =>
        rw [if_pos (.inr rfl), ScriptObject.ownPropertyNames, dead]
        exact .pure found
      | none =>
        rw [if_neg (by simp [old]), ScriptObject.ownPropertyNames, dead, along_cons, List.foldlM_append,
          List.foldlM_filterMap]
        refine Alike.bind (Alike.foldlM (fun found name => ?_) _ _) fun found => ?_
        · have each := safeGetterValue_alike shows receiver own found level ref name
          cases probe : at? site own level ref name <;> rw [probe] at each <;> exact each
        · cases (site.object ref).proto with
          | none => exact .pure found
          | some id => exact ih ⟨ref.host, id⟩ (level + 1) (ref.id :: visited) found

/-- The entry tells of a value that the getter gave, gripped in a good state. -/
def Told (g : Gripper (StateM σ)) (site : Site) (Good : σ → Prop) (receiver : Value) (p : Probe) (entry : Json) :
    Prop :=
  ∃ v s, p.answer? site receiver = some v ∧ Good s ∧
    entry = Grip.getterEntry (Grip.value g v s).1 p.level p.enumerable

theorem ask_cases {s : σ} (good : Good s) (receiver : Value) (found : Fields) (p : Probe) :
    p.answer? site receiver = none ∧ (p.ask g receiver found s).1 = found ∨
      ∃ entry, Told g site Good receiver p entry ∧ (p.ask g receiver found s).1 = found.insert p.name entry := by
  obtain ⟨called, good'⟩ := shows.call good p.getter receiver
  rw [ask, Pool.bind_apply, called]
  rw [← answer?]
  cases answer : p.answer? site receiver with
  | none => exact .inl ⟨rfl, rfl⟩
  | some v => exact .inr ⟨_, ⟨v, _, answer, good', rfl⟩, rfl⟩

omit shows

/-- The probes that are asked: those whose names have no answer yet. -/
def asked (site : Site) (receiver : Value) : List String → List Probe → List Probe
  | _, [] => []
  | taken, p :: rest =>
    if p.name ∈ taken then asked site receiver taken rest
    else p :: asked site receiver (if (p.answer? site receiver).isSome then p.name :: taken else taken) rest

theorem asked_sublist (taken : List String) (probes : List Probe) :
    (asked site receiver taken probes).Sublist probes := by
  induction probes generalizing taken with
  | nil => exact List.Sublist.slnil
  | cons p rest ih =>
    unfold asked
    split
    · exact (ih taken).cons p
    · exact (ih _).cons_cons p

/-- In probes that are told apart by name and level, level by level, one is asked if no lower level has an answer. -/
theorem mem_asked {probes : List Probe} (ordered : probes.Pairwise (·.level ≤ ·.level))
    (apart : ∀ p ∈ probes, ∀ q ∈ probes, p.name = q.name → p.level = q.level → p = q) :
    p ∈ asked site receiver taken probes ↔ p ∈ probes ∧ p.name ∉ taken ∧
      ∀ q ∈ probes, q.name = p.name → q.level < p.level → q.answer? site receiver = none := by
  induction probes generalizing taken with
  | nil => simp [asked]
  | cons first rest ih =>
    obtain ⟨lowest, ordered⟩ := List.pairwise_cons.mp ordered
    have ih (others : List String) := @ih others ordered fun p member q member' =>
      apart p (List.mem_cons_of_mem _ member) q (List.mem_cons_of_mem _ member')
    unfold asked
    split
    · rename_i old
      rw [ih]
      constructor
      · rintro ⟨member, new, silent⟩
        refine ⟨List.mem_cons_of_mem _ member, new, fun q there same less => ?_⟩
        rcases List.mem_cons.mp there with rfl | there
        · exact absurd (same ▸ old) new
        · exact silent q there same less
      · rintro ⟨member, new, silent⟩
        rcases List.mem_cons.mp member with rfl | member
        · exact absurd old new
        · exact ⟨member, new, fun q there => silent q (List.mem_cons_of_mem _ there)⟩
    · rename_i fresh
      rw [List.mem_cons, ih]
      constructor
      · rintro (rfl | ⟨member, new, silent⟩)
        · refine ⟨List.mem_cons_self, fresh, fun q there same less => ?_⟩
          rcases List.mem_cons.mp there with rfl | there
          · exact absurd less (Nat.lt_irrefl _)
          · exact absurd (lowest q there) (Nat.not_le_of_lt less)
        · refine ⟨List.mem_cons_of_mem _ member, fun old => new ?_, fun q there same less => ?_⟩
          · split
            · exact List.mem_cons_of_mem _ old
            · exact old
          · rcases List.mem_cons.mp there with rfl | there
            · by_contra answers
              rw [if_pos (Option.isSome_iff_ne_none.mpr answers)] at new
              exact new (same ▸ List.mem_cons_self)
            · exact silent q there same less
      · rintro ⟨member, new, silent⟩
        by_cases self : p = first
        · exact .inl self
        · have member : p ∈ rest := (List.mem_cons.mp member).resolve_left self
          refine .inr ⟨member, fun old => ?_, fun q there => silent q (List.mem_cons_of_mem _ there)⟩
          split at old
          · rename_i answers
            rcases List.mem_cons.mp old with same | old
            · -- a probe of the name that has just been answered is the same one, or further up
              rcases Nat.lt_or_eq_of_le (lowest p member) with less | level
              · rw [silent first List.mem_cons_self same.symm less] at answers
                cases answers
              · exact self (apart p (List.mem_cons_of_mem _ member) first List.mem_cons_self same level.symm)
            · exact new old
          · exact new old

include shows

theorem contains_ask {s : σ} (good : Good s) (tells : ∀ name, found.contains name = true ↔ name ∈ taken)
    (name : String) :
    (p.ask g receiver found s).1.contains name = true ↔
      name ∈ if (p.answer? site receiver).isSome then p.name :: taken else taken := by
  rcases ask_cases shows good receiver found p with ⟨none, same⟩ | ⟨entry, ⟨v, _, answer, -⟩, same⟩
  · rw [same, none]
    exact tells name
  · rw [same, answer, Option.isSome_some, if_pos rfl, Fields.contains_insert, tells, List.mem_cons, eq_comm]

theorem attempt_alike (receiver : Value) (probes : List Probe)
    (tells : ∀ name, found.contains name = true ↔ name ∈ taken) :
    Alike Good (probes.foldlM (fun found p => p.attempt g receiver found) found)
      ((asked site receiver taken probes).foldlM (fun found p => p.ask g receiver found) found) := by
  induction probes generalizing found taken with
  | nil => exact .pure found
  | cons p rest ih =>
    unfold asked
    rw [List.foldlM_cons]
    by_cases old : p.name ∈ taken
    · rw [if_pos old, attempt, if_pos ((tells p.name).mpr old)]
      exact ih tells
    · rw [if_neg old, attempt, if_neg fun there => old ((tells p.name).mp there), List.foldlM_cons]
      intro s good
      rw [Pool.bind_apply, Pool.bind_apply]
      exact ih (contains_ask shows good tells) _ (ask_alike shows receiver found p s good).2

/-- What is found in the end: what was there, and what the probes that were asked have told. -/
theorem get?_asked {s : σ} (good : Good s) (receiver : Value) (probes : List Probe)
    (tells : ∀ name, found.contains name = true ↔ name ∈ taken) :
    let asked := asked site receiver taken probes
    let result := (asked.foldlM (fun found p => p.ask g receiver found) found s).1
    (∀ name entry, found.get? name = some entry → result.get? name = some entry) ∧
      (∀ p ∈ asked, (p.answer? site receiver).isSome →
        ∃ entry, result.get? p.name = some entry ∧ Told g site Good receiver p entry) ∧
      ∀ name entry, result.get? name = some entry → found.get? name = some entry ∨
        ∃ p ∈ asked, p.name = name ∧ Told g site Good receiver p entry := by
  induction probes generalizing found taken s with
  | nil => exact ⟨fun _ _ there => there, nofun, fun _ _ there => .inl there⟩
  | cons p rest ih =>
    unfold asked
    split
    · exact ih good tells
    · rename_i fresh
      dsimp only
      rw [List.foldlM_cons, Pool.bind_apply]
      obtain ⟨kept, told, only⟩ := ih (ask_alike shows receiver found p s good).2 (contains_ask shows good tells)
      rcases ask_cases shows good receiver found p with ⟨none, same⟩ | ⟨entry, tell, same⟩
      · rw [same] at kept told only ⊢
        refine ⟨kept, fun q member answers => ?_, fun name entry there => ?_⟩
        · rcases List.mem_cons.mp member with rfl | member
          · rw [none] at answers
            cases answers
          · exact told q member answers
        · refine (only name entry there).imp_right ?_
          rintro ⟨q, member, tell⟩
          exact ⟨q, List.mem_cons_of_mem _ member, tell⟩
      · have kept (name : String) (e : Json) (there : (found.insert p.name entry).get? name = some e) :=
          kept name e (same ▸ there)
        refine ⟨fun name e there => kept name e ?_, fun q member answers => ?_, fun name e there => ?_⟩
        · have other : p.name ≠ name := by
            rintro rfl
            exact fresh ((tells p.name).mp (Option.isSome_of_eq_some there))
          rw [Fields.get?_insert, if_neg other, there]
        · rcases List.mem_cons.mp member with rfl | member
          · exact ⟨entry, kept q.name entry (by rw [Fields.get?_insert, if_pos rfl]), tell⟩
          · exact told q member answers
        · rcases only name e there with old | ⟨q, member, tell'⟩
          · rw [same, Fields.get?_insert] at old
            split at old
            · rename_i self
              cases old
              exact .inr ⟨p, List.mem_cons_self, self, tell⟩
            · exact .inl old
          · exact .inr ⟨q, List.mem_cons_of_mem _ member, tell'⟩

end Asking

end Probe

/-! ### The grippers of pools and connections -/

def Site.SameObjects (site other : Site) : Prop := ∀ ref, other.object ref = site.object ref

variable {site : Site} {ref : ObjectRef}

theorem Site.callObject_same {other : Site} (same : site.SameObjects other) (origin : Option ConnectionId)
    (receiver : Value) : (other.callObject origin ref receiver).2 = (site.callObject none ref receiver).2 ∧
      site.SameObjects (other.callObject origin ref receiver).1 :=
  ⟨congrArg (fun o : ScriptObject => o.call.map (Expr.valueWith (some receiver))) (same ref), same⟩

namespace Pool

theorem gripperWith_shows {limits : StringLimits} {reach : Nat} (enough : site.objectCount < reach)
    {objectGrip : ObjectRef → StateM Pooling Json}
    (keeps : ∀ p : Pooling, site.SameObjects p.site → ∀ ref, site.SameObjects (objectGrip ref p).2.site) :
    (gripperWith limits reach objectGrip).Shows site fun p => site.SameObjects p.site where
  reach := enough
  object {p} same ref := congrArg (·, p) (same ref)
  call {_} same _ receiver := Site.callObject_same same none receiver
  objectGrip {p} same ref := keeps p same ref
  longStringGrip {_} same _ := same

theorem objectGrip_sameObjects {limits : StringLimits} {reach : Nat} (enough : site.objectCount < reach) (fuel : Nat)
    (p : Pooling) (same : site.SameObjects p.site) (ref : ObjectRef) :
    site.SameObjects (objectGrip limits reach fuel ref p).2.site := by
  induction fuel generalizing p ref with
  | zero =>
    unfold objectGrip
    rw [bind_apply]
    dsimp only [get, getThe, MonadStateOf.get, StateT.get, Pure.pure]
    cases p.pool.places.get? ref.id <;> exact same
  | succ fuel ih =>
    cases placed : p.pool.places.get? ref.id with
    | some place =>
      rw [objectGrip_placed limits reach (fuel + 1) placed]
      exact same
    | none =>
      have described : Alike (fun p => site.SameObjects p.site)
          (Grip.describe (gripperWith limits reach (objectGrip limits reach fuel)) ref) _ :=
        (gripperWith_shows enough ih).obeys.describe ref
      rw [objectGrip_new _ _ _ placed]
      exact (described { p with pool := p.pool.reserve ref.id } same).2

theorem gripper_shows (site : Site) : (gripper site).Shows site fun p => site.SameObjects p.site :=
  gripperWith_shows (Nat.lt_add_of_pos_right (by decide)) fun p same ref =>
    objectGrip_sameObjects (Nat.lt_add_of_pos_right (by decide)) _ p same ref

end Pool

namespace Grip

theorem gripper_shows (site : Site) (owner : String) :
    (gripper site owner).Shows site fun s => site.SameObjects s.site where
  reach := Nat.lt_add_of_pos_right (by decide)
  object {s} same ref := congrArg (·, s) (same ref)
  call {s} same _ receiver := Site.callObject_same same (some s.conn.id) receiver
  objectGrip {s} same ref := by
    change site.SameObjects (actorOf owner ref s).2.site
    unfold actorOf
    rw [Pool.bind_apply]
    dsimp only [get, getThe, MonadStateOf.get, StateT.get, Pure.pure]
    cases (s.conn.registry.scripts.get? ref.id).filter s.conn.registry.contains <;> exact same
  longStringGrip {_} same _ := same

variable {σ : Type} {g : Gripper (StateM σ)} {Good : σ → Prop} {t : σ}

/-- The probes of which a report of native getters consists: those along the chain, each unless one of its name
further down gives a value. Asking them one after the other is the whole report. -/
structure Asks (g : Gripper (StateM σ)) (site : Site) (Good : σ → Prop) (ref : ObjectRef) (report : StateM σ Fields)
    (t : σ) (asked : List Probe) : Prop where
  calls : report t = asked.foldlM (fun found p => p.ask g (.object ref) found) [] t
  upwards : asked.Pairwise (·.level ≤ ·.level)
  sought : ∀ p, p ∈ asked ↔ p.Sought site ref ∧ ∀ q : Probe, q.Sought site ref → q.name = p.name → q.level < p.level →
    q.answer? site (.object ref) = none
  told : ∀ p ∈ asked, (p.answer? site (.object ref)).isSome →
    ∃ entry, (report t).1.get? p.name = some entry ∧ p.Told g site Good (.object ref) entry
  only : ∀ name entry, (report t).1.get? name = some entry →
    ∃ p ∈ asked, p.name = name ∧ p.Told g site Good (.object ref) entry

/-- Getters are called for an object just where they are sought: along its prototypes, as far as none comes again
and all can be looked at, the native getters of accessors that no property of the object itself hides. Those of one
name are called from the object on upwards until one of them gives a value, and that value is reported. -/
theorem getters_called_upwards (shows : g.Shows site Good) (good : Good t) (s : σ) (ref : ObjectRef) :
    ∃ asked, Asks g site Good ref (safeGetterValues g ref (ownProperties g (site.object ref) s).1) t asked := by
  generalize owned : (ownProperties g (site.object ref) s).1 = own
  have sought {p : Probe} : p ∈ Probe.along site own 0 (site.chainFrom g.reach [] ref) ↔ p.Sought site ref :=
    Probe.mem_along shows.reach fun alive _ => owned ▸ contains_ownProperties alive s
  have ordered := Probe.along_ordered site own 0 (site.chainFrom g.reach [] ref)
  have tried := (Probe.safeGetters_alike shows (.object ref) own ref g.reach 0 [] [] t good).1
  generalize Probe.along site own 0 (site.chainFrom g.reach [] ref) = probes at sought ordered tried
  have unnamed (name : String) : Table.contains ([] : Fields) name = true ↔ name ∈ ([] : List String) := by
    simp [Table.contains, Table.get?]
  have same := tried.trans (Probe.attempt_alike shows (.object ref) probes unnamed t good).1
  obtain ⟨-, told, only⟩ := Probe.get?_asked shows good (.object ref) probes unnamed
  rw [← same] at told only
  refine ⟨Probe.asked site (.object ref) [] probes, same, ?_, fun p => ?_, told, fun name entry there => ?_⟩
  · exact ordered.sublist (Probe.asked_sublist [] probes)
  · rw [Probe.mem_asked ordered]
    · simp only [sought, List.not_mem_nil, not_false_eq_true, true_and]
    · intro p member q member'
      exact (sought.mp member).unique (sought.mp member')
  · exact (only name entry there).resolve_left fun old => by cases old

/-- A chain that comes back to its start. On its way, a getter with a script stands before a native one, and so
does a native one that throws. -/
def eclipse : Site :=
  let accessor (id : ObjectId) : PropertyEntry := .accessor (some (.const (.object ⟨"page", id⟩))) none true true
  { hosts := [("page", { engine := { objects := [
      (1, { proto := some 2, props := [("own", .data (.const .null) true true true)] }),
      (2, { proto := some 3, props := [("own", accessor 5), ("scripted", accessor 4), ("thrown", accessor 6)] }),
      (3, { proto := some 1, props := [("scripted", accessor 5), ("thrown", accessor 5)] }),
      (4, { className := "Function", callable := true, script := true, call := .returned .receiver }),
      (5, { className := "Function", callable := true, call := .returned (.const (.bool true)) }),
      (6, { className := "Function", callable := true, call := .threw (.const .null) })] } })] }

theorem getters_called_upwards_eclipse :
    let first : ObjectRef := ⟨"page", 1⟩
    let same (s : Scene) := eclipse.SameObjects s.site
    let t : Scene := ⟨eclipse, { id := 0 }⟩
    (Pool.gripper eclipse).Shows eclipse (fun p => eclipse.SameObjects p.site) ∧
      (gripper eclipse "owner").Shows eclipse same ∧ same t ∧
      (∃ asked, Asks (Pool.gripper eclipse) eclipse (fun p => eclipse.SameObjects p.site) first
        (safeGetterValues (Pool.gripper eclipse) first
          (ownProperties (Pool.gripper eclipse) (eclipse.object first) ⟨eclipse, {}⟩).1) ⟨eclipse, {}⟩ asked) ∧
      ∃ asked, Asks (gripper eclipse "owner") eclipse same first
        (safeGetterValues (gripper eclipse "owner") first
          (ownProperties (gripper eclipse "owner") (eclipse.object first) t).1) t asked :=
  ⟨Pool.gripper_shows eclipse, gripper_shows eclipse "owner", fun _ => rfl,
    getters_called_upwards (Pool.gripper_shows eclipse) (fun _ => rfl) _ _,
    getters_called_upwards (gripper_shows eclipse "owner") (fun _ => rfl) _ _⟩

/-- Getters two prototypes away are called and reported though the prototype between has properties of these names,
and for one of the names that prototype's getter has been called before. -/
theorem prototypes_do_not_hide :
    let first : ObjectRef := ⟨"page", 1⟩
    let g := Pool.gripper eclipse
    let own := (ownProperties g (eclipse.object first) ⟨eclipse, {}⟩).1
    let report := safeGetterValues g first own ⟨eclipse, {}⟩
    eclipse.ancestor 1 first = some ⟨"page", 2⟩ ∧
      (eclipse.object ⟨"page", 2⟩).ownPropertyNames = .ok ["own", "scripted", "thrown"] ∧
      report.1.get? "scripted" = some (getterEntry (.bool true) 2 true) ∧
      report.1.get? "thrown" = some (getterEntry (.bool true) 2 true) ∧
      report.2.site.log.map (·.call) =
        [.call 6 "[object Object #1]", .call 5 "[object Object #1]", .call 5 "[object Object #1]"] :=
  ⟨rfl, rfl, rfl, rfl, rfl⟩

end Grip

end RemoteInspector
