import Mathlib.Data.List.Permutation
import RemoteInspector.Proofs.Client.Asking
/-!
Requests that a client writes are requests that the server takes: both sides go by one description of the method.
-/
namespace RemoteInspector

/-! ### Arguments -/

namespace Shape

/-- The second value is the first with some of the actors in it, also below nullable values and in arrays, given by
their names in place of their forms. -/
def Named : Shape → Json → Json → Prop
  | actor _, form, value =>
    value = form ∨ ∃ fields name, form = .obj fields ∧ Fields.get? fields "actor" = some (.str name) ∧ value = .str name
  | nullable inner, form, value => inner.Named form value
  | array inner, form, value =>
    value = form ∨ ∃ forms values, form = .arr forms ∧ value = .arr values ∧ List.Forall₂ inner.Named forms values
  | _, form, value => value = form

theorem write_null : ∀ shape : Shape, shape.write .null = .null
  | .nullable _ => by simp [write]
  | .primitive | .boolean | .number | .string | .json | .array _ | .dict _ _ | .actor _ => by simp [write]

theorem write_nullable (inner : Shape) (value : Json) : (nullable inner).write value = inner.write value := by
  cases value with
  | null => rw [write_null, write_null]
  | _ => rfl

/-- A value that is accepted has no forms in it any more. -/
theorem write_of_accepts : ∀ {shape : Shape} {value : Json}, shape.accepts value = true → shape.write value = value
  | .nullable inner, value, accepted => by
      rw [write_nullable]
      rcases Bool.or_eq_true_iff.mp accepted with null | accepted
      · cases value with
        | null => exact write_null inner
        | _ => cases null
      · exact write_of_accepts accepted
  | .array inner, .arr items, accepted => by
      have each := List.all_eq_true.mp accepted
      rw [write, List.map_congr_left fun item member => write_of_accepts (each item member), List.map_id']
  | .actor _, .str _, _ => rfl
  | .primitive, _, _ | .boolean, _, _ | .number, _, _ | .string, _, _ | .json, _, _ | .dict _ _, _, _ => by
      simp [write]

theorem write_named : ∀ {shape : Shape} {form value : Json}, shape.Named form value →
    shape.write value = shape.write form
  | .nullable inner, form, value, named => by
      rw [write_nullable, write_nullable]
      exact write_named named
  | .array inner, _, _, .inl same => by rw [same]
  | .array inner, _, _, .inr ⟨forms, values, rfl, rfl, each⟩ => by
      have same : values.map inner.write = forms.map inner.write := by
        induction each with
        | nil => rfl
        | cons named _ rest => rw [List.map_cons, List.map_cons, write_named named, rest]
      rw [write, write, same]
  | .actor _, _, _, .inl same => by rw [same]
  | .actor _, _, _, .inr ⟨fields, name, rfl, found, rfl⟩ => by simp [write, found]
  | .primitive, _, _, same | .boolean, _, _, same | .number, _, _, same | .string, _, _, same
  | .json, _, _, same | .dict _ _, _, _, same => by
      rw [show _ = _ from same]

end Shape

/-! ### Packets -/

namespace Method

variable {m : Method} {target key : String} {arguments arguments' packet : Fields}

/-- The second arguments are the first with some of the actors in them given by their names in place of their forms. -/
def Named (m : Method) : Fields → Fields → Prop :=
  List.Forall₂ fun form value => value.1 = form.1 ∧ ∀ p ∈ m.request, p.name = form.1 → p.shape.Named form.2 value.2

/-- Both arguments give the same values for every parameter, once the forms of actors have become names. -/
def Alike (m : Method) (arguments arguments' : Fields) : Prop :=
  ∀ p ∈ m.request, (arguments'.get? p.name).map p.shape.write = (arguments.get? p.name).map p.shape.write

theorem Named.keys (named : m.Named arguments arguments') : arguments'.keys = arguments.keys := by
  induction named with
  | nil => rfl
  | cons here _ ih =>
    simp only [Table.keys, List.map_cons, here.1, List.cons.injEq, true_and] at ih ⊢
    exact ih

theorem Named.alike (named : m.Named arguments arguments') : m.Alike arguments arguments' := by
  intro p member
  induction named with
  | nil => rfl
  | @cons form value forms values here _ ih =>
    obtain ⟨key, form⟩ := form
    obtain ⟨key', value⟩ := value
    obtain ⟨rfl, here⟩ := here
    simp only [Fields.get?, Table.get?] at ih ⊢
    split
    · rename_i same
      rw [Option.map_some, Option.map_some, Shape.write_named (here p member same.symm)]
    · exact ih

theorem argue_eq (arguments packet : Fields) (p : Parameter) :
    argue arguments packet p = ((arguments.get? p.name).map p.shape.write).elim packet (packet.insert p.name) := by
  unfold argue
  split <;> rename_i given <;> rw [given] <;> rfl

theorem foldl_argue_congr {parameters : List Parameter}
    (alike : ∀ p ∈ parameters,
      (arguments'.get? p.name).map p.shape.write = (arguments.get? p.name).map p.shape.write) :
    parameters.foldl (argue arguments') packet = parameters.foldl (argue arguments) packet := by
  induction parameters generalizing packet with
  | nil => rfl
  | cons p rest ih =>
    rw [List.foldl_cons, List.foldl_cons, argue_eq, argue_eq, alike p List.mem_cons_self]
    exact ih fun q member => alike q (List.mem_cons_of_mem _ member)

/-- A parameter is in the packet just if an argument is given for it. -/
theorem get?_foldl_argue_mem {parameters : List Parameter} (distinct : (parameters.map (·.name)).Nodup)
    {p : Parameter} (member : p ∈ parameters) (bare : packet.get? p.name = none) :
    (parameters.foldl (argue arguments) packet).get? p.name = (arguments.get? p.name).map p.shape.write := by
  induction parameters generalizing packet with
  | nil => cases member
  | cons q rest ih =>
    obtain ⟨new, distinct⟩ := List.nodup_cons.mp distinct
    have other : ∀ r ∈ rest, r.name ≠ q.name := fun r there same => new (List.mem_map.mpr ⟨r, there, same⟩)
    rw [List.foldl_cons]
    rcases List.mem_cons.mp member with rfl | later
    · rw [get?_foldl_argue_ne rest other, argue_eq]
      cases (arguments.get? p.name).map p.shape.write with
      | none => exact bare
      | some value => exact (Fields.get?_insert _ _ _ _).trans (if_pos rfl)
    · refine ih distinct later ?_
      rw [get?_argue_ne (other p later).symm, bare]

theorem check_ok_iff : m.check packet = .ok () ↔ ∀ p ∈ m.request, p.check packet = .ok () := by
  unfold check
  induction m.request with
  | nil => exact iff_of_true rfl nofun
  | cons p rest ih =>
    rw [List.forall_mem_cons, ← ih]
    refine ⟨fun checked => ?_, fun ⟨first, others⟩ => (congrArg (· >>= fun _ => _) first).trans others⟩
    obtain ⟨_, first, others⟩ := Decision.bind_ok checked
    exact ⟨first, others⟩

end Method

theorem Parameter.accepts_of_check {p : Parameter} {packet : Fields} {value : Json} (checked : p.check packet = .ok ())
    (given : packet.get? p.name = some value) : value = .null ∨ p.shape.accepts value = true := by
  unfold check at checked
  rw [given] at checked
  cases value with
  | null => exact .inl rfl
  | _ =>
    right
    by_contra refused
    simp [refused] at checked

namespace Method

variable {m : Method} {target : String} {arguments arguments' packet : Fields}

section

variable (written : m.write target arguments = .ok packet)

include written

/-- Arguments that come to the same make the same packet. -/
theorem write_alike (alike : m.Alike arguments arguments') (covers : m.Covers arguments') :
    m.write target arguments' = .ok packet := by
  obtain ⟨_, same, checked⟩ := write_ok_iff.mp written
  exact write_ok_iff.mpr ⟨covers, (foldl_argue_congr alike).trans same, checked⟩

theorem write_named (named : m.Named arguments arguments' ∨ m.Named arguments' arguments) :
    m.write target arguments' = .ok packet := by
  have covers := (write_ok_iff.mp written).1
  rcases named with named | named
  · refine write_alike written named.alike fun key member => covers key ?_
    rwa [← named.keys]
  · refine write_alike written (fun p member => (named.alike p member).symm) fun key member => covers key ?_
    rwa [named.keys]

variable (plain : m.Plain)

include plain

theorem get?_write_mem {p : Parameter} (member : p ∈ m.request) :
    packet.get? p.name = (arguments.get? p.name).map p.shape.write := by
  obtain ⟨_, rfl, _⟩ := write_ok_iff.mp written
  refine get?_foldl_argue_mem plain.distinct member (Fields.get?_ofList_eq_none ?_)
  have free := plain.free p member
  simp only [List.mem_cons, not_or] at free
  simpa using ⟨Ne.symm free.1, Ne.symm free.2.1⟩

theorem write_again : m.write target ((packet.erase "to").erase "type") = .ok packet := by
  obtain ⟨_, _, checked⟩ := write_ok_iff.mp written
  have own {key : String} (free : key ∉ ["to", "type", "requestId"]) :
      ((packet.erase "to").erase "type").get? key = packet.get? key := by
    simp only [List.mem_cons, not_or] at free
    exact (Table.get?_erase _ _ _).trans ((if_neg (Ne.symm free.2.1)).trans
      ((Table.get?_erase _ _ _).trans (if_neg (Ne.symm free.1))))
  refine write_alike written (fun p member => ?_) fun key member => ?_
  · rw [own (plain.free p member), get?_write_mem written plain member, Option.map_map]
    cases given : arguments.get? p.name with
    | none => rfl
    | some form =>
      have there : packet.get? p.name = some (p.shape.write form) := by
        rw [get?_write_mem written plain member, given, Option.map_some]
      refine congrArg some ?_
      rcases Parameter.accepts_of_check (check_ok_iff.mp checked p member) there with null | accepted
      · exact (congrArg p.shape.write null).trans ((Shape.write_null p.shape).trans null.symm)
      · exact Shape.write_of_accepts accepted
  · simp only [Fields.erase, Table.keys_erase, List.mem_filter, decide_eq_true_eq] at member
    obtain ⟨⟨listed, noTarget⟩, noType⟩ := member
    obtain ⟨value, there⟩ := Table.mem_keys_iff.mp listed
    rcases get?_write written there with head | ⟨p, member, named, _⟩
    · simp [Fields.get?_ofList, Ne.symm noTarget, Ne.symm noType] at head
    · exact ⟨p, member, named⟩

theorem check_write_numbered (id : Json) : m.check (packet.insert "requestId" id) = .ok () := by
  obtain ⟨_, _, checked⟩ := write_ok_iff.mp written
  refine check_ok_iff.mpr fun p member => ?_
  have other : "requestId" ≠ p.name := fun same => plain.free p member (by simp [same])
  rw [← check_ok_iff.mp checked p member, Parameter.check, Parameter.check, Fields.get?_insert, if_neg other]

end

end Method

namespace Schema

variable {schema : Schema} {m : Method}

theorem method?_of_listed (listed : schema ∈ all) (member : m ∈ schema.methods) : schema.method? m.name = some m := by
  have each : ∀ schema ∈ all, (schema.methods.map (·.name)).Nodup := by decide
  obtain ⟨m', found⟩ : ∃ m', schema.method? m.name = some m' :=
    Option.isSome_iff_exists.mp (List.find?_isSome.mpr ⟨m, member, decide_eq_true rfl⟩)
  have named : m'.name = m.name := by simpa using List.find?_some found
  rw [found, List.inj_on_of_nodup_map (each schema listed) (List.mem_of_find?_eq_some found) member named]

/-- Whatever a client writes for a method, the server takes, with a number and without. The packet has the target, the
method and the arguments, nothing else. It does not matter which actors are given by their forms and which by their
names, and what stands in a packet makes that packet again. -/
theorem written_requests_taken (listed : schema ∈ all) (member : m ∈ schema.methods) {target : String}
    {arguments packet : Fields} (written : m.write target arguments = .ok packet) :
    (Front.mk target schema).write m.name arguments = .ok packet ∧
    schema.check m.name packet = .ok m ∧
    (∀ id, schema.check m.name (packet.insert "requestId" id) = .ok m) ∧
    (packet.get? "to" = some (.str target) ∧ packet.get? "type" = some (.str m.name) ∧
      (∀ key given, arguments.get? key = some given →
        ∃ p ∈ m.request, p.name = key ∧ packet.get? key = some (p.shape.write given)) ∧
      ∀ key ∉ ["to", "type"], arguments.get? key = none → packet.get? key = none) ∧
    (∀ arguments', m.Named arguments arguments' ∨ m.Named arguments' arguments →
      m.write target arguments' = .ok packet) ∧ m.write target ((packet.erase "to").erase "type") = .ok packet := by
  have plain := plain_of_listed listed member
  have found := method?_of_listed listed member
  obtain ⟨covers, _, checked⟩ := Method.write_ok_iff.mp written
  obtain ⟨toTarget, ofType⟩ := Method.get?_write_head written plain
  refine ⟨Link.Quiet.write_of_method found written, check_of found checked,
    fun id => check_of found (Method.check_write_numbered written plain id),
    ⟨toTarget, ofType, fun key form given => ?_, fun key other => ?_⟩,
    fun arguments' named => Method.write_named written named, Method.write_again written plain⟩
  · obtain ⟨p, there, rfl⟩ := covers key (Table.mem_keys_iff.mpr ⟨form, given⟩)
    exact ⟨p, there, rfl, by rw [Method.get?_write_mem written plain there, given, Option.map_some]⟩
  · exact Method.get?_write_none written (by simpa using other)

/-- The release of a node that is given by its form, and by its name. -/
theorem written_requests_taken_form :
    let m : Method := ⟨"releaseNode", [arg "node" domNode], [], false⟩
    let form : Fields := [("node", .obj [("actor", .str "n4"), ("nodeType", .nat 1)])]
    let name : Fields := [("node", .str "n4")]
    let packet : Fields := [("node", .str "n4"), ("to", .str "w"), ("type", .str "releaseNode")]
    m ∈ walker.methods ∧ m.write "w" form = .ok packet ∧
      walker.check "releaseNode" (packet.insert "requestId" (.nat 0)) = .ok m ∧ m.write "w" name = .ok packet ∧
      m.write "w" ((packet.erase "to").erase "type") = .ok packet := by
  intro m form name packet
  have listed : m ∈ walker.methods :=
    .tail _ (.tail _ (.tail _ (.tail _ (.tail _ (.tail _ (.tail _ (.tail _ (.tail _ (.head _)))))))))
  have written : m.write "w" form = .ok packet := by cbv
  have named : m.Named form name := by
    refine .cons ⟨rfl, fun p there _ => ?_⟩ .nil
    cases List.mem_singleton.mp there
    exact .inr ⟨_, "n4", rfl, rfl, rfl⟩
  have walkers : walker ∈ all := by simp [all]
  obtain ⟨_, _, numbered, _, spelled, again⟩ := written_requests_taken walkers listed written
  exact ⟨listed, written, numbered _, spelled name (.inl named), again⟩

end Schema

end RemoteInspector
