import RemoteInspector.Inspector.Mutation
import RemoteInspector.Inspector.NodeForm
import RemoteInspector.Proofs.Json.Fields
/-!
Forms and records as they are sent are read back as they were.
-/
namespace RemoteInspector

namespace Json

theorem boundedNat?_nat {limit n : Nat} (small : n ≤ limit) : boundedNat? limit (.nat n) = some n := by
  simp [boundedNat?, nat, natural?, Option.filter, small]

theorem listOf?_map {α : Type} {read : Json → Option α} {write : α → Json} {items : List α}
    (each : ∀ a ∈ items, read (write a) = some a) : listOf? read (.arr (items.map write)) = some items := by
  unfold listOf?
  dsimp only
  induction items with
  | nil => rfl
  | cons a rest ih =>
    rw [List.map_cons, List.mapM_cons, each a (by simp), ih fun b member => each b (by simp [member])]
    rfl

theorem listOf?_strings (items : List String) : listOf? string? (.strings items) = some items :=
  listOf?_map fun _ _ => rfl

end Json

theorem Attribute.ofJson?_toJson (a : Attribute) : ofJson? a.toJson = some a := by
  obtain ⟨space, name, value⟩ := a
  cases space <;>
    simp [ofJson?, toJson, Json.object, Record.ofJson?, Record.nullable, Record.required, Fields.get?_ofList,
      Json.optional, Json.string?]

namespace NodeForm

theorem get?_present (key : String) (value : Option String) (other : String) :
    (Fields.ofList (present key value)).get? other = if key = other then value.map .str else none := by
  cases value with
  | none => simp [present, Fields.ofList]
  | some text => simp [present, Fields.ofList, Fields.get?_insert]

theorem defaulted_text {r : Record} {place : Nat} {key : String} {value : Option String}
    (fetched : r.fetch place key = value.map .str) : r.defaulted place key text? none = some value := by
  unfold Record.defaulted
  rw [fetched]
  cases value <;> rfl

theorem get?_toJson (f : NodeForm) (key : String) : f.toJson.get? key =
    (if f.incomplete = true ∧ key = "incompleteValue" then some (.bool true) else none).or
    ((if f.kind = NodeKind.element ∧ key = "attrs" then some (.arr (f.attrs.map Attribute.toJson)) else none).or
    ((if "shortValue" = key then f.shortValue.map .str else none).or
    ((if "systemId" = key then f.systemId.map .str else none).or
    ((if "publicId" = key then f.publicId.map .str else none).or
    ((if "name" = key then f.doctypeName.map .str else none).or
    ((if "parent" = key then f.parent.map .str else none).or
    ((Fields.ofList [("actor", .str f.actor), ("nodeType", .nat f.kind),
      ("namespaceURI", .optional (f.space.map .str)), ("nodeName", .str f.name),
      ("numChildren", .nat f.numChildren)]).get? key))))))) := by
  have attrs : (Fields.ofList (if f.kind = NodeKind.element then
      [("attrs", Json.arr (f.attrs.map Attribute.toJson))] else [])).get? key =
        if f.kind = NodeKind.element ∧ key = "attrs" then some (.arr (f.attrs.map Attribute.toJson)) else none := by
    by_cases element : f.kind = NodeKind.element <;>
      simp [element, Fields.ofList, Fields.get?_insert, eq_comm (a := key)]
  have cut : (Fields.ofList (if f.incomplete then [("incompleteValue", Json.bool true)] else [])).get? key =
        if f.incomplete = true ∧ key = "incompleteValue" then some (.bool true) else none := by
    cases f.incomplete <;> simp [Fields.ofList, Fields.get?_insert, eq_comm (a := key)]
  simp only [toJson, Json.object, Json.get?, Fields.get?_ofList_append, get?_present, attrs, cut]

/-- A form as it is read. -/
def record (f : NodeForm) : Record := ⟨false, fun _ key => f.toJson.get? key⟩

theorem record_toJson (f : NodeForm) : Record.ofJson? 12 f.toJson = some f.record := rfl

theorem record_shortValue (f : NodeForm) : f.record.defaulted 10 "shortValue" text? none = some f.shortValue :=
  defaulted_text (by simp [record, get?_toJson, Fields.get?_ofList])

theorem record_incomplete (f : NodeForm) :
    f.record.defaulted 11 "incompleteValue" Json.bool? false = some f.incomplete := by
  cases cut : f.incomplete <;>
    simp [Record.defaulted, record, get?_toJson, Fields.get?_ofList, cut, Json.bool?]

/-- The members of a form that are not written are read as what they are when absent. -/
theorem ofJson?_toJson {f : NodeForm} (kind : f.kind < UInt16.size) (counted : f.numChildren < UInt64.size)
    (plain : f.kind ≠ NodeKind.element → f.attrs = []) : ofJson? f.toJson = some f := by
  let r := f.record
  have fetch (place : Nat) (key : String) : r.fetch place key = f.toJson.get? key := rfl
  have actor : r.required 0 "actor" Json.string? = some f.actor := by
    simp [Record.required, fetch, get?_toJson, Fields.get?_ofList, Json.string?]
  have parent : r.defaulted 1 "parent" text? none = some f.parent := defaulted_text (by
    simp [fetch, get?_toJson, Fields.get?_ofList])
  have number : Json.word16? (.nat f.kind) = some f.kind := Json.boundedNat?_nat (Nat.le_pred_of_lt kind)
  have kind : r.defaulted 2 "nodeType" Json.word16? 0 = some f.kind := by
    simp [Record.defaulted, fetch, get?_toJson, Fields.get?_ofList, number]
  have space : r.defaulted 3 "namespaceURI" text? none = some f.space := by
    cases space : f.space <;>
      simp [Record.defaulted, fetch, get?_toJson, Fields.get?_ofList, space, Json.optional, text?,
        Json.nullableOf?, Json.string?]
  have name : r.defaulted 4 "nodeName" Json.string? "" = some f.name := by
    simp [Record.defaulted, fetch, get?_toJson, Fields.get?_ofList, Json.string?]
  have count : Json.word64? (.nat f.numChildren) = some f.numChildren :=
    Json.boundedNat?_nat (Nat.le_pred_of_lt counted)
  have numChildren : r.defaulted 5 "numChildren" Json.word64? 0 = some f.numChildren := by
    simp [Record.defaulted, fetch, get?_toJson, Fields.get?_ofList, count]
  have doctypeName : r.defaulted 6 "name" text? none = some f.doctypeName := defaulted_text (by
    simp [fetch, get?_toJson, Fields.get?_ofList])
  have publicId : r.defaulted 7 "publicId" text? none = some f.publicId := defaulted_text (by
    simp [fetch, get?_toJson, Fields.get?_ofList])
  have systemId : r.defaulted 8 "systemId" text? none = some f.systemId := defaulted_text (by
    simp [fetch, get?_toJson, Fields.get?_ofList])
  have attrs : r.defaulted 9 "attrs" (Json.listOf? Attribute.ofJson?) [] = some f.attrs := by
    have list : Json.listOf? Attribute.ofJson? (.arr (f.attrs.map Attribute.toJson)) = some f.attrs :=
      Json.listOf?_map fun a _ => Attribute.ofJson?_toJson a
    by_cases element : f.kind = NodeKind.element
    · simp [Record.defaulted, fetch, get?_toJson, Fields.get?_ofList, element, list]
    · simp [Record.defaulted, fetch, get?_toJson, Fields.get?_ofList, element, plain element]
  rw [ofJson?, record_toJson, Option.bind_eq_bind, Option.bind_some, actor, parent, kind, space, name, numChildren,
    doctypeName, publicId, systemId, attrs, f.record_shortValue, f.record_incomplete]
  rfl

end NodeForm

namespace Mutation

/-- A count of children that a reader takes. -/
def Counted : Mutation → Prop
  | childList _ _ _ count => count < UInt64.size
  | _ => True

theorem ofJson?_toJson {record : Mutation} (counted : record.Counted) : ofJson? record.toJson = some record := by
  cases record with
  | attributes target name space value =>
    cases space <;> cases value <;>
      simp [toJson, Json.object, ofJson?, Fields.get?_ofList, Json.string?, ofKind?, ofAttributes?, Record.ofJson?,
        Record.required, Record.defaulted, Record.nullable, Json.nullableOf?, Json.optional]
  | characterData target value incomplete =>
    cases incomplete <;>
      simp [toJson, Json.object, ofJson?, Fields.get?_ofList, Json.string?, ofKind?, ofCharacterData?,
        Record.ofJson?, Record.required, Record.defaulted, Json.bool?]
  | childList target added removed count =>
    have number : Json.word64? (.nat count) = some count := Json.boundedNat?_nat (Nat.le_pred_of_lt counted)
    simp [toJson, Json.object, ofJson?, Fields.get?_ofList, Json.string?, ofKind?, ofChildList?, Record.ofJson?,
      Record.required, names?, Json.listOf?_strings, number]
  | frameLoad target added removed =>
    simp [toJson, Json.object, ofJson?, Fields.get?_ofList, Json.string?, ofKind?, ofFrameLoad?, Record.ofJson?,
      Record.required, names?, Json.listOf?_strings]
  | documentUnload target =>
    simp [toJson, Json.object, ofJson?, Fields.get?_ofList, Json.string?, ofKind?, ofDocumentUnload?,
      Record.ofJson?, Record.required]

end Mutation

end RemoteInspector
