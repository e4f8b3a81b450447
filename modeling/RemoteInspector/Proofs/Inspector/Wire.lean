import RemoteInspector.Proofs.Inspector.Forms
import RemoteInspector.Proofs.Inspector.Knowledge
/-!
The form of a node as the client reads it: everything the walker wrote of the node, and nothing else.
-/
namespace RemoteInspector

namespace Walker

variable {s : Scene} {own name : String} {w : WalkerActor}

theorem known?_ref (live : s.walker? own = some w) (host : String) (node : NodeId) :
    ((ref own host node).after s).known? own node = some ((ref own host node).result s) := by
  cases known : s.known? own node with
  | some name =>
    obtain ⟨result, after⟩ := ref_of_known host known
    rw [result, after, known]
  | none =>
    obtain ⟨result, after⟩ := ref_of_unknown host known
    have here := Scene.walker?_eq_some.mp live
    rw [result, after, Scene.known?, Scene.walker?, enrol, Scene.find?_update]
    change (((Option.map _ ((Registry.add _ _).find? own)).bind _).bind _) = _
    rw [Registry.find?_add]
    change (((Option.map _ ((s.find? own).or _)).bind _).bind _) = _
    rw [here]
    simp [Actor.walker?, Table.get?_insert]

/-- The form of a node names its parent as the walker knows it once the form is written. -/
theorem result_form {actor : NodeActor} (live : s.node? name = some actor) :
    (form (some name)).result s = (NodeForm.ofInfo s.site.prefs.valueSummaryLength name
      ((Walk.visibleParent? (s.site.dom actor.host) actor.node).bind (((form (some name)).after s).known? actor.walker))
      ((s.site.dom actor.host).info? actor.node)).toJson := by
  have whole : (form (some name)).result s = .optional (((form? name).result s).map NodeForm.toJson) ∧
      (form (some name)).after s = (form? name).after s := ⟨rfl, rfl⟩
  rw [whole.1, whole.2]
  unfold form?
  simp only [Act.after_bind, Act.result_bind, Act.after_get, Act.result_get, live]
  cases walker : s.walker? actor.walker with
  | none =>
    have unknown (p : NodeId) : s.known? actor.walker p = none := by rw [Scene.known?, walker, Option.bind_none]
    cases Walk.visibleParent? (s.site.dom actor.host) actor.node with
    | none => rfl
    | some p =>
      change _ = (NodeForm.ofInfo _ name (s.known? actor.walker p) _).toJson
      rw [unknown]
      rfl
  | some w =>
    cases Walk.visibleParent? (s.site.dom actor.host) actor.node with
    | none => rfl
    | some p =>
      simp only [Act.after_bind, Act.result_bind, Act.after_pure, Act.result_pure, Option.map_some, Json.optional,
        Option.bind_some, known?_ref walker]

end Walker

namespace NodeForm

theorem summary_eq (limit : Nat) (value : Option String) :
    ((value.filter (· ≠ "")).map (summarize limit)).map Prod.fst =
        (value.filter (· ≠ "")).map (fun v => if limit < v.length then Text.take limit v else v) ∧
      (((value.filter (· ≠ "")).map (summarize limit)).map Prod.snd).getD false =
        value.any fun v => decide (limit < v.length) := by
  cases value with
  | none => exact ⟨rfl, rfl⟩
  | some v =>
    by_cases empty : v = ""
    · subst empty
      exact ⟨rfl, rfl⟩
    · by_cases long : limit < v.length <;> simp [Option.filter, empty, summarize, long]

/-- Records of changes are read as they were written, of whatever kind they are. So are the forms of nodes: they say of a
node what its host says, of its value no more than the limit allows, and name its parent as the walker knows it. -/
theorem wire_format :
    (∀ record : Mutation, record.Counted → Mutation.ofJson? record.toJson = some record) ∧
    ∀ (s : Scene) (name : String) (actor : NodeActor), s.node? name = some actor →
      let limit := s.site.prefs.valueSummaryLength
      let written := (Walker.form (some name)).result s
      let parent := (Walk.visibleParent? (s.site.dom actor.host) actor.node).bind
        (((Walker.form (some name)).after s).known? actor.walker)
      ((s.site.dom actor.host).info? actor.node = none →
        ofJson? written = some { actor := name, parent := parent }) ∧
      ∀ info, (s.site.dom actor.host).info? actor.node = some info →
        info.kind < UInt16.size → info.numChildren < UInt64.size →
        ofJson? written = some
          { actor := name
            parent := parent
            kind := info.kind
            space := info.space
            name := info.name
            numChildren := info.numChildren
            doctypeName := info.doctype.map (·.name)
            publicId := info.doctype.map (·.publicId)
            systemId := info.doctype.map (·.systemId)
            attrs := if info.kind = NodeKind.element then info.attrs else []
            shortValue := (info.value.filter (· ≠ "")).map fun v => if limit < v.length then Text.take limit v else v
            incomplete := info.value.any fun v => decide (limit < v.length) } := by
  refine ⟨fun record counted => Mutation.ofJson?_toJson counted, fun s name actor live => ?_⟩
  intro limit written parent
  have made : written = (ofInfo limit name parent ((s.site.dom actor.host).info? actor.node)).toJson :=
    Walker.result_form live
  refine ⟨fun gone => ?_, fun info there kind counted => ?_⟩
  · rw [made, gone]
    exact ofJson?_toJson (Nat.zero_lt_succ _) (Nat.zero_lt_succ _) fun _ => rfl
  · obtain ⟨short, cut⟩ := summary_eq limit info.value
    rw [made, there, ofJson?_toJson kind counted fun other => if_neg other, ← short, ← cut]
    rfl

/-- A text that is longer than its summary, and a record with as many children as can be counted. -/
theorem wire_format_long_text :
    let d : Dom := { nodes := [(1, { kind := NodeKind.document, children := [2] }),
      (2, { kind := NodeKind.text, name := "#text", value := some "abcde", parent := some 1 })] }
    let walker : WalkerActor := { host := "h", root := 1, known := [(1, "d"), (2, "t")] }
    let s : Scene := ⟨{ prefs := { valueSummaryLength := 3 }, hosts := [("h", { dom := d })] },
      { id := 0, registry := { entries := [⟨"w", none, .walker walker⟩, ⟨"t", some "w", .node ⟨"h", "w", 2, none⟩⟩] } }⟩
    s.node? "t" = some ⟨"h", "w", 2, none⟩ ∧
      ofJson? ((Walker.form (some "t")).result s) = some
        { actor := "t", parent := some "d", kind := NodeKind.text, name := "#text", shortValue := some "abc",
          incomplete := true } ∧
      Mutation.ofJson? (Mutation.childList "d" ["t"] [] (UInt64.size - 1)).toJson =
        some (.childList "d" ["t"] [] (UInt64.size - 1)) := by
  intro d walker s
  have live : s.node? "t" = some ⟨"h", "w", 2, none⟩ := rfl
  have form := (wire_format.2 s "t" _ live).2 _ rfl (by decide) (by decide)
  refine ⟨live, form.trans ?_, wire_format.1 _ (show UInt64.size - 1 < UInt64.size by decide)⟩
  simp only [s, d, walker]
  decide +kernel

end NodeForm

end RemoteInspector
