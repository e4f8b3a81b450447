import Mathlib.Data.String.Basic
import RemoteInspector.Proofs.Client.Agreement
import RemoteInspector.Proofs.Client.Contents
import RemoteInspector.Proofs.Double
/-!
The full text of a node: a client told of a text gives it back as it is, from what it was told or from the server,
unless it has changed since without a record.
-/
namespace RemoteInspector

def Dom.textOf (d : Dom) (n : NodeId) : String := ((d.info? n).bind (·.value)).getD ""

/-! ### What is told of a text -/

def NodeForm.Tells (f : NodeForm) (text : String) : Prop := f.incomplete = false → f.shortValue.getD "" = text

theorem summarize_complete {limit : Nat} {text : String} (complete : (summarize limit text).2 = false) :
    (summarize limit text).1 = text := by
  unfold summarize at complete ⊢
  split
  · rename_i cut
    rw [if_pos cut] at complete
    cases complete
  · rfl

theorem NodeForm.ofInfo_tells (limit : Nat) (actor : String) (parent : Option String) (d : Dom) (n : NodeId) :
    (NodeForm.ofInfo limit actor parent (d.info? n)).Tells (d.textOf n) := by
  unfold Dom.textOf
  cases d.info? n with
  | none => exact fun _ => rfl
  | some info =>
    rw [Option.bind_some]
    unfold NodeForm.Tells NodeForm.ofInfo
    dsimp only
    cases info.value with
    | none => exact fun _ => rfl
    | some text =>
      by_cases empty : text = ""
      · subst empty
        exact fun _ => rfl
      · simp only [Option.filter_some, empty, ne_eq, not_false_eq_true, decide_true, if_true, Option.map_some,
          Option.getD_some]
        exact summarize_complete

theorem NodeForm.text_of_ofJson? {f f' : NodeForm} (read : NodeForm.ofJson? f.toJson = some f') :
    f'.shortValue = f.shortValue ∧ f'.incomplete = f.incomplete := by
  rw [ofJson?, record_toJson, Option.bind_eq_bind, Option.bind_some, record_shortValue, record_incomplete] at read
  simp only [Option.bind_eq_bind, Option.bind_some, Option.bind_eq_some_iff] at read
  obtain ⟨_, -, _, -, _, -, _, -, _, -, _, -, _, -, _, -, _, -, _, -, same⟩ := read
  cases same
  exact ⟨rfl, rfl⟩

namespace Walker

theorem form?_tells {s : Scene} {x : String} {a : NodeActor} {f : NodeForm} (live : s.find? x = some (.node a))
    (made : (form? x).result s = some f) : f.Tells ((s.site.dom a.host).textOf a.node) := by
  have here : s.node? x = some a := by rw [Scene.node?, live]; rfl
  unfold form? at made
  simp only [Act.result_bind, Act.result_get, Act.after_get, here] at made
  generalize s.walker? a.walker = walker, Walk.visibleParent? (s.site.dom a.host) a.node = parent at made
  cases walker <;> cases parent <;> cases made <;> exact NodeForm.ofInfo_tells _ _ _ _ _

theorem record_tells {d : Dom} {limit : Nat} {w w' : WalkerActor} {n : NodeId} {x : String} {r : Mutation}
    (known : w.known.get? n = some x) (made : record d limit w (.characterData n) = (w', some r)) :
    ∃ value cut, r = .characterData x value cut ∧ (cut = false → value = d.textOf n) := by
  unfold record at made
  rw [show (Dom.Change.characterData n).target = n from rfl, known] at made
  cases made
  exact ⟨_, _, rfl, summarize_complete⟩

end Walker

namespace KnownTree

variable {x text : String} {m : KnownTree}

def Change.Silent (x : String) : Change → Prop
  | .form f => f.actor ≠ x
  | .records batch _ => ∀ r ∈ batch, ∀ value cut, r ≠ .characterData x value cut
  | .destroy _ => True

/-- The last that the client was told of the text of a node is what a walker told of it while it was that text: by
the form of the node, or by a record of a change. The client has heard of other things since, but it has not
forgotten the node. -/
inductive Told (x text : String) : KnownTree → Prop
  | form {m m' : KnownTree} {s : Scene} {a : NodeActor} {f : NodeForm} (live : s.find? x = some (.node a))
      (value : (s.site.dom a.host).textOf a.node = text) (made : (Walker.form? x).result s = some f)
      (read : m.read f.toJson = .ok (m', x)) : Told x text m'
  | record {m : KnownTree} {d : Dom} {limit : Nat} {w w' : WalkerActor} {n : NodeId} {r r' : Mutation}
      (known : w.known.get? n = some x) (value : d.textOf n = text)
      (made : Walker.record d limit w (.characterData n) = (w', some r))
      (read : Mutation.ofJson? r.toJson = some r') (there : m.knows x = true) : Told x text (m.applyRecord r').1
  | later {m : KnownTree} {c : Change} (told : Told x text m) (silent : c.Silent x)
      (there : (m.change c).knows x = true) : Told x text (m.change c)

theorem tells_foldl_told {f : NodeForm} (tells : f.Tells text) {batch : List Mutation}
    (silent : ∀ r ∈ batch, ∀ target value cut, r ≠ .characterData target value cut) :
    (batch.foldl told f).Tells text := by
  induction batch generalizing f with
  | nil => exact tells
  | cons r rest ih =>
    refine ih ?_ fun r member => silent r (List.mem_cons_of_mem _ member)
    cases r with
    | characterData target value cut => exact absurd rfl (silent _ List.mem_cons_self target value cut)
    | _ => exact tells

theorem Told.tells (told : Told x text m) : ∃ f, m.form? x = some f ∧ f.Tells text := by
  induction told with
  | @form m m' s a f live value made read =>
    unfold KnownTree.read at read
    cases decoded : NodeForm.ofJson? f.toJson with
    | none => rw [decoded] at read; cases read
    | some f' =>
      rw [decoded] at read
      cases read
      obtain ⟨short, cut⟩ := NodeForm.text_of_ofJson? decoded
      refine ⟨f', form?_readForm_self m f', ?_⟩
      rw [NodeForm.Tells, short, cut, ← value]
      exact Walker.form?_tells live made
  | @record m d limit w w' n r r' known value made read there =>
    obtain ⟨short, cut, rfl, tells⟩ := Walker.record_tells known made
    have decoded : Mutation.ofJson? (Mutation.characterData x short cut).toJson = _ :=
      Mutation.ofJson?_toJson trivial
    rw [decoded] at read
    cases read
    obtain ⟨f, found⟩ := knows_iff_form?.mp there
    have applied : (m.applyRecord (.characterData x short cut)).1.form? x =
        some { f with shortValue := some short, incomplete := cut } := by
      have read := form?_update m x x (fun n => { n with form := n.form.apply (.characterData x short cut) })
        (·.apply (.characterData x short cut)) fun _ => rfl
      rw [found] at read
      simpa [applyRecord, Mutation.target, there, NodeForm.apply] using read
    refine ⟨_, applied, fun complete => ?_⟩
    rw [Option.getD_some, tells complete, value]
  | @later m c told silent there ih =>
    obtain ⟨f, found, tells⟩ := ih
    have known : m.knows x = true := knows_iff_form?.mpr ⟨f, found⟩
    cases c with
    | form other =>
      have silent : other.actor ≠ x := silent
      exact ⟨f, (form?_readForm_other silent known).trans found, tells⟩
    | destroy name => exact ⟨f, (keeps_destroy m name x there).trans found, tells⟩
    | records batch cleanup =>
      have kept : (m.change (.records batch cleanup)).form? x = (m.applyRecords batch).1.form? x := by
        cases cleanup with
        | false => rfl
        | true => exact keeps_cleanUp _ x there
      have there : (m.applyRecords batch).1.knows x = true := by
        rw [knows_iff_form?, ← kept, ← knows_iff_form?]
        exact there
      refine ⟨_, kept.trans ((form?_applyRecords batch there).trans (congrArg _ found)), ?_⟩
      refine tells_foldl_told tells fun r member target value cut same => ?_
      obtain ⟨member, about⟩ := List.mem_filter.mp member
      subst same
      exact silent _ member value cut (congrArg (Mutation.characterData · value cut) (of_decide_eq_true about))

end KnownTree

/-! ### Long strings -/

namespace LongString

variable {s : Scene} {text : String}

theorem grip_short (owner : String) (short : (StringLimits.ofPrefs s.site.prefs).isLong text = false) :
    (grip owner text).result s = .str text ∧ (grip owner text).after s = s := by
  simp only [grip, Act.result_bind, Act.after_bind, Act.result_get, Act.after_get, short]
  exact ⟨rfl, rfl⟩

theorem grip_long (owner : String) (long : (StringLimits.ofPrefs s.site.prefs).isLong text = true) :
    (grip owner text).result s = .object [("type", .str "longString"),
        ("actor", .str (s.conn.registry.newName s.conn.id "longString")), ("length", .nat text.length),
        ("initial", .str ((StringLimits.ofPrefs s.site.prefs).initial text))] ∧
      (grip owner text).after s = (Act.register "longString" owner (.longString text)).after s := by
  simp only [grip, Act.result_bind, Act.after_bind, Act.result_get, Act.after_get, long]
  exact ⟨rfl, rfl⟩

theorem offset_nat {packet : Fields} {key : String} {n : Nat} (given : packet.get? key = some (.nat n))
    (small : n < 2 ^ 53) : offset packet key = .ok n := by
  rw [offset, given]
  change Except.ok (min (Double.ofInt n).truncate.toNat _) = _
  rw [Double.ofInt_natCast, Double.truncate_ofNat small, Int.toNat_natCast]
  exact congrArg _ (Nat.min_eq_left (Nat.le_of_lt (Nat.lt_of_lt_of_le small (by decide))))

theorem slice_all (text : String) : slice text 0 text.length = text := by
  rw [slice, List.drop_zero, Nat.sub_zero, ← String.length_toList, List.take_length, String.ofList_toList]

end LongString

theorem Front.write_bare {f : Front} {m : Method} (found : f.schema.method? m.name = some m)
    (bare : m.request = []) :
    f.write m.name [] = .ok (Fields.ofList [("to", .str f.actor), ("type", .str m.name)]) := by
  simp only [write, found, Method.write, Method.check, bare]
  rfl

theorem Front.write_substring (name : String) (n : Nat) :
    (⟨name, Schema.longString⟩ : Front).write "substring"
        (arguments [("start", some (.nat 0)), ("end", some (.nat n))]) =
      .ok [("end", .nat n), ("start", .nat 0), ("to", .str name), ("type", .str "substring")] := by
  refine Link.Quiet.write_of_method (m := ⟨"substring", [Schema.arg "start" .number, Schema.arg "end" .number],
    [("substring", .string)], false⟩) rfl ?_
  simp [-String.lt_iff_ltb, Method.write, Method.check, Parameter.check, Schema.arg, Shape.write, Shape.accepts,
    arguments, Fields.ofList, Fields.insert, Table.insertBy, Fields.get?, Table.get?, Json.nat]
  rfl

namespace Scene

variable {s : Scene} {name owner text : String}

theorem release_longString (found : s.find? name = some (.longString text))
    (childless : s.conn.registry.children name = []) : s.release name = s.setRegistry (·.remove name) := by
  rw [release, Registry.releaseOrder_childless childless, List.foldl_cons, List.foldl_nil, releaseOne, found]
  rfl

/-- A long string that was just kept owns nothing, and without it all is as it was, but for the count of names. -/
theorem longString_kept (text : String) (valid : s.Valid) (few : s.conn.registry.next < UInt32.size)
    {actor : Actor} (live : s.find? owner = some actor) :
    let name := s.conn.registry.newName s.conn.id "longString"
    let t := (Act.register "longString" owner (.longString text)).after s
    t.find? name = some (.longString text) ∧ t.conn.registry.children name = [] ∧
      t.setRegistry (·.remove name) = s.setRegistry fun r => { r with next := r.next + 1 } := by
  intro name t
  have fresh : s.find? name = none := find?_newName valid few (by decide)
  have absent : name ∉ s.conn.registry.names := Registry.find?_eq_none.mp fresh
  have other : owner ≠ name := by
    rintro rfl
    rw [fresh] at live
    cases live
  have entries : t.conn.registry.entries = s.conn.registry.entries ++ [⟨name, some owner, .longString text⟩] := rfl
  refine ⟨?_, ?_, ?_⟩
  · rw [find?_register owner _ fresh, if_pos rfl]
  · have before := valid.childless fresh
    rw [Registry.children, List.map_eq_nil_iff] at before ⊢
    rw [entries, List.filter_append, before]
    simp [other]
  · have names : (t.conn.registry.entries.filter (·.name ≠ name)) = s.conn.registry.entries := by
      rw [entries, List.filter_append, List.filter_eq_self.mpr]
      · simp
      · intro e member
        exact decide_eq_true fun same => absent (same ▸ List.mem_map_of_mem member)
    have scripts : (t.conn.registry.scripts.filter (·.2 ≠ name)) = s.conn.registry.scripts := by
      refine List.filter_eq_self.mpr fun p member => decide_eq_true fun same => ?_
      obtain ⟨e, registered, named, -⟩ := valid.scripts p member
      exact absent (same ▸ named ▸ List.mem_map_of_mem registered)
    simp only [setRegistry, setConn, Registry.remove, names, scripts]
    rfl

end Scene

/-! ### Asking for a text -/

namespace Link.Quiet

variable {l : Link ServerEnd} {s : Scene} {owner text : String}

theorem nodeValue (quiet : l.Quiet s) {x : String} {a : NodeActor} (live : s.find? x = some (.node a)) :
    let grip := LongString.grip x ((s.site.dom a.host).textOf a.node)
    ∃ reply, Trial.result (Front.call ⟨x, Schema.node⟩ "getNodeValue" []) l = .ok reply ∧
      reply.get? "value" = some (grip.result s) ∧
      (Trial.after (Front.call ⟨x, Schema.node⟩ "getNodeValue" []) l).Quiet (grip.after s) := by
  intro grip
  have written := Front.write_bare (f := ⟨x, Schema.node⟩) (m := ⟨"getNodeValue", [], [("value", .actor "longstring")], false⟩)
    rfl rfl
  have taken : Request.Taken s (l.numbered (Fields.ofList [("to", .str x), ("type", .str "getNodeValue")])) x (.node a)
      ⟨"getNodeValue", [], [("value", .actor "longstring")], false⟩ (do return [("value", ← grip)]) := by
    refine ⟨?_, live, ⟨"getNodeValue", ?_, rfl⟩, rfl⟩
    · rw [get?_numbered_ne (by decide), Fields.get?_ofList]
      rfl
    · rw [get?_numbered_ne (by decide), Fields.get?_ofList]
      rfl
  have mail : (grip.after s).site.mail = [] := by
    refine Eq.trans ?_ quiet.mail
    cases long : (StringLimits.ofPrefs s.site.prefs).isLong ((s.site.dom a.host).textOf a.node) with
    | false => rw [(LongString.grip_short x long).2]
    | true => rw [(LongString.grip_long x long).2]; rfl
  obtain ⟨reply, result, sent, still⟩ := quiet.call_taken written taken rfl rfl mail
  refine ⟨reply, result, ?_, still⟩
  rw [sent "value" (by decide) (by decide)]
  rfl

theorem substring (quiet : l.Quiet s) {name : String} (live : s.find? name = some (.longString text))
    (short : text.length < 2 ^ 53) :
    let arguments := Front.arguments [("start", some (.nat 0)), ("end", some (.nat text.length))]
    ∃ reply, Trial.result (Front.call ⟨name, Schema.longString⟩ "substring" arguments) l = .ok reply ∧
      reply.get? "substring" = some (.str text) ∧
      (Trial.after (Front.call ⟨name, Schema.longString⟩ "substring" arguments) l).Quiet s := by
  intro arguments
  have written := Front.write_substring name text.length
  let packet : Fields := [("end", .nat text.length), ("start", .nat 0), ("to", .str name), ("type", .str "substring")]
  let method : Method := ⟨"substring", [Schema.arg "start" .number, Schema.arg "end" .number],
    [("substring", .string)], false⟩
  have get? {key : String} (other : key ≠ "requestId") : (l.numbered packet).get? key = packet.get? key :=
    get?_numbered_ne other
  have decided : LongString.decide text "substring" (l.numbered packet) = .ok (pure [("substring", .str text)]) := by
    have first : LongString.offset (l.numbered packet) "start" = .ok 0 :=
      LongString.offset_nat (get? (by decide)) (by decide)
    have last : LongString.offset (l.numbered packet) "end" = .ok text.length :=
      LongString.offset_nat (get? (by decide)) short
    simp only [LongString.decide, first, last]
    change Except.ok (pure [("substring", Json.str (LongString.slice text 0 text.length))]) = _
    rw [LongString.slice_all]
  have taken : Request.Taken s (l.numbered packet) name (.longString text) method (pure [("substring", .str text)]) :=
    ⟨get? (by decide), live, ⟨"substring", get? (by decide), rfl⟩, decided⟩
  obtain ⟨reply, result, sent, still⟩ := quiet.call_taken written taken rfl rfl quiet.mail
  refine ⟨reply, result, ?_, still⟩
  rw [sent "substring" (by decide) (by decide)]
  rfl

theorem releaseText (quiet : l.Quiet s) {name : String} (live : s.find? name = some (.longString text))
    (childless : s.conn.registry.children name = []) :
    ∃ reply, Trial.result (Front.call ⟨name, Schema.longString⟩ "release" []) l = .ok reply ∧
      (Trial.after (Front.call ⟨name, Schema.longString⟩ "release" []) l).Quiet (s.setRegistry (·.remove name)) := by
  have written := Front.write_bare (f := ⟨name, Schema.longString⟩) (m := Schema.releaseMethod) rfl rfl
  have taken : Request.Taken s (l.numbered (Fields.ofList [("to", .str name), ("type", .str "release")])) name
      (.longString text) Schema.releaseMethod (pure []) := by
    refine ⟨?_, live, ⟨"release", ?_, rfl⟩, rfl⟩
    · rw [get?_numbered_ne (by decide), Fields.get?_ofList]
      rfl
    · rw [get?_numbered_ne (by decide), Fields.get?_ofList]
      rfl
  have gone (packet : Json) : (s.write packet).release name = (s.setRegistry (·.remove name)).write packet := by
    have written : s.write packet = s.setConn fun c => { c with sent := c.sent ++ [packet] } := by
      rw [Scene.write, quiet.up]
    have there : (s.write packet).find? name = some (.longString text) := by rw [written]; exact live
    have alone : (s.write packet).conn.registry.children name = [] := by rw [written]; exact childless
    rw [Scene.release_longString there alone, written, Scene.write,
      show (s.setRegistry (·.remove name)).conn.line = .up from quiet.up]
    rfl
  obtain ⟨reply, result, -, still⟩ := quiet.call_released (t := s.setRegistry (·.remove name)) written taken rfl rfl
    ⟨rfl, rfl, rfl, rfl⟩ quiet.mail gone
  exact ⟨reply, result, still⟩

theorem fullText_longString (name initial : String) (n : Nat) :
    (RemoteInspector.fullText (.object [("type", .str "longString"), ("actor", .str name), ("length", .nat n),
        ("initial", .str initial)]) : Calling ServerEnd String) = (do
      let front : Front := ⟨name, Schema.longString⟩
      let reply ← front.call "substring" (Front.arguments [("start", some (.nat 0)), ("end", some (.nat n))])
      let _ ← front.call "release" []
      match (Fields.get? reply "substring").bind Json.string? with
      | some text => return text
      | none => throw (.malformed .noSubstring)) := by
  let form := Json.object [("type", .str "longString"), ("actor", .str name), ("length", .nat n),
    ("initial", .str initial)]
  have member (key : String) : form.get? key = (Fields.ofList [("type", .str "longString"), ("actor", .str name),
    ("length", .nat n), ("initial", .str initial)]).get? key := rfl
  have type : form.getString? "type" = some "longString" := by
    simp [Json.getString?, member, Fields.get?_ofList, Json.string?]
  have actor : form.getString? "actor" = some name := by
    simp [Json.getString?, member, Fields.get?_ofList, Json.string?]
  have length : form.getNatural? "length" = some n := by
    simp [Json.getNatural?, member, Fields.get?_ofList, Json.nat, Json.natural?]
  have front : Front.ofForm form "longstring" = .ok ⟨name, Schema.longString⟩ := by
    rw [Front.ofForm, actor]
    rfl
  change RemoteInspector.fullText form = _
  simp only [RemoteInspector.fullText, type, front, length]
  rfl

theorem fullText (quiet : l.Quiet ((LongString.grip owner text).after s))
    (valid : s.Valid) (few : s.conn.registry.next < UInt32.size)
    {actor : Actor} (live : s.find? owner = some actor) (short : text.length < 2 ^ 53) :
    let read := RemoteInspector.fullText ((LongString.grip owner text).result s)
    Trial.result read l = .ok text ∧
      ∃ next, (Trial.after read l).Quiet (s.setRegistry fun r => { r with next := next }) := by
  intro read
  cases long : (StringLimits.ofPrefs s.site.prefs).isLong text with
  | false =>
    obtain ⟨result, after⟩ := LongString.grip_short owner long
    rw [after] at quiet
    simp only [read, result]
    exact ⟨rfl, s.conn.registry.next, quiet⟩
  | true =>
    obtain ⟨result, after⟩ := LongString.grip_long owner long
    obtain ⟨found, childless, left⟩ := Scene.longString_kept text valid few live
    rw [after] at quiet
    simp only [read, result, fullText_longString]
    obtain ⟨reply, fetched, whole, still⟩ := quiet.substring found short
    obtain ⟨_, freed, still⟩ := still.releaseText found childless
    rw [left] at still
    rw [(Trial.bind_ok fetched).1, (Trial.bind_ok fetched).2, (Trial.bind_ok freed).1, (Trial.bind_ok freed).2]
    simp only [whole]
    exact ⟨rfl, _, still⟩

end Link.Quiet

/-! ### Texts as a whole -/

namespace WalkerFront

variable {c : Connection} {v : Walking ServerEnd} {x text : String} {a : NodeActor}

/-- Whatever the connection has gone through and whatever the limits of texts are: a client that was told of a text
while it was what it is now gets the whole text, if it is of fewer than `2 ^ 53` characters. Nothing changes by that
but the count of names, so no long string is left. -/
theorem told_text_whole (begun : Serve.Begun c) (turns : List Serve.Turn) (site : Site)
    (few : (turns.foldl Serve.take c).registry.next < UInt32.size)
    (quiet : v.link.Quiet ⟨site, turns.foldl Serve.take c⟩)
    (live : (turns.foldl Serve.take c).registry.find? x = some (.node a))
    (value : (site.dom a.host).textOf a.node = text) (short : text.length < 2 ^ 53)
    (told : v.walker.tree.Told x text) :
    Trial.result (WalkerCall.getNodeValue x) v = .ok text ∧
      ∃ l next, Trial.after (WalkerCall.getNodeValue x) v = { v with link := l } ∧
        l.Quiet (Scene.setRegistry ⟨site, turns.foldl Serve.take c⟩ fun r => { r with next := next }) := by
  have before := Serve.foldl_take_later c turns
  have started : c.Few := Nat.le_trans before.later few.le
  have valid := (before.sound few.le (Serve.sound_of_begun begun started)).1.valid
  obtain ⟨f, found, tells⟩ := told.tells
  obtain ⟨n, known, rfl⟩ := Option.map_eq_some_iff.mp found
  have looked : Trial.result (get : WalkerCall ServerEnd (Walking ServerEnd)) v = .ok v := rfl
  rw [WalkerCall.getNodeValue, (Trial.bind_ok looked).1, (Trial.bind_ok looked).2,
    show Trial.after (get : WalkerCall ServerEnd (Walking ServerEnd)) v = v from rfl]
  simp only [known]
  cases cut : n.form.incomplete with
  | false =>
    have told : Except.ok (ε := ClientError) (n.form.shortValue.getD "") = .ok text := congrArg _ (tells cut)
    exact ⟨told, v.link, _, rfl, quiet⟩
  | true =>
    obtain ⟨reply, asked, form, still⟩ := quiet.nodeValue (x := x) live
    rw [value] at form still
    obtain ⟨read, next, still⟩ := still.fullText valid few live short
    let ask : Calling ServerEnd Fields := Front.call ⟨x, Schema.node⟩ "getNodeValue" []
    let fetch (reply : Fields) : WalkerCall ServerEnd String :=
      WalkerCall.onLink (fullText ((Fields.get? reply "value").getD .null))
    have answered := (WalkerCall.trial_onLink ask v).1.trans asked
    change Trial.result (WalkerCall.onLink ask >>= fetch) v = _ ∧
      ∃ l next, Trial.after (WalkerCall.onLink ask >>= fetch) v = _ ∧ _
    rw [(Trial.bind_ok answered).1, (Trial.bind_ok answered).2, (WalkerCall.trial_onLink ask v).2]
    simp only [fetch, form, Option.getD_some]
    rw [(WalkerCall.trial_onLink _ _).1, (WalkerCall.trial_onLink _ _).2]
    exact ⟨read, _, next, rfl, still⟩

namespace Reading

def page (value : String) : Dom :=
  { nodes :=
      [(1, { kind := 9, children := [2] }), (2, { kind := 1, parent := some 1, children := [3] }),
        (3, { kind := 3, value := some value, parent := some 2 })] }

def site : Site :=
  { Serve.onePage (page "naïve 🦀") with
    prefs := { valueSummaryLength := 2, longStringLength := 4, longStringInitialLength := 1 } }

/-- The client asks for the document element and for the text in it. -/
def turns : List Serve.Turn :=
  [⟨site, .packet (.obj [("to", .str "conn0.inspector1"), ("type", .str "getWalker")])⟩,
    ⟨site, .packet (.obj [("to", .str "conn0.domwalker5"), ("type", .str "documentElement")])⟩,
    ⟨site, .packet (.obj [("node", .str "conn0.domnode7"), ("to", .str "conn0.domwalker5"), ("type", .str "children")])⟩,
    ⟨site, .told⟩]

def scene : Scene := ⟨site, turns.foldl Serve.take (Serve.joined site)⟩

def form : NodeForm := ((Walker.form? "conn0.domnode8").result scene).getD { actor := "" }

def client : Walking ServerEnd where
  walker := { front := ⟨"conn0.domwalker5", Schema.walker⟩, channel := 0, tree := KnownTree.readForm {} form }
  link := ⟨{ greeting := [] }, ⟨{ site := site, tabs := [(7, 0)], connections := [scene.conn] }, 0⟩⟩

end Reading

/-- A text that is cut in the form of its node, and long, is fetched as a whole. -/
theorem told_text_whole_cut : Reading.form.incomplete = true ∧
    (StringLimits.ofPrefs Reading.site.prefs).isLong "naïve 🦀" = true ∧
    Trial.result (WalkerCall.getNodeValue "conn0.domnode8") Reading.client = .ok "naïve 🦀" := by
  have live : Reading.scene.find? "conn0.domnode8" = some (.node ⟨"host", "conn0.domwalker5", 3, none⟩) :=
    Scene.node?_eq_some.mp (by decide +kernel)
  have quiet : Reading.client.link.Quiet Reading.scene :=
    ⟨rfl, rfl, by decide +kernel, by decide +kernel, List.isEmpty_iff.mp (by decide +kernel), rfl, rfl⟩
  have told : Reading.client.walker.tree.Told "conn0.domnode8" "naïve 🦀" := by
    refine .form (m := {}) (f := Reading.form) live (by decide +kernel) (by decide +kernel) ?_
    rw [KnownTree.read, NodeForm.ofJson?_toJson (by decide +kernel) (by decide +kernel) (by decide +kernel)]
    rfl
  refine ⟨by decide +kernel, by decide +kernel, ?_⟩
  exact (told_text_whole ⟨Reading.site, 0, .up, [(7, 0)], rfl⟩ Reading.turns Reading.site (by decide +kernel) quiet live
    (by decide +kernel) (by decide) told).1

/-- A text changes, its node is taken out, and the text changes again, of which there is no record. The client, which
hears of the first change only then, gives the text back as it was in between. -/
theorem text_changed_after_record :
    ∃ (l : Link ServerEnd) (s : Scene) (d : Dom) (front : WalkerFront) (steps : List Step),
    l.Fresh s "conn0.inspector1" d ∧ Trial.result (ofInspector "conn0.inspector1") l = .ok front ∧
    let v := followed l "conn0.inspector1" front steps
    let w := (Step.fetch false).after v
    (v.link.peer.server.site.dom "host").textOf 3 = "v" ∧
      (Trial.result (WalkerCall.getMutations false) v).toOption =
        some [.characterData "conn0.domnode8" "x" false, .childList "conn0.domnode7" [] ["conn0.domnode8"] 0] ∧
      (w.link.peer.server.site.dom "host").textOf 3 = "v" ∧
      (Trial.result (WalkerCall.getNodeValue "conn0.domnode8") w).toOption = some "x" := by
  let steps : List Step := [.call (.documentElement none), .call (.children "conn0.domnode7" {}),
    .edit "host" (.text 3 (some "x")), .edit "host" (.remove 3), .edit "host" (.text 3 (some "v"))]
  obtain ⟨front, opened, fits⟩ := Opening.passes (l := Opening.link (Reading.page "a")) (p := fun front =>
    let v := followed (Opening.link (Reading.page "a")) "conn0.inspector1" front steps
    let w := (Step.fetch false).after v
    decide ((v.link.peer.server.site.dom "host").textOf 3 = "v") &&
      decide ((Trial.result (WalkerCall.getMutations false) v).toOption = some
        [.characterData "conn0.domnode8" "x" false, .childList "conn0.domnode7" [] ["conn0.domnode8"] 0]) &&
      decide ((w.link.peer.server.site.dom "host").textOf 3 = "v") &&
      decide ((Trial.result (WalkerCall.getNodeValue "conn0.domnode8") w).toOption = some "x"))
    (by decide +kernel)
  simp only [Bool.and_eq_true, decide_eq_true_eq] at fits
  obtain ⟨⟨⟨before, records⟩, after⟩, given⟩ := fits
  exact ⟨_, _, _, front, steps, Opening.fresh (by decide +kernel), opened, before, records, after, given⟩

end WalkerFront

end RemoteInspector
