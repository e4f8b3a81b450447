import RemoteInspector.Inspector.Walker
import RemoteInspector.Proofs.Dom.Loops
import RemoteInspector.Proofs.Serve.Refusals
/-!
Pages as windows of what is visible below a node. Below a node that the filter hides, and in trees without a document,
the walk does not end with the visible children.
-/
namespace RemoteInspector

def Dom.Words (d : Dom) : Prop := ∀ e ∈ d.nodes, e.1 < UInt64.size

instance (d : Dom) : Decidable d.Words := inferInstanceAs (Decidable (∀ e ∈ d.nodes, e.1 < UInt64.size))

/-- The visible children of a node: the document loaded there alone, or its children but for blank text. -/
def Dom.visibleRow (d : Dom) (n : NodeId) : List NodeId :=
  match d.contentDocument? n with
  | some doc => [doc]
  | none => (d.children n).filter fun c => !(d.info? c).elim false NodeInfo.isBlankText

namespace NodePage

variable {all : List NodeId}

open Dom Walk

variable {d : Dom} {f : Filter} {n c doc : NodeId} {nodes before after : List NodeId} {maxNodes : Nat}

/-! ### Lists that walks go along -/

/-- From each node of the list a walk goes along the list, either way, and ends with it. -/
def Strip (d : Dom) (f : Filter) (nodes : List NodeId) : Prop :=
  ∀ before c after, nodes = before ++ c :: after → ∀ way count,
    (steps d way (start d f c) count).1 = (ahead way before after).take count

theorem Strip.of_level (tree : d.Consistent) (owner : d.documentOf? n = some doc)
    (stops : n = doc ∨ shown d f n = true) : Strip d f (level d f n) := by
  intro before c after line way count
  have exposed : Exposed d f n c := (mem_level tree).mp (by simp [line])
  have owner' : d.documentOf? c = some doc := (tree.documentOf?_within exposed.below.within).trans owner
  rw [start_of_document owner']
  exact steps_eq (w := ⟨doc, f, c⟩) tree line (tree.within_document owner).2 stops _ count

theorem Strip.of_document (tree : d.Consistent) (document : d.isDocument doc = true) : Strip d f [doc] := by
  intro before c after line way count
  obtain ⟨rfl, rfl, rfl⟩ : before = [] ∧ c = doc ∧ after = [] := by
    cases before with
    | nil => simpa [eq_comm] using line
    | cons x before => simp at line
  rw [start_of_document (tree.documentOf?_document document), steps_of_root _ _ rfl]
  cases way <;> simp [ahead]

theorem forward_eq (strip : Strip d f nodes) (line : nodes = before ++ c :: after) (maxNodes : Nat) :
    forward d (start d f c) maxNodes = (c :: after).take maxNodes := by
  cases maxNodes with
  | zero => rfl
  | succ count =>
    rw [forward, strip before c after line .forward count]
    rfl

theorem around_eq (strip : Strip d f nodes) (line : nodes = before ++ c :: after) (maxNodes : Nat) :
    around d (start d f c) maxNodes =
      let rest := maxNodes - min (maxNodes / 2) before.length
      let from_on := (c :: after).take rest
      before.drop (before.length - (maxNodes / 2 + (rest - from_on.length))) ++ from_on := by
  have back (count : Nat) : (steps d .backward (start d f c) count).1 = before.reverse.take count :=
    strip before c after line .backward count
  have half : (steps d .backward (start d f c) (maxNodes / 2)).1.length = min (maxNodes / 2) before.length := by
    rw [back, List.length_take, List.length_reverse]
  rw [around]
  simp only [half, forward_eq strip line]
  rw [← List.reverse_append, ← steps_add, back, List.take_reverse, List.reverse_reverse]

/-! ### Runs of a list -/

/-- The smaller of a limit, if there is one, and a count. -/
def upTo (limit : Option Nat) (count : Nat) : Nat := limit.elim count (min · count)

/-- A run of a list around its node at `i`: as long as the limit allows, with half the limit before the
node, or more where fewer than the other half are left from the node on. -/
def Centred (all : List NodeId) (limit : Option Nat) (i : Nat) (nodes : List NodeId) : Prop :=
  ∃ first, nodes = (all.drop first).take (upTo limit all.length) ∧
    first + upTo limit all.length ≤ all.length ∧ first ≤ i ∧ i < first + upTo limit all.length ∧
    (i - first = upTo (limit.map (· / 2)) i ∨
      upTo (limit.map (· / 2)) i < i - first ∧ ∃ m ∈ limit, all.length - i < m - min i (m / 2))

/-- The flags of a page say whether it holds the first and the last of a list; of an empty list it does. -/
structure Ends (all : List NodeId) (page : NodePage) : Prop where
  first : page.hasFirst = true ↔ all = [] ∨ ∃ x ∈ all.head?, x ∈ page.nodes
  last : page.hasLast = true ↔ all = [] ∨ ∃ x ∈ all.getLast?, x ∈ page.nodes

theorem head_of_run (nodup : all.Nodup) (run : nodes <:+: all) (some_nodes : nodes ≠ []) :
    nodes.head? = all.head? ↔ ∃ x ∈ all.head?, x ∈ nodes := by
  obtain ⟨before, after, rfl⟩ := run
  obtain ⟨y, rest, rfl⟩ := List.exists_cons_of_ne_nil some_nodes
  cases before with
  | nil => simp
  | cons x before =>
    -- The first of all is before the run, so it is not in it.
    have apart : x ∉ y :: rest := fun member => by
      rw [List.append_assoc, List.cons_append, List.nodup_cons] at nodup
      exact nodup.1 (List.mem_append_right _ (List.mem_append_left _ member))
    simp only [List.head?_cons, List.cons_append, Option.some.injEq, Option.mem_def, exists_eq_left']
    exact ⟨fun same => absurd (same ▸ List.mem_cons_self) apart, fun member => absurd member apart⟩

theorem Ends.of_run (nodup : all.Nodup) (run : nodes <:+: all) (some_nodes : nodes ≠ []) :
    Ends all ⟨nodes.head? == all.head?, nodes.getLast? == all.getLast?, nodes⟩ := by
  have nonempty : all ≠ [] := fun empty => some_nodes (List.infix_nil.mp (empty ▸ run))
  have back := head_of_run (List.nodup_reverse.mpr nodup) (List.reverse_infix.mpr run)
    (List.reverse_ne_nil_iff.mpr some_nodes)
  constructor
  · rw [beq_iff_eq, head_of_run nodup run some_nodes, or_iff_right nonempty]
  · rw [beq_iff_eq, or_iff_right nonempty]
    simpa only [List.head?_reverse, List.mem_reverse] using back

theorem run_infix (all : List NodeId) (first count : Nat) : (all.drop first).take count <:+: all :=
  (List.take_prefix _ _).isInfix.trans (List.drop_suffix _ _).isInfix

theorem around_run (strip : Strip d f all) (line : all = before ++ c :: after) (positive : 0 < maxNodes) :
    ∃ first, around d (start d f c) maxNodes = (all.drop first).take (min maxNodes all.length) ∧
      first + min maxNodes all.length ≤ all.length ∧ first ≤ before.length ∧
      before.length < first + min maxNodes all.length ∧
      (before.length - first = min before.length (maxNodes / 2) ∨
        min before.length (maxNodes / 2) < before.length - first ∧
          all.length - before.length < maxNodes - min before.length (maxNodes / 2)) := by
  have size : all.length = before.length + (after.length + 1) := by rw [line]; simp
  rw [around_eq strip line]
  simp only [List.length_take, List.length_cons]
  generalize shift : before.length - (maxNodes / 2 + (maxNodes - min (maxNodes / 2) before.length -
    min (maxNodes - min (maxNodes / 2) before.length) (after.length + 1))) = first
  have early : first ≤ before.length := by omega
  have fits : before.length - first ≤ min maxNodes all.length := by omega
  refine ⟨first, ?_, by omega, early, by omega, by omega⟩
  have left : (before.drop first).take (min maxNodes all.length) = before.drop first :=
    List.take_of_length_le (by simpa using fits)
  have right : (c :: after).take (min maxNodes all.length - (before.length - first)) =
      (c :: after).take (maxNodes - min (maxNodes / 2) before.length) := by
    rw [List.take_eq_take_iff, List.length_cons]
    omega
  conv_rhs => rw [line, List.drop_append_of_le_length early, List.take_append, ← line, left, List.length_drop, right]

/-! ### Limits -/

def limit (packet : Fields) : Option Nat := ((packet.get? "maxNodes").bind Json.natural?).filter (0 < ·)

theorem pageOptions_eq {s : Scene} {packet : Fields} {o : PageOptions} (given : Walker.pageOptions s packet = .ok o) :
    o.maxNodes = (limit packet).getD unlimited ∧ o.filter = Walker.filterArgument packet := by
  obtain ⟨center, -, given⟩ := Decision.bind_ok given
  obtain ⟨start, -, given⟩ := Decision.bind_ok given
  cases given
  refine ⟨?_, rfl⟩
  rw [limit]
  cases (packet.get? "maxNodes").bind Json.natural? with
  | none => rfl
  | some m => cases m <;> rfl

theorem limit_positive {packet : Fields} {m : Nat} (limited : limit packet = some m) : 0 < m := by
  simpa using (Option.filter_eq_some_iff.mp limited).2

theorem length_level_le_unlimited (tree : d.Consistent) (words : d.Words) (f : Filter) (n : NodeId) :
    (level d f n).length ≤ unlimited := by
  cases line : level d f n with
  | nil => exact Nat.zero_le _
  | cons first rest =>
    have exposed : ∀ x ∈ first :: rest, Exposed d f n x := fun x member => (mem_level tree).mp (line ▸ member)
    have nodup : (n :: first :: rest).Nodup :=
      List.nodup_cons.mpr ⟨fun self => Below.irrefl tree n (exposed n self).below, line ▸ level_nodup tree f n⟩
    have word : ∀ x ∈ d.nodes.keys, x ∈ List.range UInt64.size := fun x key => by
      obtain ⟨node, found⟩ := Table.mem_keys_iff.mp key
      exact List.mem_range.mpr (words (x, node) (tree.mem_nodes.mpr found))
    have listed : n :: first :: rest ⊆ List.range UInt64.size := fun x member => by
      rcases List.mem_cons.mp member with rfl | below
      · obtain ⟨c, parent, -⟩ := (exposed first List.mem_cons_self).below.cases_child
        exact word x (key_of_child (tree.parent_iff.mp parent))
      · exact word x (exposed x below).below.mem_keys
    have short := (nodup.subperm listed).length_le
    rw [List.length_range, List.length_cons] at short
    exact Nat.le_sub_one_of_lt short

theorem split_at {i : Nat} (found : all[i]? = some c) :
    ∃ before after, all = before ++ c :: after ∧ before.length = i := by
  obtain ⟨inside, rfl⟩ := List.getElem?_eq_some_iff.mp found
  refine ⟨all.take i, all.drop (i + 1), ?_, by simp; omega⟩
  rw [← List.drop_eq_getElem_cons inside, List.take_append_drop]

theorem upTo_eq {limit : Option Nat} {count : Nat} (short : count ≤ unlimited) :
    upTo limit count = min (limit.getD unlimited) count := by
  cases limit with
  | none => exact (Nat.min_eq_right short).symm
  | some m => rfl

theorem limit_getD_positive {limit : Option Nat} (positive : ∀ m ∈ limit, 0 < m) : 0 < limit.getD unlimited := by
  cases limit with
  | none => decide
  | some m => exact positive m rfl

theorem Centred.of_around {limit : Option Nat} (strip : Strip d f all) (line : all = before ++ c :: after)
    (positive : ∀ m ∈ limit, 0 < m) (short : all.length ≤ unlimited) :
    Centred all limit before.length (around d (start d f c) (limit.getD unlimited)) := by
  obtain ⟨first, run, inside, early, late, ahead⟩ := around_run strip line (limit_getD_positive positive)
  rw [← upTo_eq short] at run inside late
  refine ⟨first, run, inside, early, late, ?_⟩
  cases limit with
  | none =>
    -- Without a limit the run is the whole list.
    have whole : first = 0 := by
      rw [upTo, Option.elim_none] at inside
      omega
    exact .inl (by rw [whole]; rfl)
  | some m =>
    rw [Option.getD_some] at ahead
    rw [Option.map_some, upTo, Option.elim_some, Nat.min_comm]
    exact ahead.imp_right fun ⟨more, few⟩ => ⟨more, m, rfl, few⟩

/-! ### Children -/

theorem edge?_current (tree : d.Consistent) (f : Filter) (way : Way) (n : NodeId) :
    (edge? d way (start d f n)).map (·.current) = (facing way (visibleChildren d f n)).head? := by
  rw [edge?_start tree]
  cases content : d.contentDocument? n with
  | some doc =>
    rw [visibleChildren_frame content]
    cases way <;> rfl
  | none =>
    rw [visibleChildren_eq content, Option.elim_none, Option.map_map]
    exact Option.map_id'

/-- The nodes of a page below a node with the first child `first`. -/
def chosen (d : Dom) (o : PageOptions) (first : NodeId) : List NodeId :=
  match o.center with
  | some center => around d (start d o.filter center) o.maxNodes
  | none => forward d (start d o.filter (o.start.getD first)) o.maxNodes

theorem children_eq (tree : d.Consistent) (n : NodeId) {o : PageOptions} (single : o.center = none ∨ o.start = none) :
    children d n o = .ok ((visibleChildren d o.filter n).head?.elim ⟨true, true, []⟩ fun first =>
      ⟨(chosen d o first).head? == some first,
        (chosen d o first).getLast? == (visibleChildren d o.filter n).getLast?, chosen d o first⟩) := by
  have down := edge?_current tree o.filter .forward n
  have up := edge?_current tree o.filter .backward n
  have apart : (o.center.isSome && o.start.isSome) = false := by rcases single with none | none <;> simp [none]
  rw [children, apart, if_neg Bool.false_ne_true]
  simp only [facing, List.head?_reverse] at down up
  simp only [Walk.firstChild?, Walk.lastChild?]
  cases look : edge? d .forward (start d o.filter n) with
  | none =>
    rw [look, Option.map_none] at down
    rw [← down]
    rfl
  | some first =>
    rw [look, Option.map_some] at down
    rw [← down, up]
    rfl

theorem children_of_run (tree : d.Consistent) {o : PageOptions} {first : NodeId} (single : o.center = none ∨ o.start = none)
    (nodup : (visibleChildren d o.filter n).Nodup) (head : (visibleChildren d o.filter n).head? = some first)
    (run : chosen d o first <:+: visibleChildren d o.filter n) (some_nodes : chosen d o first ≠ []) :
    ∃ page, children d n o = .ok page ∧ page.nodes = chosen d o first ∧ Ends (visibleChildren d o.filter n) page := by
  refine ⟨_, children_eq tree n single, ?_⟩
  rw [head, Option.elim_some]
  exact ⟨rfl, head ▸ Ends.of_run nodup run some_nodes⟩

theorem visibleRow_eq (typed : d.Typed) (n : NodeId) : d.visibleRow n = visibleChildren d .all n := by
  cases content : d.contentDocument? n with
  | some doc => rw [visibleChildren_frame content, visibleRow, content]
  | none =>
    rw [visibleChildren_eq content, level_all typed, visibleRow, content]
    refine List.filter_congr fun c child => ?_
    obtain ⟨node, found, -⟩ := parent?_eq_some.mp (typed.parent_iff.mpr child)
    have shows := shows_all (typed.kinds _ (typed.mem_nodes.mpr found))
    simp [shown, info?, found, shows]

/-- The visible children below `n`, where walks go along them: each stands there once, and a page without
limit holds them all. -/
structure Stripped (d : Dom) (f : Filter) (n : NodeId) : Prop where
  strip : Strip d f (visibleChildren d f n)
  nodup : (visibleChildren d f n).Nodup
  short : (visibleChildren d f n).length ≤ unlimited

theorem Stripped.of_frame (tree : d.Consistent) (content : d.contentDocument? n = some doc) : Stripped d f n := by
  have whole := visibleChildren_frame (f := f) content
  constructor
  · exact whole ▸ .of_document tree (tree.content_document content)
  · exact whole ▸ List.nodup_singleton doc
  · rw [whole, List.length_singleton]
    decide

theorem Stripped.of_level (tree : d.Consistent) (words : d.Words) (plain : d.contentDocument? n = none)
    (owner : d.documentOf? n = some doc) (stops : n = doc ∨ shown d f n = true) : Stripped d f n := by
  have whole := visibleChildren_eq (f := f) plain
  constructor
  · exact whole ▸ .of_level tree owner stops
  · exact whole ▸ level_nodup tree f n
  · exact whole ▸ length_level_le_unlimited tree words f n

theorem Stripped.of_all (typed : d.Typed) (words : d.Words) (owner : d.documentOf? n = some doc) :
    Stripped d .all n := by
  cases content : d.contentDocument? n with
  | some doc => exact .of_frame typed.toConsistent content
  | none =>
    cases line : level d .all n with
    | cons first rest =>
      have shows : shown d .all n = true := shown_of_level typed (line ▸ List.mem_cons_self)
      exact .of_level typed.toConsistent words content owner (.inr shows)
    | nil =>
      have whole : visibleChildren d .all n = [] := (visibleChildren_eq content).trans line
      exact ⟨fun before c after split => absurd (whole ▸ split) (by simp), by simp [whole], by simp [whole]⟩

section Page

variable {o : PageOptions} {limit : Option Nat}

section

variable (tree : d.Consistent) (stripped : Stripped d o.filter n)
  (line : visibleChildren d o.filter n = before ++ c :: after) (positive : ∀ m ∈ limit, 0 < m)
  (size : o.maxNodes = limit.getD unlimited)

include tree stripped line positive size

theorem children_around (center : o.center = some c) (start : o.start = none) :
    ∃ page, children d n o = .ok page ∧ Centred (visibleChildren d o.filter n) limit before.length page.nodes ∧
      Ends (visibleChildren d o.filter n) page := by
  obtain ⟨first, head⟩ : ∃ first, (visibleChildren d o.filter n).head? = some first := by
    rw [line]
    cases before <;> exact ⟨_, rfl⟩
  have centred := Centred.of_around stripped.strip line positive stripped.short
  rw [← size, show around d _ _ = chosen d o first by rw [chosen, center]] at centred
  obtain ⟨place, run, inside, early, late, -⟩ := id centred
  have some_nodes : chosen d o first ≠ [] := by
    refine List.ne_nil_of_length_pos ?_
    rw [run, List.length_take, List.length_drop]
    omega
  obtain ⟨page, paged, nodes, ends⟩ :=
    children_of_run tree (.inr start) stripped.nodup head (run ▸ run_infix _ _ _) some_nodes
  exact ⟨page, paged, nodes ▸ centred, ends⟩

theorem children_from (center : o.center = none) (start : (o.start <|> (visibleChildren d o.filter n).head?) = some c)
    :
    ∃ page, children d n o = .ok page ∧ page.nodes = (c :: after).take (upTo limit (c :: after).length) ∧
      Ends (visibleChildren d o.filter n) page := by
  obtain ⟨first, head⟩ : ∃ first, (visibleChildren d o.filter n).head? = some first := by
    rw [line]
    cases before <;> exact ⟨_, rfl⟩
  have short : (c :: after).length ≤ unlimited := by
    have := stripped.short
    rw [line, List.length_append] at this
    omega
  have run : chosen d o first = (c :: after).take (upTo limit (c :: after).length) := by
    have here : o.start.getD first = c := by
      rw [head] at start
      cases chosen : o.start <;> simpa [chosen] using start
    rw [chosen, center, here]
    simp only [forward_eq stripped.strip line, upTo_eq short, size, List.take_eq_take_iff]
    omega
  have some_nodes : chosen d o first ≠ [] := by
    have room := limit_getD_positive positive
    refine List.ne_nil_of_length_pos ?_
    rw [run, List.length_take, upTo_eq short, List.length_cons]
    omega
  have infix_nodes : chosen d o first <:+: visibleChildren d o.filter n := by
    rw [run, line]
    exact (List.take_prefix _ _).isInfix.trans (List.suffix_append _ _).isInfix
  obtain ⟨page, paged, nodes, ends⟩ :=
    children_of_run tree (.inl center) stripped.nodup head infix_nodes some_nodes
  exact ⟨page, paged, nodes.trans run, ends⟩

end

end Page

theorem counts_le (d : Dom) (w : Walk) (maxNodes : Nat) :
    (w.steps d .backward (maxNodes / 2)).1.length ≤ maxNodes ∧
      (forward d w (maxNodes - (w.steps d .backward (maxNodes / 2)).1.length)).length ≤
        maxNodes - (w.steps d .backward (maxNodes / 2)).1.length := by
  have steps_le (way : Way) (w : Walk) (count : Nat) : (w.steps d way count).1.length ≤ count := by
    induction count generalizing w with
    | zero => exact Nat.le_refl 0
    | succ count ih =>
      rw [steps]
      cases step? d way w with
      | none => exact Nat.zero_le _
      | some next => exact Nat.succ_le_succ (ih next)
  have forward_le (w : Walk) (count : Nat) : (forward d w count).length ≤ count := by
    cases count with
    | zero => exact Nat.le_refl 0
    | succ count => exact Nat.succ_le_succ (steps_le .forward w count)
  exact ⟨Nat.le_trans (steps_le .backward w _) (Nat.div_le_self _ _), forward_le w _⟩

/-- Pages of the visible children of a node that belongs to a document, with no filter given. Around the
`i`-th of them a page is a run centred there; from the `i`-th on, or from the first, it holds as many as the
limit allows; its flags tell whether it has the first and the last. Center and start exclude each other, and
no count is taken from a smaller one. -/
theorem children_windows {s : Scene} {packet : Fields} {o : PageOptions} (typed : d.Typed) (words : d.Words)
    (owner : d.documentOf? n = some doc) (unfiltered : packet.get? "whatToShow" = none)
    (given : Walker.pageOptions s packet = .ok o) :
    (∀ i c, (d.visibleRow n)[i]? = some c → o.center = some c → o.start = none →
      ∃ page, children d n o = .ok page ∧ Centred (d.visibleRow n) (limit packet) i page.nodes ∧
        Ends (d.visibleRow n) page) ∧
    (∀ i c, (d.visibleRow n)[i]? = some c → o.center = none → o.start = some c →
      ∃ page, children d n o = .ok page ∧
        page.nodes = ((d.visibleRow n).drop i).take (upTo (limit packet) ((d.visibleRow n).length - i)) ∧
        Ends (d.visibleRow n) page) ∧
    (o.center = none → o.start = none →
      ∃ page, children d n o = .ok page ∧
        page.nodes = (d.visibleRow n).take (upTo (limit packet) (d.visibleRow n).length) ∧
        Ends (d.visibleRow n) page) ∧
    (o.center.isSome → o.start.isSome → children d n o = .error .centerAndStart) ∧
    ∀ w : Walk, (w.steps d .backward (o.maxNodes / 2)).1.length ≤ o.maxNodes ∧
      (forward d w (o.maxNodes - (w.steps d .backward (o.maxNodes / 2)).1.length)).length ≤
        o.maxNodes - (w.steps d .backward (o.maxNodes / 2)).1.length := by
  obtain ⟨size, filtered⟩ := pageOptions_eq given
  have all : o.filter = .all := by rw [filtered, Walker.filterArgument, unfiltered]; rfl
  have strip := Stripped.of_all typed words owner
  rw [← all] at strip
  rw [visibleRow_eq typed, ← all]
  refine ⟨fun i c at_i center start => ?_, fun i c at_i center start => ?_, fun center start => ?_,
    fun center start => ?_, fun w => counts_le d w o.maxNodes⟩
  · obtain ⟨before, after, line, rfl⟩ := split_at at_i
    exact children_around typed.toConsistent strip line (fun m => limit_positive) size center start
  · obtain ⟨before, after, line, rfl⟩ := split_at at_i
    obtain ⟨page, paged, nodes, ends⟩ := children_from typed.toConsistent strip line (fun m => limit_positive) size center
      (by simp [start])
    exact ⟨page, paged, by simp [nodes, line], ends⟩
  · cases line : visibleChildren d o.filter n with
    | nil =>
      refine ⟨⟨true, true, []⟩, ?_, List.take_nil.symm, by simp, by simp⟩
      rw [children_eq typed.toConsistent n (.inl center), line]
      rfl
    | cons first rest =>
      obtain ⟨page, paged, nodes, ends⟩ := children_from typed.toConsistent strip (line.trans (List.nil_append _).symm)
        (fun m => limit_positive) size center (by simp [start, line])
      exact ⟨page, paged, by simp [nodes], line ▸ ends⟩
  · rw [children, center, start]
    rfl

/-- The third of four items, at most two on a page, with blank text between the items. -/
theorem children_windows_center : ∃ (d : Dom) (s : Scene) (o : PageOptions) (page : NodePage), d.Typed ∧
    d.documentOf? 2 = some 1 ∧ d.visibleRow 2 = [3, 5, 6, 7] ∧
    Walker.pageOptions s [("center", .str "node0"), ("maxNodes", .nat 2)] = .ok o ∧ o.center = some 6 ∧
    children d 2 o = .ok page ∧ Centred [3, 5, 6, 7] (some 2) 2 page.nodes ∧ Ends [3, 5, 6, 7] page := by
  let item : Dom.Node := { kind := 1, name := "LI", parent := some 2 }
  let d : Dom :=
    { nodes := [(1, { kind := 9, children := [2] }),
        (2, { kind := 1, name := "UL", parent := some 1, children := [3, 4, 5, 6, 7] }), (3, item),
        (4, { kind := 3, value := some " ", parent := some 2 }), (5, item), (6, item), (7, item)] }
  let node : NodeActor := { host := "h", walker := "walker0", node := 6 }
  let s : Scene := { site := {}, conn := { id := 0, registry := { entries := [⟨"node0", none, .node node⟩] } } }
  let o : PageOptions := { maxNodes := 2, center := some 6 }
  have typed : d.Typed := by decide +kernel
  have words : d.Words := by decide +kernel
  have owner : d.documentOf? 2 = some 1 := by decide +kernel
  have row : d.visibleRow 2 = [3, 5, 6, 7] := by decide +kernel
  have given : Walker.pageOptions s [("center", .str "node0"), ("maxNodes", .nat 2)] = .ok o := by rfl
  obtain ⟨centre, -⟩ := children_windows typed words owner rfl given
  obtain ⟨page, paged, centred, ends⟩ := centre 2 6 (by rw [row]; rfl) rfl rfl
  exact ⟨d, s, o, page, typed, owner, row, given, rfl, paged, row ▸ centred, row ▸ ends⟩

/-! ### Pages without a limit -/

/-- A shown node that follows `n` and all below it in the document, with nothing shown to separate it from
the anchor of `n`. -/
structure Beyond (d : Dom) (f : Filter) (doc n y : NodeId) : Prop where
  shows : shown d f y = true
  follows : ∃ earlier later, d.inOrder doc = earlier ++ n :: later ∧ y ∈ later
  outside : ¬ d.Below y n
  anchored : ∃ a, Anchors d f doc n a ∧ Anchors d f doc y a

theorem children_unpaged (tree : d.Consistent) {first : NodeId} {rest : List NodeId}
    (line : visibleChildren d f n = first :: rest) :
    children d n ⟨unlimited, none, none, f⟩ = .ok
      ⟨(forward d (start d f first) unlimited).head? == some first,
        (forward d (start d f first) unlimited).getLast? == (first :: rest).getLast?,
        forward d (start d f first) unlimited⟩ := by
  rw [children_eq tree n (.inl rfl)]
  simp only [line, List.head?_cons, Option.elim_some]
  rfl

theorem children_empty (tree : d.Consistent) (none_visible : visibleChildren d f n = []) :
    children d n ⟨unlimited, none, none, f⟩ = .ok ⟨true, true, []⟩ := by
  rw [children_eq tree n (.inl rfl)]
  simp only [none_visible, List.head?_nil, Option.elim_none]

theorem getLast?_append_beq (nodup : (nodes ++ after).Nodup) :
    ((nodes ++ after).getLast? == nodes.getLast?) = after.isEmpty := by
  cases final : after.getLast? with
  | none => simp [List.getLast?_eq_none_iff.mp final]
  | some last =>
    have member := List.mem_of_getLast? final
    have apart : nodes.getLast? ≠ some last := fun same =>
      (List.nodup_append.mp nodup).2.2 last (List.mem_of_getLast? same) last member rfl
    have more : after.isEmpty = false := by simpa using List.ne_nil_of_mem member
    simpa [List.getLast?_append, final, more] using apart.symm

theorem children_stripped (tree : d.Consistent) (stripped : Stripped d f n) :
    children d n ⟨unlimited, none, none, f⟩ = .ok ⟨true, true, visibleChildren d f n⟩ := by
  cases line : visibleChildren d f n with
  | nil => exact children_empty tree line
  | cons first rest =>
    have short := stripped.short
    rw [children_unpaged tree line, forward_eq stripped.strip (line.trans (List.nil_append _).symm),
      List.take_of_length_le (line ▸ short)]
    simp

theorem children_detached (tree : d.Consistent) (plain : d.contentDocument? n = none)
    (loose : d.documentOf? n = none) : children d n ⟨unlimited, none, none, f⟩ =
      .ok ⟨true, decide ((level d f n).length ≤ 1), (level d f n).take 1⟩ := by
  have whole := visibleChildren_eq (f := f) plain
  cases line : level d f n with
  | nil => exact children_empty tree (whole.trans line)
  | cons first rest =>
    have exposed : Exposed d f n first := (mem_level tree).mp (by simp [line])
    have loose' : d.documentOf? first = none := (tree.documentOf?_within exposed.below.within).trans loose
    have single : forward d (start d f first) unlimited = [first] := by
      show first :: (steps d .forward (start d f first) (unlimited - 1)).1 = [first]
      rw [start_of_loose loose', steps_of_root _ _ rfl]
    have nodup : ([first] ++ rest).Nodup := by
      rw [List.singleton_append, ← line]
      exact level_nodup tree f n
    have last := getLast?_append_beq nodup
    rw [children_unpaged tree (whole.trans line), single]
    have flag : ([first].getLast? == (first :: rest).getLast?) = decide ((first :: rest).length ≤ 1) := by
      rw [BEq.comm]
      refine last.trans ?_
      cases rest <;> simp
    rw [flag]
    simp

theorem children_hidden (tree : d.Consistent) (words : d.Words) (plain : d.contentDocument? n = none)
    (owner : d.documentOf? n = some doc) (inner : n ≠ doc) (hidden : shown d f n = false)
    (some_nodes : level d f n ≠ []) : ∃ extra, children d n ⟨unlimited, none, none, f⟩ =
      .ok ⟨true, extra.isEmpty, level d f n ++ extra⟩ ∧ extra.Sublist (d.inOrder doc) ∧
        ∀ y, y ∈ extra ↔ Beyond d f doc n y := by
  have below : d.Below n doc := (tree.within_document owner).2.eq_or_below.resolve_left inner
  obtain ⟨a, anchor⟩ := exists_anchor tree f below
  obtain ⟨before, extra, placed, -⟩ := leads_beside tree anchor
  obtain ⟨first, rest, line⟩ := List.exists_cons_of_ne_nil some_nodes
  obtain ⟨earlier, later, order⟩ := List.append_of_mem (tree.mem_inOrder.mpr below)
  obtain ⟨ordered, members⟩ := placed.mem_after tree anchor order
  have spread : level d f a = before ++ first :: (rest ++ extra) := by
    rw [placed.spread, tops_of_hidden tree hidden, line]
    simp
  have nodup : (first :: rest ++ extra).Nodup :=
    (List.nodup_append.mp (spread ▸ level_nodup tree f a)).2.1
  refine ⟨extra, ?_, ?_, fun y => ?_⟩
  · have owner' : d.documentOf? a = some doc := (tree.documentOf?_within anchor.below.within).symm.trans owner
    have short : (first :: (rest ++ extra)).length ≤ unlimited := by
      have few := length_level_le_unlimited tree words f a
      rw [spread, List.length_append] at few
      omega
    rw [children_unpaged tree ((visibleChildren_eq plain).trans line),
      forward_eq (.of_level tree owner' anchor.stops) spread, List.take_of_length_le short, line,
      ← List.cons_append, getLast?_append_beq nodup]
    simp
  · rw [order]
    exact ordered.trans ((List.sublist_cons_self n later).trans (List.sublist_append_right earlier _))
  · rw [members]
    constructor
    · rintro ⟨late, outside, shows, anchored⟩
      exact ⟨shows, ⟨earlier, later, order, late⟩, outside, a, anchor, anchored⟩
    · rintro ⟨shows, ⟨earlier', later', order', late⟩, outside, b, anchor', anchored⟩
      cases anchor.unique tree anchor'
      obtain ⟨rfl, rfl⟩ := split_unique (order ▸ tree.nodup_inOrder doc) (order.symm.trans order')
      exact ⟨late, outside, shows, anchored⟩

/-- Pages of what a filter shows below a node, without limit. Visible are, in document order, the shown nodes
below that no other shown node separates from it; of a frame, the document loaded there. A frame, a document
and any node that the filter shows have a page of just these. In a tree without a document a page ends with
the first of them. Below a hidden node it goes on with the nodes beyond that node, if it holds any at all. -/
theorem children_filtered {s : Scene} {packet : Fields} {o : PageOptions} (tree : d.Consistent) (words : d.Words)
    (given : Walker.pageOptions s packet = .ok o) (boundless : limit packet = none) (center : o.center = none)
    (start : o.start = none) (n : NodeId) :
    (∀ content, d.contentDocument? n = some content → children d n o = .ok ⟨true, true, [content]⟩) ∧
    (d.contentDocument? n = none →
      (level d o.filter n).Sublist (d.inOrder n) ∧ (∀ x, x ∈ level d o.filter n ↔ Exposed d o.filter n x) ∧
      (d.documentOf? n = none → children d n o =
        .ok ⟨true, decide ((level d o.filter n).length ≤ 1), (level d o.filter n).take 1⟩) ∧
      ∀ doc, d.documentOf? n = some doc → ∃ extra, children d n o =
        .ok ⟨true, extra.isEmpty, level d o.filter n ++ extra⟩ ∧ extra.Sublist (d.inOrder doc) ∧
        ∀ y, y ∈ extra ↔ level d o.filter n ≠ [] ∧ n ≠ doc ∧ shown d o.filter n = false ∧
          Beyond d o.filter doc n y) := by
  obtain ⟨size, -⟩ := pageOptions_eq given
  obtain ⟨maxNodes, _, _, f⟩ := o
  cases center
  cases start
  obtain rfl : maxNodes = unlimited := by simpa [boundless] using size
  refine ⟨fun content frame => ?_, fun plain => ⟨level_sublist tree f n, fun x => mem_level tree,
    children_detached tree plain, fun doc owner => ?_⟩⟩
  · rw [children_stripped tree (.of_frame tree frame), visibleChildren_frame frame]
  · by_cases beyond : level d f n ≠ [] ∧ n ≠ doc ∧ shown d f n = false
    · obtain ⟨some_nodes, inner, hidden⟩ := beyond
      obtain ⟨extra, page, order, members⟩ := children_hidden tree words plain owner inner hidden some_nodes
      exact ⟨extra, page, order, fun y => (members y).trans (by simp [some_nodes, inner, hidden])⟩
    · refine ⟨[], ?_, List.nil_sublist _, fun y => ?_⟩
      · rw [List.append_nil, ← visibleChildren_eq plain]
        by_cases none_visible : visibleChildren d f n = []
        · rw [children_empty tree none_visible, none_visible]
          rfl
        · have stops : n = doc ∨ shown d f n = true := by
            rw [visibleChildren_eq plain] at none_visible
            by_contra apart
            exact beyond ⟨none_visible, by simpa using apart⟩
          exact children_stripped tree (.of_level tree words plain owner stops)
      · simp only [List.not_mem_nil, false_iff]
        rintro ⟨some_nodes, inner, hidden, -⟩
        exact beyond ⟨some_nodes, inner, hidden⟩

def paragraphs : Dom :=
  { nodes := [(1, { kind := 9, children := [2] }), (2, { kind := 1, parent := some 1, children := [3] }),
      (3, { kind := 1, parent := some 2, children := [4, 6] }),
      (4, { kind := 1, parent := some 3, children := [5] }), (5, { kind := 3, value := some "a", parent := some 4 }),
      (6, { kind := 1, parent := some 3, children := [7] }), (7, { kind := 3, value := some "b", parent := some 6 })] }

/-- In the document of two paragraphs a walk that shows texts only finds both texts. -/
theorem children_filtered_document : ∃ (s : Scene) (o : PageOptions), paragraphs.Consistent ∧
    Walker.pageOptions s [("whatToShow", .nat 4)] = .ok o ∧ level paragraphs o.filter 1 = [5, 7] ∧
    children paragraphs 1 o = .ok ⟨true, true, [5, 7]⟩ := by
  let s : Scene := { site := {}, conn := { id := 0 } }
  let o : PageOptions := { maxNodes := unlimited, filter := ⟨4⟩ }
  have tree : paragraphs.Consistent := by decide +kernel
  have words : paragraphs.Words := by decide +kernel
  have owner : paragraphs.documentOf? 1 = some 1 := by decide +kernel
  have line : level paragraphs o.filter 1 = [5, 7] := by decide +kernel
  have given : Walker.pageOptions s [("whatToShow", .nat 4)] = .ok o := by rfl
  obtain ⟨-, plain⟩ := children_filtered tree words given rfl rfl rfl 1
  obtain ⟨extra, page, -, members⟩ := (plain (by decide +kernel)).2.2.2 1 owner
  -- The document itself has nothing beyond it.
  have nothing : extra = [] := List.eq_nil_iff_forall_not_mem.mpr fun y member => ((members y).mp member).2.1 rfl
  rw [nothing, line] at page
  exact ⟨s, o, tree, given, line, page⟩

/-- Below the first of the two paragraphs, which the filter hides, it finds the text of the second as well. -/
theorem children_filtered_hidden : ∃ (s : Scene) (o : PageOptions), paragraphs.Consistent ∧
    Walker.pageOptions s [("whatToShow", .nat 4)] = .ok o ∧ level paragraphs o.filter 4 = [5] ∧
    ¬ paragraphs.Below 7 4 ∧ children paragraphs 4 o = .ok ⟨true, false, [5, 7]⟩ := by
  let s : Scene := { site := {}, conn := { id := 0 } }
  let o : PageOptions := { maxNodes := unlimited, filter := ⟨4⟩ }
  have tree : paragraphs.Consistent := by decide +kernel
  have outside : ¬ paragraphs.Below 7 4 := fun below => absurd (tree.mem_inOrder.mpr below) (by decide +kernel)
  exact ⟨s, o, tree, rfl, by decide +kernel, outside, by decide +kernel⟩

end NodePage

end RemoteInspector
