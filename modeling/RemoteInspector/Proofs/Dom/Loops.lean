import Mathlib.Data.Nat.Find
import Mathlib.Logic.Function.Iterate
import RemoteInspector.Proofs.Dom.Levels
/-!
The loops of a walk, turn by turn: each ends with the first node of a level that lies ahead, within `Dom.reach` turns.
-/
namespace RemoteInspector

namespace Walk

variable {turns fuel : Nat} {found : Option NodeId}

open Dom

variable {d : Dom} {f : Filter} {way : Way} {n p c x a root stop : NodeId} {halts : NodeId → Bool}

/-! ### Rows of siblings -/

def facing (way : Way) (nodes : List NodeId) : List NodeId :=
  match way with
  | .forward => nodes
  | .backward => nodes.reverse

/-- The children of a node in the order in which a walk meets them. -/
def row (d : Dom) (way : Way) (p : NodeId) : List NodeId :=
  match way with
  | .forward => d.children p
  | .backward => (d.children p).reverse

theorem row_eq (way : Way) (p : NodeId) : row d way p = facing way (d.children p) := by
  cases way <;> rfl

@[simp] theorem mem_row : x ∈ row d way p ↔ x ∈ d.children p := by
  cases way <;> simp [row]

theorem facing_flatMap (way : Way) (nodes : List NodeId) (g : NodeId → List NodeId) :
    facing way (nodes.flatMap g) = (facing way nodes).flatMap fun n => facing way (g n) := by
  cases way with
  | forward => rfl
  | backward => exact List.reverse_flatMap

theorem facing_level (way : Way) (n : NodeId) :
    facing way (level d f n) = (row d way n).flatMap fun c => facing way (tops d f c) := by
  rw [level, facing_flatMap, row_eq]

theorem after?_append {before after : List NodeId} (new : n ∉ before) :
    after? n (before ++ n :: after) = after.head? := by
  induction before with
  | nil => simp [after?]
  | cons x before ih =>
    have other : x ≠ n := fun same => new (same ▸ List.mem_cons_self)
    rw [List.cons_append, after?, if_neg other]
    exact ih fun member => new (List.mem_cons_of_mem _ member)

theorem before?_append {before after : List NodeId} (new : n ∉ before) :
    before? n (before ++ n :: after) = before.getLast? := by
  induction before with
  | nil => cases after <;> simp [before?]
  | cons x before ih =>
    have other : x ≠ n := fun same => new (same ▸ List.mem_cons_self)
    have later := ih fun member => new (List.mem_cons_of_mem _ member)
    cases before with
    | nil => simp [before?, other]
    | cons y before =>
      have next : y ≠ n := fun same => new (by simp [same])
      simp only [List.cons_append] at later ⊢
      rw [before?, if_neg other, if_neg next, later, List.getLast?_cons_cons]

theorem child?_eq : child? d way n = (row d way n).head? := by
  cases way with
  | forward => rfl
  | backward => simp [child?, row, Dom.lastChild?]

section

variable (tree : d.Consistent) {before after : List NodeId} (line : row d way p = before ++ n :: after)

include tree line

theorem parent_of_row : d.parent? n = some p := by
  have member : n ∈ row d way p := line ▸ List.mem_append_right _ List.mem_cons_self
  exact tree.parent_iff.mpr (mem_row.mp member)

theorem sibling?_eq : sibling? d way n = after.head? := by
  have parent := parent_of_row tree line
  cases way with
  | forward =>
    have children : d.children p = before ++ n :: after := line
    have nodup := children ▸ tree.children_nodup p
    have new : n ∉ before := fun early =>
      (List.nodup_append.mp nodup).2.2 n early n List.mem_cons_self rfl
    simp only [sibling?, Dom.nextSibling?, parent, Option.bind_some, children, after?_append new]
  | backward =>
    have children : d.children p = after.reverse ++ n :: before.reverse := by
      rw [← List.reverse_reverse (d.children p), show (d.children p).reverse = _ from line]
      simp
    have nodup := children ▸ tree.children_nodup p
    have new : n ∉ after.reverse := fun late =>
      (List.nodup_append.mp nodup).2.2 n late n List.mem_cons_self rfl
    simp only [sibling?, Dom.previousSibling?, parent, Option.bind_some, children, before?_append new,
      List.getLast?_reverse]

end

/-! ### Turns -/

/-- Where a loop stands: on a candidate, past a node and all below it, or at its end. -/
inductive Spot
  | on (n : NodeId)
  | past (n : NodeId)
  | done (found : Option NodeId)
  deriving DecidableEq, Repr

/-- One turn of a loop that gives up on the way out at the nodes for which `halts` holds. -/
def turn (d : Dom) (f : Filter) (way : Way) (halts : NodeId → Bool) : Spot → Spot
  | .on n =>
    if shown d f n then .done (some n)
    else
      match child? d way n with
      | some c => .on c
      | none => .past n
  | .past n =>
    match sibling? d way n with
    | some s => .on s
    | none =>
      match d.parent? n with
      | some p => if halts p then .done none else .past p
      | none => .done none
  | .done found => .done found

@[simp] theorem iterate_done (turns : Nat) (found : Option NodeId) :
    (turn d f way halts)^[turns] (.done found) = .done found :=
  Function.iterate_fixed rfl turns

def Leads (d : Dom) (f : Filter) (way : Way) (halts : NodeId → Bool) (s t : Spot) : Prop :=
  ∃ turns, (turn d f way halts)^[turns] s = t

namespace Leads

variable {s t u : Spot}

theorem step (taken : turn d f way halts s = t) : Leads d f way halts s t := ⟨1, taken⟩

theorem trans (first : Leads d f way halts s t) (next : Leads d f way halts t u) : Leads d f way halts s u := by
  obtain ⟨turns, there⟩ := first
  obtain ⟨more, further⟩ := next
  refine ⟨more + turns, ?_⟩
  rw [Function.iterate_add_apply, there, further]

end Leads

/-- The end with the first of some nodes, or where there is none another place. -/
def Spot.first (nodes : List NodeId) (otherwise : Spot) : Spot :=
  nodes.head?.elim otherwise fun x => .done (some x)

theorem Spot.first_done (nodes : List NodeId) : Spot.first nodes (.done none) = .done nodes.head? := by
  cases nodes <;> rfl

/-- The nodes ahead come one after the other: those up to a place, then those from there. -/
theorem Leads.append {s t u : Spot} {nodes nodes' : List NodeId} (first : Leads d f way halts s (.first nodes t))
    (next : Leads d f way halts t (.first nodes' u)) : Leads d f way halts s (.first (nodes ++ nodes') u) := by
  cases nodes with
  | nil => exact first.trans next
  | cons x nodes => exact first

/-! ### Across a tree -/

theorem leads_past (tree : d.Consistent) {before after : List NodeId} (line : row d way p = before ++ x :: after)
    (each : ∀ c ∈ after, Leads d f way halts (.on c) (.first (facing way (tops d f c)) (.past c))) :
    Leads d f way halts (.past x) (.first (after.flatMap fun c => facing way (tops d f c))
      (if halts p then .done none else .past p)) := by
  induction after generalizing before x with
  | nil =>
    refine .step ?_
    simp only [turn, sibling?_eq tree line, parent_of_row tree line, List.head?_nil]
    rfl
  | cons s after ih =>
    have next : turn d f way halts (.past x) = .on s := by
      simp only [turn, sibling?_eq tree line, List.head?_cons]
    have onward : row d way p = (before ++ [x]) ++ s :: after := by simp [line]
    have rest := ih onward fun c member => each c (List.mem_cons_of_mem _ member)
    rw [List.flatMap_cons]
    exact (Leads.step next).trans ((each s List.mem_cons_self).append rest)

/-- On a node the loop finds the first of its tops, or comes out past it; it must not give up at a hidden
node on the way. -/
theorem leads_on (tree : d.Consistent)
    (onward : ∀ z, d.Within z n → shown d f z = false → halts z = false) :
    Leads d f way halts (.on n) (.first (facing way (tops d f n)) (.past n)) := by
  induction n using tree.from_below with
  | step n ih =>
    cases look : shown d f n with
    | true =>
      rw [tops_of_shown tree look]
      refine .step ?_
      simp only [turn, look, if_true]
      cases way <;> rfl
    | false =>
      have each : ∀ c ∈ row d way n, Leads d f way halts (.on c) (.first (facing way (tops d f c)) (.past c)) := by
        intro c member
        have child := mem_row.mp member
        exact ih c child fun z within => onward z (within.tail (tree.parent_iff.mpr child))
      rw [tops_of_hidden tree look, facing_level]
      cases line : row d way n with
      | nil =>
        refine .step ?_
        simp only [turn, look, child?_eq, line, List.head?_nil, Bool.false_eq_true, if_false]
        rfl
      | cons c rest =>
        rw [line] at each
        have down : turn d f way halts (.on n) = .on c := by
          simp only [turn, look, child?_eq, line, List.head?_cons, Bool.false_eq_true, if_false]
        have through := leads_past tree (line.trans (List.nil_append _).symm) fun x member =>
          each x (List.mem_cons_of_mem _ member)
        rw [onward n .refl look, if_neg Bool.false_ne_true] at through
        rw [List.flatMap_cons]
        exact (Leads.step down).trans ((each c List.mem_cons_self).append through)

theorem leads_below (tree : d.Consistent) {rest : List NodeId} (line : row d way n = c :: rest)
    (onward : ∀ z, d.Below z n → shown d f z = false → halts z = false) (ends : halts n = true) :
    Leads d f way halts (.on c) (.done (facing way (level d f n)).head?) := by
  have each : ∀ x ∈ c :: rest, Leads d f way halts (.on x) (.first (facing way (tops d f x)) (.past x)) := by
    intro x member
    have child : x ∈ d.children n := mem_row.mp (line ▸ member)
    exact leads_on tree fun z within => onward z (.of_child within (tree.parent_iff.mpr child))
  have through := leads_past tree (line.trans (List.nil_append _).symm) fun x member =>
    each x (List.mem_cons_of_mem _ member)
  rw [ends, if_pos rfl] at through
  rw [facing_level, line, List.flatMap_cons, ← Spot.first_done]
  exact (each c List.mem_cons_self).append through

/-! ### Along a level -/

/-- Where the search among siblings gives up: at the root and at shown nodes. -/
def bars (d : Dom) (f : Filter) (root p : NodeId) : Bool := p == root || shown d f p

/-- What lies ahead of a walk, given what stands before and after it. -/
def ahead (way : Way) (before after : List NodeId) : List NodeId :=
  match way with
  | .forward => after
  | .backward => before.reverse

theorem row_around {left right : List NodeId} (line : d.children p = left ++ x :: right) (way : Way) :
    ∃ behind, row d way p = behind ++ x :: ahead way left right := by
  cases way with
  | forward => exact ⟨left, line⟩
  | backward => exact ⟨right.reverse, by simp [row, line, ahead]⟩

theorem ahead_flatMap (way : Way) (left right : List NodeId) (g : NodeId → List NodeId) :
    ahead way (left.flatMap g) (right.flatMap g) = (ahead way left right).flatMap fun n => facing way (g n) := by
  cases way with
  | forward => rfl
  | backward => exact List.reverse_flatMap

/-- A walk past a node finds the first node ahead on the level of the node's anchor. -/
theorem leads_beside (tree : d.Consistent) (anchor : Anchors d f root x a) :
    ∃ before after, Placed d f a x before after ∧
      ∀ way, Leads d f way (bars d f root) (.past x) (.done (ahead way before after).head?) := by
  induction x using tree.from_above with
  | step x ih =>
    obtain ⟨p, parent, up⟩ := anchor.below.cases_parent
    have inside : d.Within p root := up.trans anchor.within
    obtain ⟨left, right, line⟩ := List.append_of_mem (tree.parent_iff.mp parent)
    have placed : Placed d f p x (left.flatMap (tops d f)) (right.flatMap (tops d f)) := .of_children tree line
    have through (way : Way) : Leads d f way (bars d f root) (.past x)
        (.first (ahead way (left.flatMap (tops d f)) (right.flatMap (tops d f)))
          (if bars d f root p then .done none else .past p)) := by
      obtain ⟨behind, around⟩ := row_around line way
      rw [ahead_flatMap]
      refine leads_past tree around fun c member => leads_on tree fun z within hidden => ?_
      have listed : c ∈ row d way p := by simp [around, member]
      have lower : d.Below z p := .of_child within (tree.parent_iff.mpr (mem_row.mp listed))
      -- The root is not below itself, so that it is no hidden node of the row.
      have other : z ≠ root := fun same =>
        Below.irrefl tree root (Relation.TransGen.trans_left (same ▸ lower) inside)
      simp [bars, other, hidden]
    by_cases stops : p = root ∨ shown d f p = true
    · have same : a = p := anchor.unique tree (.of_parent tree parent inside stops)
      subst same
      have barred : bars d f root a = true := by simpa [bars] using stops
      refine ⟨_, _, placed, fun way => ?_⟩
      rw [← Spot.first_done]
      simpa only [barred, if_true] using through way
    · obtain ⟨before, after, outer, onward⟩ := ih p parent (anchor.parent parent stops)
      have hidden : shown d f p = false := by simpa using (not_or.mp stops).2
      refine ⟨_, _, outer.of_hidden tree hidden placed, fun way => ?_⟩
      have free : bars d f root p = false := by simpa [bars] using stops
      have first := through way
      simp only [free, Bool.false_eq_true, if_false] at first
      have next := onward way
      rw [← Spot.first_done] at next ⊢
      cases way with
      | forward => exact first.append next
      | backward => simpa [ahead] using first.append next

/-! ### Few turns -/

theorem exists_iterate_le {α : Type} {g : α → α} {s t : α} {places : List α} (reached : g^[turns] s = t)
    (within : ∀ i < turns, g^[i] s ≠ t → g^[i] s ∈ places) : ∃ few ≤ places.length, g^[few] s = t := by
  classical
  have some_turns : ∃ turns, g^[turns] s = t := ⟨turns, reached⟩
  let few := Nat.find some_turns
  have there : g^[few] s = t := Nat.find_spec some_turns
  have least : ∀ i < few, g^[i] s ≠ t := fun i early => Nat.find_min some_turns early
  have short : few ≤ turns := Nat.find_min' some_turns reached
  refine ⟨few, ?_, there⟩
  -- Were a place passed twice, the way between could be left out.
  have distinct : ∀ i < few, ∀ j < few, i < j → g^[i] s ≠ g^[j] s := by
    intro i _ j early between same
    refine least (few - j + i) (by omega) ?_
    rw [Function.iterate_add_apply, same, ← Function.iterate_add_apply, Nat.sub_add_cancel (Nat.le_of_lt early), there]
  have nodup : ((List.range few).map fun i => g^[i] s).Nodup := by
    refine List.Nodup.map_on (fun i early j early' same => ?_) List.nodup_range
    rw [List.mem_range] at early early'
    rcases Nat.lt_trichotomy i j with less | equal | more
    · exact absurd same (distinct i early j early' less)
    · exact equal
    · exact absurd same.symm (distinct j early' i early more)
  have listed : ((List.range few).map fun i => g^[i] s) ⊆ places := by
    intro place member
    obtain ⟨i, early, rfl⟩ := List.mem_map.mp member
    rw [List.mem_range] at early
    exact within i (Nat.lt_of_lt_of_le early short) (least i early)
  simpa using (nodup.subperm listed).length_le

def spots (d : Dom) : List Spot := d.nodes.keys.map .on ++ d.nodes.keys.map .past

section

variable (tree : d.Consistent) {s : Spot} (member : s ∈ spots d)

include tree member

theorem turn_mem_spots : turn d f way halts s ∈ spots d ∨ ∃ found, turn d f way halts s = .done found := by
  have on_mem {n : NodeId} (key : n ∈ d.nodes.keys) : Spot.on n ∈ spots d := by simp [spots, key]
  have past_mem {n : NodeId} (key : n ∈ d.nodes.keys) : Spot.past n ∈ spots d := by simp [spots, key]
  cases s with
  | on n =>
    have key : n ∈ d.nodes.keys := by simpa [spots] using member
    rw [turn]
    split
    · exact .inr ⟨_, rfl⟩
    · split
      · rename_i c down
        rw [child?_eq] at down
        have child : c ∈ d.children n := mem_row.mp (List.mem_of_head? down)
        exact .inl (on_mem (key_of_parent (tree.parent_iff.mpr child)))
      · exact .inl (past_mem key)
  | past n =>
    rw [turn]
    split
    · rename_i s next
      have sibling : ∃ p, s ∈ d.children p := by
        cases parent : d.parent? n with
        | none => cases way <;> simp [sibling?, Dom.nextSibling?, Dom.previousSibling?, parent] at next
        | some p =>
          have here : n ∈ row d way p := mem_row.mpr (tree.parent_iff.mp parent)
          obtain ⟨before, after, line⟩ := List.append_of_mem here
          rw [sibling?_eq tree line] at next
          have member : s ∈ row d way p := by
            rw [line]
            exact List.mem_append_right _ (List.mem_cons_of_mem _ (List.mem_of_head? next))
          exact ⟨p, mem_row.mp member⟩
      obtain ⟨p, child⟩ := sibling
      exact .inl (on_mem (key_of_parent (tree.parent_iff.mpr child)))
    · split
      · rename_i p parent
        split
        · exact .inr ⟨_, rfl⟩
        · exact .inl (past_mem (key_of_child (tree.parent_iff.mp parent)))
      · exact .inr ⟨_, rfl⟩
  | done found => simp [spots] at member

theorem iterate_mem_spots (turns : Nat) :
    (turn d f way halts)^[turns] s ∈ spots d ∨ ∃ found, (turn d f way halts)^[turns] s = .done found := by
  induction turns with
  | zero => exact .inl member
  | succ turns ih =>
    rw [Function.iterate_succ_apply']
    rcases ih with inside | ⟨found, ended⟩
    · exact turn_mem_spots tree inside
    · exact .inr ⟨found, by rw [ended]; rfl⟩

theorem Leads.within_reach (leads : Leads d f way halts s (.done found)) :
    ∃ turns ≤ d.reach, (turn d f way halts)^[turns] s = .done found := by
  obtain ⟨turns, ended⟩ := leads
  have inside : ∀ i < turns, (turn d f way halts)^[i] s ≠ .done found → (turn d f way halts)^[i] s ∈ spots d := by
    intro i early other
    refine (iterate_mem_spots tree member i).resolve_right fun ⟨found', there⟩ => other ?_
    -- A loop that has ended stays where it is.
    rw [← ended, ← Nat.sub_add_cancel (Nat.le_of_lt early), Function.iterate_add_apply, there, iterate_done]
  obtain ⟨few, bound, there⟩ := exists_iterate_le ended inside
  refine ⟨few, Nat.le_trans bound ?_, there⟩
  have size : (spots d).length = d.nodes.length + d.nodes.length := by simp [spots, Table.keys]
  calc (spots d).length = 2 * d.nodes.length := by omega
    _ ≤ (d.nodes.length + 2) * (d.nodes.length + 2) := Nat.mul_le_mul (by omega) (by omega)

end

/-! ### The searches of a walk -/

theorem scan_of_turns (ended : (turn d f way halts)^[turns] (.on n) = .done found) (enough : turns ≤ fuel) :
    (∃ x, scan d f way fuel n = .ok x ∧ found = some x) ∨
      ∃ last rest, rest < turns ∧ scan d f way fuel n = .error last ∧ sibling? d way last = none ∧
        (turn d f way halts)^[rest] (.past last) = .done found := by
  induction fuel generalizing turns n with
  | zero =>
    obtain rfl : turns = 0 := by omega
    cases ended
  | succ fuel ih =>
    cases turns with
    | zero => cases ended
    | succ turns =>
      rw [Function.iterate_succ_apply, turn] at ended
      rw [scan]
      split at ended
      · rename_i shows
        rw [iterate_done] at ended
        cases ended
        exact .inl ⟨n, by rw [if_pos shows], rfl⟩
      · rename_i hidden
        rw [if_neg hidden]
        cases down : child? d way n with
        | some c =>
          simp only [down] at ended
          refine (ih ended (by omega)).imp_right ?_
          rintro ⟨last, rest, less, others⟩
          exact ⟨last, rest, by omega, others⟩
        | none =>
          simp only [down] at ended
          cases next : sibling? d way n with
          | none => exact .inr ⟨n, turns, by omega, rfl, next, ended⟩
          | some s =>
            cases turns with
            | zero => cases ended
            | succ turns =>
              simp only [Function.iterate_succ_apply, turn, next] at ended
              refine (ih ended (by omega)).imp_right ?_
              rintro ⟨last, rest, less, others⟩
              exact ⟨last, rest, by omega, others⟩

theorem beside_of_turns (ended : (turn d f way (bars d f root))^[turns] (.past n) = .done found)
    (enough : turns ≤ fuel) (within : turns ≤ d.reach) : beside d f way root fuel n = found := by
  -- Out of a row that is used up the search goes on past the parent.
  have leave_row {turns fuel : Nat} {last : NodeId} (used : sibling? d way last = none)
      (ended : (turn d f way (bars d f root))^[turns] (.past last) = .done found)
      (onward : ∀ p rest, rest < turns → (turn d f way (bars d f root))^[rest] (.past p) = .done found →
        beside d f way root fuel p = found) :
      ((d.parent? last).bind fun p =>
        if p = root ∨ shown d f p then none else beside d f way root fuel p) = found := by
    cases turns with
    | zero => cases ended
    | succ turns =>
      simp only [Function.iterate_succ_apply, turn, used] at ended
      cases parent : d.parent? last with
      | none =>
        simp only [parent, iterate_done, Spot.done.injEq] at ended
        exact ended
      | some p =>
        simp only [parent] at ended
        by_cases stops : p = root ∨ shown d f p = true
        · have barred : bars d f root p = true := by simpa [bars] using stops
          simp only [barred, if_true, iterate_done, Spot.done.injEq] at ended
          rw [Option.bind_some, if_pos stops, ended]
        · have free : bars d f root p = false := by simpa [bars] using stops
          simp only [free, Bool.false_eq_true, if_false] at ended
          rw [Option.bind_some, if_neg stops, onward p turns (Nat.lt_succ_self _) ended]
  induction turns using Nat.strongRecOn generalizing n fuel with
  | ind turns ih =>
    cases turns with
    | zero => cases ended
    | succ turns =>
      obtain ⟨fuel, rfl⟩ : ∃ rest, fuel = rest + 1 := ⟨fuel - 1, by omega⟩
      have onward : ∀ p rest, rest < turns + 1 → (turn d f way (bars d f root))^[rest] (.past p) = .done found →
          beside d f way root fuel p = found := fun p rest less later =>
        ih rest less later (by omega) (by omega)
      rw [beside]
      cases next : sibling? d way n with
      | none => exact leave_row next ended onward
      | some s =>
        simp only [Function.iterate_succ_apply, turn, next] at ended
        rcases scan_of_turns ended (by omega : turns ≤ d.reach) with ⟨x, scanned, rfl⟩ |
          ⟨last, rest, less, scanned, used, later⟩
        · simp only [scanned]
        · simp only [scanned]
          exact leave_row used later fun p rest' less' => onward p rest' (by omega)

def closes (root stop p : NodeId) : Bool := p == root || p == stop

theorem leave_of_turns (ended : (turn d f way (closes root stop))^[turns] (.past n) = .done found)
    (enough : turns ≤ fuel) :
    (∃ s rest, rest < turns ∧ leave d way root stop fuel n = some s ∧
      (turn d f way (closes root stop))^[rest] (.on s) = .done found) ∨
      leave d way root stop fuel n = none ∧ found = none := by
  induction fuel generalizing turns n with
  | zero =>
    obtain rfl : turns = 0 := by omega
    cases ended
  | succ fuel ih =>
    cases turns with
    | zero => cases ended
    | succ turns =>
      simp only [Function.iterate_succ_apply, turn] at ended
      rw [leave]
      cases next : sibling? d way n with
      | some s =>
        simp only [next] at ended
        exact .inl ⟨s, turns, Nat.lt_succ_self _, rfl, ended⟩
      | none =>
        simp only [next] at ended
        cases parent : d.parent? n with
        | none =>
          simp only [parent, iterate_done, Spot.done.injEq] at ended
          exact .inr ⟨rfl, ended.symm⟩
        | some p =>
          simp only [parent] at ended
          by_cases stops : p = root ∨ p = stop
          · have closed : closes root stop p = true := by simpa [closes] using stops
            simp only [closed, if_true, iterate_done, Spot.done.injEq] at ended
            exact .inr ⟨by simp [stops], ended.symm⟩
          · have free : closes root stop p = false := by simpa [closes] using stops
            simp only [free, Bool.false_eq_true, if_false] at ended
            rw [Option.bind_some, if_neg stops]
            refine (ih ended (by omega)).imp_left ?_
            rintro ⟨s, rest, less, others⟩
            exact ⟨s, rest, by omega, others⟩

theorem search_of_turns (ended : (turn d f way (closes root stop))^[turns] (.on n) = .done found)
    (enough : turns ≤ fuel) (within : turns ≤ d.reach) : search d f way root stop fuel n = found := by
  induction turns using Nat.strongRecOn generalizing n fuel with
  | ind turns ih =>
    cases turns with
    | zero => cases ended
    | succ turns =>
      obtain ⟨fuel, rfl⟩ : ∃ rest, fuel = rest + 1 := ⟨fuel - 1, by omega⟩
      rw [Function.iterate_succ_apply, turn] at ended
      rw [search]
      split at ended
      · rename_i shows
        rw [iterate_done] at ended
        cases ended
        rw [if_pos shows]
      · rename_i hidden
        rw [if_neg hidden]
        cases down : child? d way n with
        | some c =>
          simp only [down] at ended
          exact ih turns (Nat.lt_succ_self _) ended (by omega) (by omega)
        | none =>
          simp only [down] at ended
          rcases leave_of_turns ended (by omega : turns ≤ d.reach) with ⟨s, rest, less, left, later⟩ | ⟨left, rfl⟩
          · simp only [left, Option.bind_some]
            exact ih rest (by omega) later (by omega) (by omega)
          · simp only [left, Option.bind_none]

theorem edge_eq (tree : d.Consistent) (outside : ¬ d.Below root n) :
    edge d f way root n = (facing way (level d f n)).head? := by
  rw [edge, child?_eq]
  cases line : row d way n with
  | nil => rw [facing_level, line]; rfl
  | cons c rest =>
    have parent := parent_of_row tree (line.trans (List.nil_append _).symm)
    have onward : ∀ z, d.Below z n → shown d f z = false → closes root n z = false := by
      intro z below _
      have other : z ≠ root := fun same => outside (same ▸ below)
      have lower : z ≠ n := fun same => Below.irrefl tree n (same ▸ below)
      simp [closes, other, lower]
    have leads := leads_below tree line onward (by simp [closes])
    obtain ⟨turns, few, ended⟩ := leads.within_reach tree (by simp [spots, key_of_parent parent])
    exact search_of_turns ended few few

theorem beside_eq (tree : d.Consistent) (anchor : Anchors d f root x a) :
    ∃ before after, Placed d f a x before after ∧
      ∀ way, beside d f way root d.reach x = (ahead way before after).head? := by
  obtain ⟨before, after, placed, leads⟩ := leads_beside tree anchor
  obtain ⟨p, parent, -⟩ := anchor.below.cases_parent
  refine ⟨before, after, placed, fun way => ?_⟩
  obtain ⟨turns, few, ended⟩ := (leads way).within_reach tree (by simp [spots, key_of_parent parent])
  exact beside_of_turns ended few few

/-! ### Steps along a level -/

variable {w : Walk} {before after : List NodeId}

def Way.back : Way → Way
  | .forward => .backward
  | .backward => .forward

theorem ahead_cons {nodes others : List NodeId} {next : NodeId} (line : nodes = before ++ x :: after)
    (rest : ahead way before after = next :: others) : ∃ before' after', nodes = before' ++ next :: after' ∧
      ahead way before' after' = others ∧ ahead way.back before' after' = x :: ahead way.back before after := by
  cases way with
  | forward =>
    have split : after = next :: others := rest
    exact ⟨before ++ [x], others, by simp [line, split], rfl, by simp [Way.back, ahead]⟩
  | backward =>
    have split : before = others.reverse ++ [next] := by
      rw [← List.reverse_reverse before, show before.reverse = _ from rest, List.reverse_cons]
    exact ⟨others.reverse, x :: after, by simp [line, split], by simp [ahead], rfl⟩

theorem Placed.split_level (tree : d.Consistent) {left right : List NodeId} (placed : Placed d f a x left right)
    (shows : shown d f x = true) (line : level d f a = before ++ x :: after) : left = before ∧ right = after := by
  have spread := placed.spread
  rw [tops_of_shown tree shows, line] at spread
  obtain ⟨rfl, rfl⟩ := split_unique (line ▸ level_nodup tree f a) (by simpa using spread)
  exact ⟨rfl, rfl⟩

theorem step?_eq (tree : d.Consistent) (line : level d w.filter a = before ++ w.current :: after)
    (within : d.Within a w.root) (stops : a = w.root ∨ shown d w.filter a = true) (way : Way) :
    step? d way w = (ahead way before after).head?.map fun n => { w with current := n } := by
  have exposed : Exposed d w.filter a w.current := (mem_level tree).mp (by simp [line])
  obtain ⟨left, right, placed, next⟩ := beside_eq tree (exposed.anchors within stops)
  obtain ⟨rfl, rfl⟩ := placed.split_level tree exposed.shows line
  have inside : w.current ≠ w.root := fun same =>
    Below.irrefl tree w.root (Relation.TransGen.trans_left (same ▸ exposed.below) within)
  rw [step?, if_neg inside, next]

theorem steps_of_root (d : Dom) (way : Way) (same : w.current = w.root) (count : Nat) :
    steps d way w count = ([], w) := by
  cases count with
  | zero => rfl
  | succ count => simp [steps, step?, same]

theorem steps_eq (tree : d.Consistent) (line : level d w.filter a = before ++ w.current :: after)
    (within : d.Within a w.root) (stops : a = w.root ∨ shown d w.filter a = true) (way : Way) (count : Nat) :
    (steps d way w count).1 = (ahead way before after).take count := by
  induction count generalizing w before after with
  | zero => rfl
  | succ count ih =>
    have step := step?_eq tree line within stops way
    rw [steps]
    cases rest : ahead way before after with
    | nil =>
      rw [rest] at step
      simp [step]
    | cons next others =>
      rw [rest] at step
      obtain ⟨before', after', line', rest', -⟩ := ahead_cons line rest
      have later := ih (w := { w with current := next }) line' within stops
      simp only [step, List.head?_cons, Option.map_some, later, rest', List.take_succ_cons]

theorem steps_add (d : Dom) (way : Way) (w : Walk) (count more : Nat) :
    (steps d way w (count + more)).1 = (steps d way w count).1 ++ (steps d way (steps d way w count).2 more).1 := by
  induction count generalizing w with
  | zero => simp [steps]
  | succ count ih =>
    rw [Nat.add_right_comm, steps, steps]
    cases step : step? d way w with
    | none =>
      have stays : (steps d way w more).1 = [] := by cases more <;> simp [steps, step]
      simp [stays]
    | some next => simp [ih next]

/-! ### From the start of a walk -/

theorem start_of_document {doc : NodeId} (owner : d.documentOf? n = some doc) : start d f n = ⟨doc, f, n⟩ := by
  simp [start, owner]

theorem start_of_loose (loose : d.documentOf? n = none) : start d f n = ⟨n, f, n⟩ := by
  simp [start, loose]

theorem within_root (tree : d.Consistent) (f : Filter) (n : NodeId) : d.Within n (start d f n).root := by
  cases owner : d.documentOf? n with
  | none =>
    rw [start_of_loose owner]
    exact .refl
  | some doc =>
    rw [start_of_document owner]
    exact (tree.within_document owner).2

theorem root_not_below (tree : d.Consistent) (f : Filter) (n : NodeId) : ¬ d.Below (start d f n).root n :=
  fun below => Below.irrefl tree n ((within_root tree f n).below_trans below)

theorem edge?_start (tree : d.Consistent) (f : Filter) (way : Way) (n : NodeId) : edge? d way (start d f n) =
    (d.contentDocument? n).elim ((facing way (level d f n)).head?.map fun x => { start d f n with current := x })
      fun doc => some (start d f doc) := by
  have here : (start d f n).current = n ∧ (start d f n).filter = f := ⟨rfl, rfl⟩
  rw [edge?, here.1, here.2, edge_eq tree (root_not_below tree f n)]
  cases d.contentDocument? n <;> rfl

end Walk

end RemoteInspector
