import RemoteInspector.Dom.Tree
/-!
Walks over the shown nodes of a document. A walk never stops at blank text nor at a kind its filter
hides, and looks for shown nodes below hidden ones. Going down from a frame it enters the document
loaded there, and going up from a document it comes out at the frame that embeds it.
-/
namespace RemoteInspector

structure Walk where
  root : NodeId
  filter : Filter
  current : NodeId
  deriving DecidableEq, Repr

namespace Walk

def start (d : Dom) (filter : Filter) (n : NodeId) : Walk :=
  ⟨(d.documentOf? n).getD n, filter, n⟩

def shown (d : Dom) (f : Filter) (n : NodeId) : Bool :=
  (d.info? n).elim false fun info => f.shows info.kind && !info.isBlankText

inductive Way
  | forward
  | backward
  deriving DecidableEq, Repr

def child? (d : Dom) (way : Way) (n : NodeId) : Option NodeId :=
  match way with
  | .forward => d.firstChild? n
  | .backward => d.lastChild? n

def sibling? (d : Dom) (way : Way) (n : NodeId) : Option NodeId :=
  match way with
  | .forward => d.nextSibling? n
  | .backward => d.previousSibling? n

def climb (d : Dom) (f : Filter) (root : NodeId) : Nat → NodeId → Option NodeId
  | 0, _ => none
  | fuel + 1, n =>
    if n = root then none
    else (d.parent? n).bind fun p => if shown d f p then some p else climb d f root fuel p

/-- The next node after `n` and all below it, before leaving `stop` or the root. -/
def leave (d : Dom) (way : Way) (root stop : NodeId) : Nat → NodeId → Option NodeId
  | 0, _ => none
  | fuel + 1, n =>
    match sibling? d way n with
    | some s => some s
    | none => (d.parent? n).bind fun p => if p = root ∨ p = stop then none else leave d way root stop fuel p

/-- The first shown node from `n` on, looking below hidden ones, before leaving `stop`. -/
def search (d : Dom) (f : Filter) (way : Way) (root stop : NodeId) : Nat → NodeId → Option NodeId
  | 0, _ => none
  | fuel + 1, n =>
    if shown d f n then some n
    else
      match child? d way n with
      | some c => search d f way root stop fuel c
      | none => (leave d way root stop d.reach n).bind (search d f way root stop fuel)

def edge (d : Dom) (f : Filter) (way : Way) (root n : NodeId) : Option NodeId :=
  (child? d way n).bind (search d f way root n d.reach)

/-- The first shown node from candidate `n` on among its siblings and what lies below hidden ones;
otherwise the last node looked at. -/
def scan (d : Dom) (f : Filter) (way : Way) : Nat → NodeId → Except NodeId NodeId
  | 0, n => .error n
  | fuel + 1, n =>
    if shown d f n then .ok n
    else
      match child? d way n with
      | some c => scan d f way fuel c
      | none =>
        match sibling? d way n with
        | some s => scan d f way fuel s
        | none => .error n

/-- The next shown node on the level of `n`: where the siblings are used up, those of a hidden parent
go on. -/
def beside (d : Dom) (f : Filter) (way : Way) (root : NodeId) : Nat → NodeId → Option NodeId
  | 0, _ => none
  | fuel + 1, n =>
    let found :=
      match sibling? d way n with
      | some s => scan d f way d.reach s
      | none => .error n
    match found with
    | .ok s => some s
    | .error last =>
      (d.parent? last).bind fun p =>
        if p = root ∨ shown d f p then none else beside d f way root fuel p

def enter (d : Dom) (w : Walk) (n : NodeId) : Walk := start d w.filter n

def parent? (d : Dom) (w : Walk) : Option Walk :=
  match climb d w.filter w.root d.reach w.current with
  | some p => some { w with current := p }
  | none =>
    if d.isDocument w.current then (d.embeddingFrame? w.current).map (enter d w) else none

def edge? (d : Dom) (way : Way) (w : Walk) : Option Walk :=
  match d.contentDocument? w.current with
  | some doc => some (enter d w doc)
  | none => (edge d w.filter way w.root w.current).map fun n => { w with current := n }

def firstChild? (d : Dom) (w : Walk) : Option Walk := edge? d .forward w

def lastChild? (d : Dom) (w : Walk) : Option Walk := edge? d .backward w

def step? (d : Dom) (way : Way) (w : Walk) : Option Walk :=
  if w.current = w.root then none
  else (beside d w.filter way w.root d.reach w.current).map fun n => { w with current := n }

def nextSibling? (d : Dom) (w : Walk) : Option Walk := step? d .forward w

def previousSibling? (d : Dom) (w : Walk) : Option Walk := step? d .backward w

/-- Up to `count` steps one way: the nodes met, and the walk where it stopped. -/
def steps (d : Dom) (way : Way) (w : Walk) : Nat → List NodeId × Walk
  | 0 => ([], w)
  | count + 1 =>
    match step? d way w with
    | some next =>
      let (nodes, last) := steps d way next count
      (next.current :: nodes, last)
    | none => ([], w)

def below (d : Dom) (f : Filter) (n : NodeId) : List NodeId :=
  match firstChild? d (start d f n) with
  | some first => first.current :: (steps d .forward first d.reach).1
  | none => []

/-- All the ancestors of the walk's node, nearest first, at most `fuel` of them. -/
def ancestors (d : Dom) : Nat → Walk → List NodeId
  | 0, _ => []
  | fuel + 1, w =>
    match parent? d w with
    | some up => up.current :: ancestors d fuel up
    | none => []

def visibleParent? (d : Dom) (n : NodeId) : Option NodeId :=
  (parent? d (start d .all n)).map (·.current)

def visibleAncestors (d : Dom) (n : NodeId) : List NodeId := ancestors d d.reach (start d .all n)

/-- The shown nodes of a list of trees with no other shown node above them. -/
def frontier (d : Dom) (f : Filter) : Nat → List NodeId → List NodeId
  | 0, _ => []
  | fuel + 1, nodes =>
    nodes.flatMap fun n => if shown d f n then [n] else frontier d f fuel (d.children n)

/-- What a client sees below `n`: the document loaded there alone, or its shown children. -/
def visibleChildren (d : Dom) (f : Filter) (n : NodeId) : List NodeId :=
  match d.contentDocument? n with
  | some doc => [doc]
  | none => frontier d f d.reach (d.children n)

end Walk

end RemoteInspector
