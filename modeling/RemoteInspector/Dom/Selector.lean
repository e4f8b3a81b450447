import RemoteInspector.Dom.Tree
/-!
Selectors: everything, an identifier, a class or a node name. Only elements match.
-/
namespace RemoteInspector

inductive Selector
  | any
  | id (name : String)
  | ofClass (name : String)
  | named (name : String)
  deriving DecidableEq, Repr

namespace Selector

def isWordChar (c : Char) : Bool := c.isAlphanum || c = '_' || c = '-'

def isWord (cs : List Char) : Bool := !cs.isEmpty && cs.all isWordChar

/-- A single star, or a word after at most one mark. -/
def parse? (text : String) : Option Selector :=
  if text = "*" then some any
  else
    match text.toList with
    | '#' :: rest => if isWord rest then some (id (String.ofList rest)) else none
    | '.' :: rest => if isWord rest then some (ofClass (String.ofList rest)) else none
    | cs => if isWord cs then some (named text) else none

def complaint (text : String) : String := "'" ++ text ++ "' is not a valid selector"

/-- Splits at every single space; neighbouring spaces leave empty words. -/
def words : List Char → List (List Char)
  | [] => [[]]
  | c :: cs =>
    if c = ' ' then [] :: words cs
    else
      match words cs with
      | w :: ws => (c :: w) :: ws
      | [] => [[c]]

def lower (s : String) : List Char := s.toList.map Char.toLower

def isMatch (d : Dom) (n : NodeId) : Selector → Bool
  | any => true
  | id name => d.attribute? n "id" == some name
  | ofClass name => (d.attribute? n "class").elim false fun c => (words c.toList).contains name.toList
  | named name => (d.node? n).elim false fun node => lower node.name == lower name

def isElement (d : Dom) (n : NodeId) : Bool :=
  (d.node? n).elim false (·.kind == NodeKind.element)

def select (d : Dom) (base : NodeId) (s : Selector) : List NodeId :=
  (d.descendants d.reach base).filter fun n => isElement d n && isMatch d n s

end Selector

end RemoteInspector
