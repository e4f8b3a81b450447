import RemoteInspector.Actor
/-!
The registry of a connection: its actors in order of registration, each but the root under an owner.
Releasing an actor releases what it owns first, youngest first.
-/
namespace RemoteInspector

structure Registry.Entry where
  name : String
  owner : Option String
  actor : Actor
  deriving Repr

structure Registry where
  /-- The actors, their owners and, in order, what each of them owns. -/
  entries : List Registry.Entry := []
  /-- The object actor of each object number. -/
  scripts : Table ObjectId String := []
  /-- How many names have been given. -/
  next : Nat := 0
  deriving Repr

namespace Registry

def find? (r : Registry) (name : String) : Option Actor :=
  (r.entries.find? (·.name = name)).map (·.actor)

def contains (r : Registry) (name : String) : Bool := r.entries.any (·.name = name)

/-- The name of the `n`-th actor of connection `id`. Names count in 32 bits. -/
def nameOf (id : ConnectionId) (kind : String) (n : Nat) : String :=
  "conn" ++ toString id ++ "." ++ kind ++ toString (n % UInt32.size)

def newName (r : Registry) (id : ConnectionId) (kind : String) : String := nameOf id kind r.next

def add (r : Registry) (entry : Entry) : Registry := { r with entries := r.entries ++ [entry] }

def update (r : Registry) (name : String) (f : Actor → Actor) : Registry :=
  { r with entries := r.entries.map fun e => if e.name = name then { e with actor := f e.actor } else e }

def children (r : Registry) (name : String) : List String :=
  (r.entries.filter (·.owner = some name)).map (·.name)

/-- The actor and all it owns, in the order of their release. Each level of owners uses up one unit
of fuel, so as many as there are actors are enough. -/
def releaseOrder (r : Registry) : Nat → String → List String
  | 0, name => [name]
  | fuel + 1, name => (r.children name).reverse.flatMap (releaseOrder r fuel) ++ [name]

def roots (r : Registry) : List String := (r.entries.filter (·.owner.isNone)).map (·.name)

def remove (r : Registry) (name : String) : Registry :=
  { r with
    entries := r.entries.filter (·.name ≠ name)
    scripts := r.scripts.filter (·.2 ≠ name) }

end Registry

end RemoteInspector
