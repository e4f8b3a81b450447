import RemoteInspector.Grip.Basic
import RemoteInspector.Site
/-!
Pools: the objects met while a batch of values is gripped, each described once and named by its place
in the pool, so that cycles end.
-/
namespace RemoteInspector

structure Pool where
  descriptors : List Json := []
  places : Table ObjectId Nat := []
  deriving Repr

/-- A pool being filled from a site, whose functions may be called on the way. -/
structure Pooling where
  site : Site
  pool : Pool := {}
  deriving Repr

namespace Pool

def reserve (p : Pool) (id : ObjectId) : Pool :=
  { descriptors := p.descriptors ++ [.null], places := p.places.insert id p.descriptors.length }

def longStringGrip (limits : StringLimits) (s : String) : Json :=
  .object [("type", .str "longString"), ("initial", .str (limits.initial s)), ("length", .nat s.length)]

def gripperWith (limits : StringLimits) (reach : Nat)
    (objectGrip : ObjectRef → StateM Pooling Json) : Gripper (StateM Pooling) where
  limits := limits
  reach := reach
  object ref := do return (← get).site.object ref
  call ref receiver := modifyGet fun p =>
    let (site, completion) := p.site.callObject none ref receiver
    (completion, { p with site := site })
  objectGrip := objectGrip
  longStringGrip s := pure (longStringGrip limits s)

/-- The grip of an object, which is described if it is met for the first time. Each description that
leads to another uses up one unit of fuel. -/
def objectGrip (limits : StringLimits) (reach : Nat) : Nat → ObjectRef → StateM Pooling Json
  | fuel, ref => do
      let pool := (← get).pool
      match pool.places.get? ref.id with
      | some place => return grip place
      | none =>
        let place := pool.descriptors.length
        modify fun p => { p with pool := p.pool.reserve ref.id }
        match fuel with
        | 0 => return grip place
        | fuel + 1 =>
          let description ← Grip.describe (gripperWith limits reach (objectGrip limits reach fuel)) ref
          modify fun p =>
            { p with pool := { p.pool with descriptors := p.pool.descriptors.set place description } }
          return grip place
where
  grip (place : Nat) : Json := .object [("type", .str "object"), ("objectId", .nat place)]

def gripper (site : Site) : Gripper (StateM Pooling) :=
  let limits := StringLimits.ofPrefs site.prefs
  let reach := site.objectCount + 2
  gripperWith limits reach (objectGrip limits reach reach)

/-- Grips of several values over one pool: the site after it, the grips and the pool's descriptors. -/
def gripAll (site : Site) (values : List Value) : Site × List Json × List Json :=
  let (grips, p) := ((values.mapM (Grip.value (gripper site))).run { site := site } : Id _)
  (p.site, grips, p.pool.descriptors)

end Pool

end RemoteInspector
