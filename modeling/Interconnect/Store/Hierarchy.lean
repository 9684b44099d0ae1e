import Interconnect.Store.Basic

/-!
# The hierarchy

A module is reached through its default instance, and an instance stands in the module it
is placed in.  Following these steps from a module or an instance leads to a root: an
instance that is not placed yet, or a resource module, which has no default instance.
-/

namespace Interconnect.Store

/-- The objects from `h` up to its root.  `start` is where the climb began, and `fuel`
bounds the number of objects on the path. -/
def climb (s : Store) (start : Handle) : Nat → Handle → Except Inconsistency (List Handle)
  | 0, _ => .error (.endlessClimb (s.describe start))
  | fuel + 1, h =>
    match (s.object? h).bind Object.above? with
    | none => .error (.strayObject (s.describe h) (s.describe start))
    | some none => .ok [h]
    | some (some upper) => (s.climb start fuel upper).map (h :: ·)

/-- The objects from a module or an instance up to its root.  No path without a
repetition is longer than the number of objects. -/
def hierarchyPath (s : Store) (start : Handle) : Except StoreError (List Handle) := do
  let o ← s.expectObject start
  if o.above?.isNone then
    throw (.wrongType o.id "module or instance" o.kind.name)
  (s.climb start (s.size + 1) start).mapError .inconsistent

/-- The topmost object above a module or an instance. -/
def hierarchyRoot (s : Store) (start : Handle) : Except StoreError Handle :=
  return (← s.hierarchyPath start).getLastD start

/-- An instance of `module` inside `parent` would let `module` contain itself.  Every
instance on a path is preceded by its module, so looking for the module is enough. -/
def wouldCreateCycle (s : Store) (module parent : Handle) : Except StoreError Bool :=
  return (← s.hierarchyPath parent).contains module

end Interconnect.Store
