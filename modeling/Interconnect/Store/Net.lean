import Interconnect.Store.Basic

/-!
# Nets

A net groups ports, pins and declarations that carry one signal.  An object joins at most
one net.  Each member carries the net's name and id as constant attributes and refers back
to the net.
-/

namespace Interconnect.Store

/-- The handles without repetitions, each where it first stands. -/
def distinct : List Handle → List Handle
  | [] => []
  | h :: rest => h :: (distinct rest).filter (· ≠ h)

/-- Refuses an object that cannot join a net. -/
def expectJoinable (s : Store) (h : Handle) : Except StoreError Unit := do
  let o ← s.expectObject h
  match o.body with
  | .part _ p =>
    if !p.joinsNets then throw (.inconsistent (.notAMember o.kind.name o.id))
    match p.net? with
    | some net => throw (.alreadyInNet o.id (s.describe net))
    | none => return ()
  | _ => throw (.inconsistent (.notAMember o.kind.name o.id))

/-- The member with its reference to the net. -/
def joinNet (net : Handle) (o : Object) : Object :=
  match o.body with
  | .part owner p => { o with body := .part owner (p.joined net) }
  | _ => o

/-- Makes an object a member of the net `net`, whose name and id are given. -/
def enlist (net : Handle) (name id : String) (s : Store) (h : Handle) : Store :=
  (((s.stamp h "signal" name).stamp h "net" name).stamp h "netid" id).modify h (joinNet net)

/-- Groups objects into a new net.  An object that is named twice joins once. -/
def addNet (s : Store) (name : String) (members : List Handle) :
    Except StoreError (Store × Handle) := do
  if name.isEmpty then throw (.emptyName "net")
  if s.nets.contains name then throw (.netExists name)
  let id := Kind.net.objectId name
  s.expectFree id
  let members := distinct members
  members.forM s.expectJoinable
  let (s, h) := s.create name name (.net members) []
  return (members.foldl (enlist h name id) s, h)

end Interconnect.Store
