import Interconnect.Route.Hop

/-!
# Trees of hops

The hops of several endpoints together form a tree with the common root on top.  A tree
is listed in pre-order, each hop with its depth, and `ofListing?` reads such a listing.

`reduce` cuts the top of a tree that says nothing: it goes down from the root past every
hop that the caller did not choose and that has one branch only.
-/

namespace Interconnect

/-- A hop and the trees below it. -/
inductive HopTree where
  | node (hop : Hop) (branches : List HopTree)

namespace HopTree

/-- The topmost hop. -/
def hop : HopTree → Hop
  | node hop _ => hop

/-- The trees below the topmost hop. -/
def branches : HopTree → List HopTree
  | node _ branches => branches

mutual

/-- The number of hops in a tree. -/
def size : HopTree → Nat
  | node _ branches => 1 + sizeAll branches

/-- The number of hops in several trees. -/
def sizeAll : List HopTree → Nat
  | [] => 0
  | t :: rest => t.size + sizeAll rest

end

mutual

/-- The hops in pre-order with their depths; the topmost one has depth `depth`. -/
def listing (depth : Nat) : HopTree → List (Nat × Hop)
  | node hop branches => (depth, hop) :: listingAll (depth + 1) branches

/-- The hops of several trees, one tree after the other. -/
def listingAll (depth : Nat) : List HopTree → List (Nat × Hop)
  | [] => []
  | t :: rest => t.listing depth ++ listingAll depth rest

end

mutual

/-- A listing has one entry for each hop. -/
theorem length_listing (depth : Nat) (t : HopTree) : (t.listing depth).length = t.size := by
  cases t with
  | node hop branches =>
    simp only [listing, size, List.length_cons, length_listingAll (depth + 1) branches]
    omega

theorem length_listingAll (depth : Nat) (trees : List HopTree) :
    (listingAll depth trees).length = sizeAll trees := by
  cases trees with
  | nil => rfl
  | cons t rest =>
    simp only [listingAll, sizeAll, List.length_append, length_listing depth t,
      length_listingAll depth rest]

end

/-- Puts a hop in front of a listing that has been read into trees with their depths: the
trees right after it that are deeper become its branches. -/
def graft (entry : Nat × Hop) (trees : List (Nat × HopTree)) : List (Nat × HopTree) :=
  let deeper := fun (t : Nat × HopTree) => decide (entry.1 < t.1)
  (entry.1, node entry.2 ((trees.takeWhile deeper).map Prod.snd)) :: trees.dropWhile deeper

/-- The tree that a listing describes, if it describes one tree. -/
def ofListing? (listing : List (Nat × Hop)) : Option HopTree :=
  match listing.foldr graft [] with
  | [(_, t)] => some t
  | _ => none

/-- The part of a tree that has to be realized.  Nothing is left of a single line of hops
that the caller did not choose. -/
def reduce : HopTree → Option HopTree
  | node hop [branch] => if hop.explicit then some (node hop [branch]) else branch.reduce
  | node hop branches =>
    if hop.explicit || branches.length > 1 then some (node hop branches) else none
termination_by structural t => t

end HopTree

end Interconnect
