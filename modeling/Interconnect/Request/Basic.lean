import Interconnect.Request.Realization
import Interconnect.Route.Merge

/-!
# Requests

A request threads a signal or a parameter through every boundary between its endpoints.
It is checked first; then the endpoints are walked up to their roots, the walks are merged
into one tree, the tree is reduced, and what is left is realized and bound together.

Whatever makes a request fail is found before anything is created.
-/

namespace Interconnect

/-- What is asked of a store. -/
inductive Request where
  /-- Connects a signal.  With a source, the value goes up from it and down to the targets;
  without one, every target keeps its own heading. -/
  | connection (signal : String) (source : Option Endpoint) (targets : List Endpoint)
  /-- Gives a parameter to every target. -/
  | parameter (name value : String) (targets : List Endpoint) (isLocal : Bool)

/-- Why a request fails. -/
inductive RequestError where
  /-- An endpoint is neither a module nor an instance. -/
  | invalidEndpoint (request endpoint : String)
  /-- The signal has a net already. -/
  | netExists (signal : String)
  /-- Two endpoints have different roots. -/
  | noCommonStart (request first other : String)
  /-- There is no name or no endpoint. -/
  | emptyRequest (request : String)
  /-- The store refused an operation. -/
  | store (e : StoreError)
  /-- The stored objects contradict each other. -/
  | inconsistent (cause : Inconsistency)
  deriving DecidableEq

/-- The text of a failure. -/
def RequestError.message : RequestError → String
  | invalidEndpoint request endpoint =>
    s!"{request}: invalid endpoint '{endpoint}' (expected a module or an instance)"
  | netExists signal => s!"connection {signal}: net already exists"
  | noCommonStart request first other =>
    s!"{request}: no common start between '{first}' and '{other}'"
  | emptyRequest request => s!"{request}: nothing to connect"
  | store e => e.message
  | inconsistent cause => cause.message

namespace Store

/-- A walk can start at the object. -/
def isEndpoint (s : Store) (h : Handle) : Bool :=
  (s.object? h).any fun o => o.kind = .module || o.kind = .inst

/-- The tree that is left to realize between some endpoints. -/
def spanningTree (s : Store) (request name : String) (ends : List (Endpoint × Heading)) :
    Outcome RequestError (Option HopTree) :=
  match ends.find? fun e => !s.isEndpoint e.1.object with
  | some (e, _) => .fail s (.invalidEndpoint request (s.describe e.object))
  | none =>
    match s.chains ends with
    | (s, .error cause) => .fail s (.inconsistent cause)
    | (s, .ok chains) =>
      let s := s.intern name
      let walked := [.event (.hierarchyWalked chains.length)]
      match HopTree.merge name chains with
      | .error e =>
        (Outcome.fail s
          (.noCommonStart request (s.describe e.first) (s.describe e.other))).after walked
      | .ok none => (Outcome.fail s (.emptyRequest request)).after walked
      | .ok (some merged) =>
        let grown := walked ++ [.event (.chainsMerged merged.size)]
        match merged.reduce with
        | none =>
          (Outcome.done s none).after (grown ++ [.diagnostic (Report.nothingLeft request)])
        | some tree =>
          (Outcome.done s (some tree)).after
            (grown ++ [.event (.treeReduced (s.describe tree.hop.object) tree.size)])

/-- Realizes what is left between some endpoints, and binds it together. -/
def thread (s : Store) (t : Task) (ends : List (Endpoint × Heading))
    (bind : Store → List Handle → Outcome StoreError (List Handle)) :
    Outcome RequestError (List Handle) :=
  (s.spanningTree t.request t.name ends).andThen fun s tree =>
    match tree with
    | none => .done s []
    | some tree =>
      ((s.realize t tree).mapError .inconsistent).andThen fun s objects =>
        (bind s objects).mapError .store

/-- The endpoints of a connection with their headings. -/
def connectionEnds (source : Option Endpoint) (targets : List Endpoint) :
    List (Endpoint × Heading) :=
  match source with
  | some e => (e, .up) :: targets.map fun t => (t, .down)
  | none => targets.map fun t => (t, t.heading)

/-- The endpoints of a connection are its source and its targets, in this order. -/
theorem map_fst_connectionEnds (source : Option Endpoint) (targets : List Endpoint) :
    (connectionEnds source targets).map Prod.fst = source.toList ++ targets := by
  cases source <;> simp [connectionEnds, Function.comp_def]

/-- The value goes up from the source and down to the targets.  Without a source, each target has
its own heading. -/
theorem mem_connectionEnds {source : Option Endpoint} {targets : List Endpoint} {e : Endpoint}
    {heading : Heading} :
    (e, heading) ∈ connectionEnds source targets ↔
      source = some e ∧ heading = .up ∨
        e ∈ targets ∧ heading = if source.isSome then .down else e.heading := by
  cases source with
  | none =>
    simp only [connectionEnds, List.mem_map, Prod.mk.injEq]
    grind
  | some _ =>
    simp only [connectionEnds, List.mem_cons, List.mem_map, Prod.mk.injEq]
    grind

/-- Connects a signal between endpoints.  What was created is a net of that name. -/
def connect (s : Store) (signal : String) (source : Option Endpoint)
    (targets : List Endpoint) : Outcome RequestError (List Handle) :=
  let request := "connection " ++ signal
  if signal.isEmpty || (source.isNone && targets.isEmpty) then
    .fail s (.emptyRequest request)
  else if s.nets.contains signal then .fail s (.netExists signal)
  else
    s.thread { request, name := signal, mode := .signal } (connectionEnds source targets)
      fun s objects => s.joinObjects request signal objects

/-- Gives a parameter to every target.  What was created carries the parameter's name. -/
def parametrize (s : Store) (name value : String) (targets : List Endpoint)
    (isLocal : Bool) : Outcome RequestError (List Handle) :=
  let request := "parameter " ++ name
  if name.isEmpty || targets.isEmpty then .fail s (.emptyRequest request)
  else
    s.thread { request, name, mode := .parameter value isLocal }
      (targets.map fun t => (t, .unset)) fun s objects => s.tagObjects request name objects

end Store

namespace Request

/-- What a request is called. -/
def label : Request → String
  | connection signal .. => "connection " ++ signal
  | parameter name .. => "parameter " ++ name

/-- Carries out a request. -/
def run (s : Store) : Request → Outcome RequestError (List Handle)
  | connection signal source targets => s.connect signal source targets
  | parameter name value targets isLocal => s.parametrize name value targets isLocal

end Request

end Interconnect
