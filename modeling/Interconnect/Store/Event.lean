import Interconnect.Diagnostic.Basic

/-!
# Events and notices

An event records that something happened; it has a level, a message and named fields, all
of them text.  While it works, a store gives notice of events and of diagnostics, in the
order in which they come up.
-/

namespace Interconnect

/-- How much attention a log entry asks for. -/
inductive LogLevel where
  | error
  | warn
  | info
  | debug
  | trace
  deriving DecidableEq

namespace LogLevel

/-- The word for a level. -/
def name : LogLevel → String
  | error => "ERROR"
  | warn => "WARN"
  | info => "INFO"
  | debug => "DEBUG"
  | trace => "TRACE"

/-- The level at which a diagnostic is logged. -/
def ofSeverity : Severity → LogLevel
  | .error => error
  | .warning => warn
  | .note => info
  | .help => debug

end LogLevel

/-- Something that happened in a store. -/
inductive Event where
  /-- All objects are about to go. -/
  | storeCleared (objects : Nat)
  | moduleCreated (name : String) (ilm resource : Bool)
  | defaultInstancePlaced (inst parent : String)
  | resourceInstanceCreated (inst parent : String)
  | netCreated (name : String) (members : Nat)
  /-- Every endpoint of a request has its hops. -/
  | hierarchyWalked (chains : Nat)
  | chainsMerged (nodes : Nat)
  /-- A part of the tree is left to realize. -/
  | treeReduced (root : String) (nodes : Nat)
  /-- A hop has its object. -/
  | realized (id : String)
  | netAggregated (id : String) (members : Nat)
  | parameterTagged (name : String) (objects : Nat)
  deriving DecidableEq

namespace Event

/-- The level at which an event is logged. -/
def level : Event → LogLevel
  | realized _ => .trace
  | _ => .debug

/-- What an event says. -/
def message : Event → String
  | storeCleared _ => "clearing database"
  | moduleCreated .. => "module created"
  | defaultInstancePlaced .. => "default instance placed"
  | resourceInstanceCreated .. => "resource instance created"
  | netCreated .. => "net created"
  | hierarchyWalked _ => "hierarchy walked"
  | chainsMerged _ => "chains merged"
  | treeReduced .. => "tree reduced"
  | realized _ => "realized"
  | netAggregated .. => "net aggregated"
  | parameterTagged .. => "parameter tagged"

/-- The data of an event, by name. -/
def fields : Event → List (String × String)
  | storeCleared objects => [("objects", toString objects)]
  | moduleCreated name ilm resource =>
    [("module", name), ("ilm", toString ilm), ("resource", toString resource)]
  | defaultInstancePlaced inst parent => [("instance", inst), ("parent", parent)]
  | resourceInstanceCreated inst parent => [("instance", inst), ("parent", parent)]
  | netCreated name members => [("net", name), ("members", toString members)]
  | hierarchyWalked chains => [("chains", toString chains)]
  | chainsMerged nodes => [("nodes", toString nodes)]
  | treeReduced root nodes => [("root", root), ("nodes", toString nodes)]
  | realized id => [("object", id)]
  | netAggregated id members => [("net", id), ("members", toString members)]
  | parameterTagged name objects => [("parameter", name), ("objects", toString objects)]

end Event

/-- What is made known while a store works. -/
inductive Notice where
  | event (e : Event)
  | diagnostic (d : Diagnostic)
  deriving DecidableEq

/-- The diagnostics among some notices, in order. -/
def Notice.diagnostics (notices : List Notice) : List Diagnostic :=
  notices.filterMap fun
    | .event _ => none
    | .diagnostic d => some d

end Interconnect
