import Interconnect.Diagnostic.Basic

/-!
# What requests report

The diagnostics of a request.  Errors are about single hops, which are skipped while the
rest of the request goes through.  Warnings say that a request was resolved differently
than asked, or not at all.
-/

namespace Interconnect.Report

/-- An error code. -/
def errorCode (number : UInt16) : Code :=
  { category := .error, number }

/-- A warning code. -/
def warningCode (number : UInt16) : Code :=
  { category := .warning, number }

/-- The note that says where a diagnostic comes from. -/
def during (request : String) : String :=
  "while resolving " ++ request

/-- The id of the object for a hop is taken. -/
def idTaken (request id : String) : Diagnostic :=
  (((Diagnostic.error (errorCode 300) s!"cannot create `{id}`: id already exists").about
    id).withNote (during request)).withHelp
      "this hop is skipped; choose a different local name for the endpoint"

/-- An instance on top has no signal to connect to. -/
def unnamedInstance (request inst : String) : Diagnostic :=
  ((Diagnostic.error (errorCode 301)
    s!"no name assigned to instance `{inst}` by its parent").about inst).withNote
      (during request)

/-- A resource module would get inner content. -/
def resourceContent (request what module : String) : Diagnostic :=
  ((Diagnostic.error (errorCode 302)
    s!"cannot create {what} in resource module `{module}`").about module).withNote
      (during request)

/-- A local parameter is asked for where an instance is on top. -/
def localAtInstance (request root : String) : Diagnostic :=
  ((Diagnostic.error (errorCode 303)
    s!"local parameter requested but resolved root `{root}` is not a module").about
      root).withNote (during request)

/-- Different headings met at an object. -/
def headingClash (request id : String) : Diagnostic :=
  ((Diagnostic.warning (warningCode 300)
    s!"conflicting directions at `{id}`, using bidirectional").about id).withNote
      (during request)

/-- Nothing is left of the tree of a request. -/
def nothingLeft (request : String) : Diagnostic :=
  ((Diagnostic.warning (warningCode 301)
    "insufficient hierarchy information, nothing to realize").about request).withHelp
      "name the hops explicitly or add endpoints in other branches"

/-- A request created no object. -/
def nothingCreated (request : String) : Diagnostic :=
  (Diagnostic.warning (warningCode 302) "no objects were generated").about request

end Interconnect.Report
