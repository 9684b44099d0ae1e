import Interconnect.Proofs.Procedure.Realization

/-!
# Commands, step by step

`Command.steps` is a command as it is carried out, and `steps_follows` says that on a reachable
store it does what the command is.  The steps write as they go, and they can stop in more ways than
the command can fail; so it takes the invariants of the store to see that an elementary command
that stops has been refused before it wrote anything (`unchanged_of_stopped`).
-/

namespace Interconnect

namespace Procedure

variable {s : Store}

/-- Makes several events known. -/
def announce : List Event → Procedure Failure Unit
  | [] => return ()
  | e :: rest => do
    note (.event e)
    announce rest

/-- Creates an object, and makes it known. -/
def creating (p : Procedure StoreError Handle) (events : List Event) :
    Procedure Failure Answer := do
  let h ← mapError .store p
  announce events
  return .object h

theorem announce_follows {f : Unit → Procedure Failure Answer} {a : Answer}
    (hf : Follows (f ()) s (.done s a)) (events : List Event) :
    Follows (announce events >>= f) s ((Outcome.done s a).after (events.map .event)) := by
  have hannounce : Follows (announce events) s
      { store := s, notices := events.map .event, result := .ok () } := by
    induction events with
    | nil => exact .done () s
    | cons e rest ih => exact .noted ih
  exact Follows.andThen (g := fun s _ => .done s a) hannounce fun _ _ => hf

theorem creating_follows {p : Procedure StoreError Handle}
    {r : Except StoreError (Store × Handle)} (hp : Follows p s (.ofExcept s r))
    (events : List Event) : Follows (creating p events) s (s.creating r events) := by
  have hmapped := hp.mapError Failure.store
  cases r with
  | error e => exact .stopped hmapped
  | ok created =>
    obtain ⟨s', h⟩ := created
    exact .step hmapped (announce_follows (.done _ s') events)

/-- Adds a part and makes nothing known. -/
def attaching (owner : Handle) (name : String) (p : Part) : Procedure Failure Answer :=
  creating (attach owner name p) []

theorem attaching_follows (hs : s.Sound) (owner : Handle) (name : String) (p : Part) :
    Follows (attaching owner name p) s (s.creating (s.attach owner name p) []) :=
  creating_follows (attach_follows hs owner name p) []

end Procedure

open Procedure

/-- A command as it is carried out. -/
def Command.steps : Command → Procedure Failure Answer
  | addModule name ilm resource =>
    creating (Procedure.addModule name ilm resource) [.moduleCreated name ilm resource]
  | addInstance name module parent => do
    let event ← read fun s => s.placementEvent name module parent
    creating (Procedure.addInstance name module parent) [event]
  | addPort module name direction => attaching module name (.port direction none)
  | addPin inst name connection inverted => attaching inst name (.pin connection inverted none)
  | addParameter module name value isLocal => attaching module name (.parameter value isLocal)
  | addAdjustment inst name value => attaching inst name (.adjustment value)
  | addDeclaration module name defaultType assigned =>
    attaching module name (.declaration defaultType assigned none)
  | addCode module name text => creating (Procedure.addCode module name text) []
  | addRegfile module name => attaching module name (.regfile [])
  | addEntry regfile name => attaching regfile name (.entry [])
  | addRegister entry name => attaching entry name .register
  | addNet name members =>
    creating (Procedure.addNet name members) [.netCreated name (Store.distinct members).length]
  | setAttribute object name value constant =>
    mapError .store do
      Procedure.setAttribute object name value constant
      return .nothing
  | setAttributes object pairs =>
    mapError .store do
      Procedure.setAttributes object pairs
      return .nothing
  | clear => do
    note (.event (.storeCleared (← read Store.size)))
    change fun _ => .empty
    return .nothing
  | request r => mapError .request do return .objects (← run r)

namespace Store

variable {s : Store}

/-- A command that is carried out step by step does what the command is. -/
theorem Reachable.steps_follows (hs : s.Reachable) (c : Command) :
    Follows c.steps s (s.exec c) := by
  have hsound := hs.sound
  cases c with
  | addModule name ilm resource => exact creating_follows (addModule_follows hsound _ _ _) _
  | addInstance name module parent =>
    exact .step (.read _ s) (creating_follows (addInstance_follows hsound _ _ _) _)
  | addCode module name text => exact creating_follows (addCode_follows hsound _ _ _) _
  | addNet name members => exact creating_follows (addNet_follows hsound _ _) _
  | setAttribute object name value constant =>
    have hset :=
      (setAttribute_follows hsound object name value constant).map fun _ => Answer.nothing
    have hmapped := hset.mapError Failure.store
    unfold Store.exec
    dsimp only
    cases hr : s.setAttribute object name value constant with
    | error e =>
      rw [hr] at hmapped
      exact hmapped
    | ok s' =>
      rw [hr] at hmapped
      exact hmapped
  | setAttributes object pairs =>
    have hset := (setAttributes_follows hsound object pairs).map fun _ => Answer.nothing
    have hmapped := hset.mapError Failure.store
    unfold Store.exec
    dsimp only
    generalize s.setAttributes object pairs = outcome at hmapped
    obtain ⟨s', r⟩ := outcome
    cases r with
    | error e => exact hmapped
    | ok u => exact hmapped
  | clear => exact .step (.read _ s) (.noted (.step (.change _ s) (.done _ _)))
  | request r => exact ((run_follows hs r).map Answer.objects).mapError Failure.request
  | _ => exact attaching_follows hsound _ _ _

/-! ## Refused commands -/

end Store

/-- The command is one operation on the store. -/
def Command.IsElementary : Command → Prop
  | setAttributes .. | clear | request _ => False
  | _ => True

namespace Store

variable {s : Store}

theorem creating_eq_error {r : Except StoreError (Store × Handle)} {events : List Event}
    {e : Failure} (h : (s.creating r events).result = .error e) :
    s.creating r events = .fail s e := by
  cases r with
  | ok created => cases h
  | error e' =>
    cases h
    rfl

/-- An elementary command checks everything before it writes. -/
theorem exec_eq_fail {c : Command} (hc : c.IsElementary) {e : Failure}
    (h : (s.exec c).result = .error e) : s.exec c = .fail s e := by
  cases c with
  | setAttributes object pairs | clear | request r => exact hc.elim
  | setAttribute object name value constant =>
    unfold exec at h ⊢
    dsimp only at h ⊢
    split at h
    · cases h
    · cases h
      rfl
  | _ => exact creating_eq_error h

/-- An elementary command that stops has been refused, and it leaves everything as it was. -/
theorem unchanged_of_stopped (hs : s.Reachable) {c : Command} (hc : c.IsElementary)
    {cause : Stop Failure} (hstop : (c.steps s).result = .error cause) :
    (c.steps s).store = s ∧ ∃ e, cause = .refusal e ∧ s.exec c = .fail s e := by
  obtain ⟨e, rfl, he⟩ := (hs.steps_follows c).exists_refusal hstop
  have hfollows : c.steps s = (s.exec c).mapError .refusal := hs.steps_follows c
  have hfail := exec_eq_fail hc he
  rw [hfollows, hfail]
  exact ⟨rfl, e, rfl, rfl⟩

/-- In `nested` the default instance of `leaf` has its place already. -/
theorem unchanged_nested :
    nested.Reachable ∧ (Command.addInstance "leaf" 2 0).IsElementary ∧
      ((Command.addInstance "leaf" 2 0).steps nested).result
        = .error (.refusal (.store (.alreadyPlaced "leaf" "module::top"))) ∧
      ((Command.addInstance "leaf" 2 0).steps nested).store = nested ∧
      ∃ e, Stop.refusal (.store (.alreadyPlaced "leaf" "module::top")) = .refusal e ∧
        nested.exec (.addInstance "leaf" 2 0) = .fail nested e := by
  have hreachable : nested.Reachable := reachable_execAll _
  have hstop : ((Command.addInstance "leaf" 2 0).steps nested).result
      = .error (.refusal (.store (.alreadyPlaced "leaf" "module::top"))) := by decide +kernel
  have helementary : (Command.addInstance "leaf" 2 0).IsElementary := trivial
  exact ⟨hreachable, helementary, hstop, unchanged_of_stopped hreachable helementary hstop⟩

end Store

end Interconnect
