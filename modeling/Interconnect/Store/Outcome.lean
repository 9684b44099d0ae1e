import Interconnect.Store.Event
import Interconnect.Store.Basic

/-!
# Outcomes

What an operation leaves behind: the store, the notices it gave, and a result.  A failed
operation also leaves a store, with whatever it changed before it failed.
-/

namespace Interconnect

/-- The store after an operation, what was made known meanwhile, and the result. -/
structure Outcome (ε α : Type) where
  store : Store
  notices : List Notice
  result : Except ε α

namespace Outcome

variable {ε ε' α β : Type}

/-- Success, without a notice. -/
def done (s : Store) (a : α) : Outcome ε α :=
  { store := s, notices := [], result := .ok a }

/-- Failure, without a notice. -/
def fail (s : Store) (e : ε) : Outcome ε α :=
  { store := s, notices := [], result := .error e }

/-- The outcome after earlier notices. -/
def after (notices : List Notice) (o : Outcome ε α) : Outcome ε α :=
  { o with notices := notices ++ o.notices }

/-- Goes on with a successful result. -/
def andThen (o : Outcome ε α) (f : Store → α → Outcome ε β) : Outcome ε β :=
  match o.result with
  | .ok a => (f o.store a).after o.notices
  | .error e => { store := o.store, notices := o.notices, result := .error e }

/-- Changes the result only. -/
def map (f : α → β) (o : Outcome ε α) : Outcome ε β :=
  { store := o.store, notices := o.notices, result := o.result.map f }

/-- Changes the cause of a failure only. -/
def mapError (f : ε → ε') (o : Outcome ε α) : Outcome ε' α :=
  { store := o.store, notices := o.notices, result := o.result.mapError f }

/-- The outcome of an operation that leaves the store alone when it fails. -/
def ofExcept (s : Store) (r : Except ε (Store × α)) : Outcome ε α :=
  match r with
  | .ok (s, a) => done s a
  | .error e => fail s e

/-! ## What an outcome shows -/

@[simp] theorem store_after (notices : List Notice) (o : Outcome ε α) :
    (o.after notices).store = o.store :=
  rfl

@[simp] theorem result_after (notices : List Notice) (o : Outcome ε α) :
    (o.after notices).result = o.result :=
  rfl

@[simp] theorem notices_after (notices : List Notice) (o : Outcome ε α) :
    (o.after notices).notices = notices ++ o.notices :=
  rfl

@[simp] theorem store_map (f : α → β) (o : Outcome ε α) : (o.map f).store = o.store :=
  rfl

@[simp] theorem notices_map (f : α → β) (o : Outcome ε α) : (o.map f).notices = o.notices :=
  rfl

@[simp] theorem store_mapError (f : ε → ε') (o : Outcome ε α) :
    (o.mapError f).store = o.store :=
  rfl

@[simp] theorem notices_mapError (f : ε → ε') (o : Outcome ε α) :
    (o.mapError f).notices = o.notices :=
  rfl

theorem andThen_of_ok {o : Outcome ε α} {a : α} (f : Store → α → Outcome ε β)
    (h : o.result = .ok a) : o.andThen f = (f o.store a).after o.notices := by
  simp [andThen, h]

theorem andThen_of_error {o : Outcome ε α} {e : ε} (f : Store → α → Outcome ε β)
    (h : o.result = .error e) :
    o.andThen f = { store := o.store, notices := o.notices, result := .error e } := by
  simp [andThen, h]

end Outcome

end Interconnect
