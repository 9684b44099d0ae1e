import Interconnect.Store.Outcome

/-!
# Procedures

An operation on a store says what it checks and what it writes, and writes only when every check
has been passed.  A procedure is the same work one step after the other.  It keeps what it has
changed when it stops halfway, and there are more ways to stop: besides a refusal, it may find
that an object it has checked is not what it was, it may index the arena out of range, and it may
read a text that is not in the string table.  A stored text stands for its number in the table,
and a text outside the table has no number.

`Follows` says that a procedure does what an operation says.  Then it stops only where the
operation refuses, with the same refusal, and leaves the same store behind.
-/

namespace Interconnect

/-- Why a procedure stops. -/
inductive Stop (ε : Type) where
  /-- What was asked for is refused. -/
  | refusal (e : ε)
  /-- Something is not as it was checked to be. -/
  | internal (message : String)
  /-- Nothing was allocated under the handle. -/
  | outOfRange (h : Handle)
  /-- The text is not in the string table. -/
  | unknownText (text : String)
  deriving DecidableEq

/-- Changes a refusal only. -/
def Stop.map {ε ε' : Type} (f : ε → ε') : Stop ε → Stop ε'
  | refusal e => refusal (f e)
  | internal message => internal message
  | outOfRange h => outOfRange h
  | unknownText text => unknownText text

/-- Work on a store, one step after the other. -/
def Procedure (ε α : Type) : Type :=
  Store → Outcome (Stop ε) α

/-- The outcome of a check, which leaves the store alone. -/
def Outcome.check {ε α : Type} (s : Store) (r : Except ε α) : Outcome ε α :=
  .ofExcept s (r.map fun a => (s, a))

namespace Procedure

variable {ε ε' α β : Type}

instance : Monad (Procedure ε) where
  pure a s := .done s a
  bind p f s := (p s).andThen fun s a => f a s

/-! ## Steps -/

/-- Stops. -/
def stop (cause : Stop ε) : Procedure ε α := fun s =>
  .fail s cause

/-- Refuses. -/
def refuse (e : ε) : Procedure ε α :=
  stop (.refusal e)

/-- Looks at the store. -/
def read (f : Store → α) : Procedure ε α := fun s =>
  .done s (f s)

/-- Changes the store. -/
def change (f : Store → Store) : Procedure ε Unit := fun s =>
  .done (f s) ()

/-- Makes something known. -/
def note (notice : Notice) : Procedure ε Unit := fun s =>
  (Outcome.done s ()).after [notice]

/-- Reads a text by its number. -/
def resolve (text : String) : Procedure ε String := fun s =>
  if s.strings.contains text then .done s text else .fail s (.unknownText text)

/-- Indexes the arena. -/
def item (h : Handle) : Procedure ε Object := fun s =>
  match s.object? h with
  | some o => .done s o
  | none => .fail s (.outOfRange h)

/-- Changes an object that has been checked to be of a kind. -/
def amend (k : Kind) (h : Handle) (f : Object → Object) : Procedure ε Unit := fun s =>
  if (s.object? h).any fun o => o.kind = k then .done (s.modify h f) ()
  else .fail s (.internal ("object " ++ h.text ++ " is not a " ++ k.name))

/-- Goes on after a refusal, and with the store that it left behind. -/
def attempt (p : Procedure ε α) : Procedure ε' (Except ε α) := fun s =>
  match (p s).result with
  | .ok a => { p s with result := .ok (.ok a) }
  | .error (.refusal e) => { p s with result := .ok (.error e) }
  | .error (.internal message) => { p s with result := .error (.internal message) }
  | .error (.outOfRange h) => { p s with result := .error (.outOfRange h) }
  | .error (.unknownText text) => { p s with result := .error (.unknownText text) }

/-- Changes a refusal only. -/
def mapError (f : ε → ε') (p : Procedure ε α) : Procedure ε' α := fun s =>
  (p s).mapError (Stop.map f)

/-! ## Following an operation -/

theorem ok_mapError (f : ε → ε') (a : α) :
    (Except.ok a : Except ε α).mapError f = .ok a :=
  rfl

theorem error_mapError (f : ε → ε') (e : ε) :
    (Except.error e : Except ε α).mapError f = .error (f e) :=
  rfl

/-- On this store, the procedure does what the outcome says. -/
def Follows (p : Procedure ε α) (s : Store) (o : Outcome ε α) : Prop :=
  p s = o.mapError .refusal

namespace Follows

variable {p : Procedure ε α} {f : α → Procedure ε β} {s s' : Store}

theorem done (a : α) (s : Store) : Follows (pure a : Procedure ε α) s (.done s a) :=
  rfl

theorem fail (e : ε) (s : Store) : Follows (refuse e : Procedure ε α) s (.fail s e) :=
  rfl

theorem read (g : Store → α) (s : Store) :
    Follows (Procedure.read g : Procedure ε α) s (.done s (g s)) :=
  rfl

theorem change (g : Store → Store) (s : Store) :
    Follows (Procedure.change g : Procedure ε Unit) s (.done (g s) ()) :=
  rfl

theorem resolve {text : String} (h : text ∈ s.strings.texts) :
    Follows (Procedure.resolve text : Procedure ε String) s (.done s text) := by
  have hcontains : s.strings.contains text = true := List.contains_iff_mem.2 h
  unfold Follows Procedure.resolve
  rw [if_pos hcontains]
  rfl

theorem item {h : Handle} {o : Object} (ho : s.object? h = some o) :
    Follows (Procedure.item h : Procedure ε Object) s (.done s o) := by
  unfold Follows Procedure.item
  rw [ho]
  rfl

theorem amend {k : Kind} {h : Handle} {o : Object} (ho : s.object? h = some o) (hk : o.kind = k)
    (g : Object → Object) :
    Follows (Procedure.amend k h g : Procedure ε Unit) s (.done (s.modify h g) ()) := by
  unfold Follows Procedure.amend
  rw [ho, Option.any_some, if_pos (by simp [hk])]
  rfl

/-- After a procedure comes what comes after the operation. -/
theorem andThen {o : Outcome ε α} {g : Store → α → Outcome ε β} (hp : Follows p s o)
    (hf : ∀ a, o.result = .ok a → Follows (f a) o.store (g o.store a)) :
    Follows (p >>= f) s (o.andThen g) := by
  show (p s).andThen _ = _
  rw [hp]
  cases hr : o.result with
  | error e => simp [Outcome.andThen, Outcome.mapError, hr, error_mapError]
  | ok a =>
    have ha : f a o.store = (g o.store a).mapError .refusal := hf a hr
    simp [Outcome.andThen, Outcome.mapError, hr, ok_mapError, ha, Outcome.after]

/-- A step that succeeds gives notice of nothing but what it says. -/
theorem step {a : α} {o : Outcome ε β} (hp : Follows p s (.done s' a)) (hf : Follows (f a) s' o) :
    Follows (p >>= f) s o := by
  show (p s).andThen _ = _
  rw [hp]
  exact hf

/-- A step that stops ends the procedure. -/
theorem stopped {e : ε} {notices : List Notice}
    (hp : Follows p s { store := s', notices, result := .error e }) :
    Follows (p >>= f) s { store := s', notices, result := .error e } := by
  show (p s).andThen _ = _
  rw [hp]
  rfl

/-- What is made known comes before what is made known later. -/
theorem noted {k : PUnit → Procedure ε β} {r : Except ε β} {notice : Notice}
    {notices : List Notice} (hk : Follows (k ()) s { store := s', notices, result := r }) :
    Follows (Procedure.note notice >>= k) s
      { store := s', notices := notice :: notices, result := r } := by
  show (k () s).after [notice] = _
  rw [hk]
  rfl

/-- The result is changed. -/
theorem map {o : Outcome ε α} (hp : Follows p s o) (g : α → β) :
    Follows (p >>= fun a => pure (g a)) s (o.map g) := by
  show (p s).andThen _ = _
  rw [hp]
  cases hr : o.result <;>
    simp [Outcome.andThen, Outcome.map, Outcome.mapError, Except.map, ok_mapError, error_mapError,
      hr, Outcome.after, Pure.pure, Outcome.done]

/-- The result of a check is changed. -/
theorem mapCheck {r : Except ε α} (hp : Follows p s (.check s r)) (g : α → β) :
    Follows (p >>= fun a => pure (g a)) s (.check s (r.map g)) := by
  show (p s).andThen _ = _
  rw [hp]
  cases r <;> rfl

/-- A check of a procedure is a check of the operation. -/
theorem bind {r : Except ε α} {g : α → Except ε (Store × β)} (hp : Follows p s (.check s r))
    (hf : ∀ a, r = .ok a → Follows (f a) s (.ofExcept s (g a))) :
    Follows (p >>= f) s (.ofExcept s (r >>= g)) := by
  show (p s).andThen _ = _
  rw [hp]
  cases r with
  | error e => rfl
  | ok a => exact hf a rfl

/-- So it is where the operation gives something else than a store and a result. -/
theorem bindMap {γ : Type} {r : Except ε α} {g : α → Except ε γ} {φ : γ → Store × β}
    (hp : Follows p s (.check s r))
    (hf : ∀ a, r = .ok a → Follows (f a) s (.ofExcept s ((g a).map φ))) :
    Follows (p >>= f) s (.ofExcept s ((r >>= g).map φ)) := by
  show (p s).andThen _ = _
  rw [hp]
  cases r with
  | error e => rfl
  | ok a => exact hf a rfl

/-- A guard of a procedure is a guard of the operation. -/
theorem guard {c : Prop} [Decidable c] {e : ε} {q : Procedure ε PUnit}
    {k : PUnit → Procedure ε α} {g : PUnit → Except ε (Store × α)}
    (hq : c → Follows q s (.fail s e)) (h : ¬ c → Follows (k ()) s (.ofExcept s (g ()))) :
    Follows (if c then q >>= k else k ()) s
      (.ofExcept s (if c then throw e >>= g else g ())) := by
  by_cases hc : c
  · rw [if_pos hc, if_pos hc]
    show (q s).andThen _ = _
    rw [hq hc]
    rfl
  · rw [if_neg hc, if_neg hc]
    exact h hc

theorem guardMap {γ : Type} {c : Prop} [Decidable c] {e : ε} {q : Procedure ε PUnit}
    {k : PUnit → Procedure ε α} {g : PUnit → Except ε γ} {φ : γ → Store × α}
    (hq : c → Follows q s (.fail s e))
    (h : ¬ c → Follows (k ()) s (.ofExcept s ((g ()).map φ))) :
    Follows (if c then q >>= k else k ()) s
      (.ofExcept s ((if c then throw e >>= g else g ()).map φ)) := by
  by_cases hc : c
  · rw [if_pos hc, if_pos hc]
    show (q s).andThen _ = _
    rw [hq hc]
    rfl
  · rw [if_neg hc, if_neg hc]
    exact h hc

theorem mapError {o : Outcome ε α} (hp : Follows p s o) (g : ε → ε') :
    Follows (p.mapError g) s (o.mapError g) := by
  show (p s).mapError (Stop.map g) = _
  rw [hp]
  cases hr : o.result <;> simp [Outcome.mapError, ok_mapError, error_mapError, Stop.map, hr]

/-- A procedure that follows an operation stops only where the operation refuses. -/
theorem attempt {o : Outcome ε α} (hp : Follows p s o) :
    Follows (p.attempt : Procedure ε' (Except ε α)) s
      { store := o.store, notices := o.notices, result := .ok o.result } := by
  unfold Follows Procedure.attempt
  rw [hp]
  cases hr : o.result <;> simp [Outcome.mapError, ok_mapError, error_mapError, hr]

/-- It stops where the operation refuses, and with the same refusal. -/
theorem exists_refusal {o : Outcome ε α} (hp : Follows p s o) {cause : Stop ε}
    (h : (p s).result = .error cause) : ∃ e, cause = .refusal e ∧ o.result = .error e := by
  have hfollows : p s = o.mapError .refusal := hp
  rw [hfollows] at h
  cases hr : o.result with
  | ok a => simp [Outcome.mapError, hr, ok_mapError] at h
  | error e => exact ⟨e, by simpa [Outcome.mapError, hr, error_mapError] using h.symm, rfl⟩

end Follows

end Procedure

end Interconnect
