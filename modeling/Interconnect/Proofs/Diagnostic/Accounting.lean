import Mathlib.Data.List.Basic
import Interconnect.Diagnostic.Sink

/-!
# Accounting for diagnostics

A sink keeps two records that change at different points: the list of what it holds, which
draining empties, and the count of errors, which nothing lowers.  `Accounts` ties both to
what was emitted: what was handed over and what is still held, one after the other, are the
diagnostics that the policy retained, and the count is the number of errors among them.
Every call keeps the account, and so does any sequence of calls.
-/

namespace Interconnect

namespace Policy

variable {p : Policy} {d e : Diagnostic}

/-- What becomes of a diagnostic that is not dropped: a denied one is an error. -/
def promote (p : Policy) (d : Diagnostic) : Diagnostic :=
  if p.denied.contains d.code then { d with severity := .error } else d

@[simp] theorem code_promote : (p.promote d).code = d.code := by
  unfold promote
  split <;> rfl

theorem promote_promote : p.promote (p.promote d) = p.promote d := by
  unfold promote
  split
  case isTrue denied => rfl
  case isFalse free => rfl

/-- A diagnostic is retained if its code is not allowed and, once promoted, it is as grave as
the threshold asks; then it is retained promoted. -/
theorem apply_eq_some_iff :
    p.apply d = some e ↔
      d.code ∉ p.allowed ∧ ¬ (p.promote d).severity < p.threshold ∧ p.promote d = e := by
  have unfolded : p.apply d = if p.allowed.contains d.code then none
      else if (p.promote d).severity < p.threshold then none else some (p.promote d) := rfl
  simp only [unfolded, List.contains_iff_mem]
  split
  case isTrue allowed => simp [allowed]
  case isFalse unallowed =>
    split
    case isTrue below => simp [below]
    case isFalse above => simp [unallowed, above]

theorem not_error_lt (threshold : Severity) : ¬ Severity.error < threshold := by
  simp [Severity.lt_iff]

theorem promote_of_mem (h : d.code ∈ p.denied) : p.promote d = { d with severity := .error } := by
  rw [promote, if_pos (List.contains_iff_mem.2 h)]

theorem promote_of_notMem (h : d.code ∉ p.denied) : p.promote d = d := by
  rw [promote, if_neg (mt List.contains_iff_mem.1 h)]

/-- A diagnostic is dropped if its code is allowed, or if it is below the threshold and its code is
not denied. -/
theorem apply_eq_none_iff :
    p.apply d = none ↔ d.code ∈ p.allowed ∨ d.code ∉ p.denied ∧ d.severity < p.threshold := by
  rw [Option.eq_none_iff_forall_not_mem]
  by_cases denied : d.code ∈ p.denied
  · simp [apply_eq_some_iff, promote_of_mem denied, not_error_lt, denied]
  · simp [apply_eq_some_iff, promote_of_notMem denied, denied, or_iff_not_imp_left]

/-- What a policy has retained, it retains as it is. -/
theorem apply_of_apply (h : p.apply d = some e) : p.apply e = some e := by
  obtain ⟨allowed, above, rfl⟩ := apply_eq_some_iff.1 h
  rw [apply_eq_some_iff, code_promote, promote_promote]
  exact ⟨allowed, above, rfl⟩

end Policy

namespace Sink

/-! ## Calls -/

/-- One use of a sink. -/
inductive Call where
  | emit (d : Diagnostic)
  | diagnostics
  | drain
  | errorCount
  | hasErrors

/-- What a call gives back. -/
inductive Reply where
  | nothing
  /-- A copy of what the sink holds. -/
  | held (ds : List Diagnostic)
  /-- What the sink held and holds no longer. -/
  | handed (ds : List Diagnostic)
  | count (n : Nat)
  | flag (b : Bool)
  deriving DecidableEq

/-- The sink after a call, and the reply. -/
def call (s : Sink) : Call → Sink × Reply
  | .emit d => (s.emit d, .nothing)
  | .diagnostics => (s, .held s.kept)
  | .drain => (s.drain.2, .handed s.drain.1)
  | .errorCount => (s, .count s.errorCount)
  | .hasErrors => (s, .flag s.hasErrors)

/-- The sink after several calls, and the replies in order. -/
def callAll (s : Sink) : List Call → Sink × List Reply
  | [] => (s, [])
  | c :: cs => (((s.call c).1.callAll cs).1, (s.call c).2 :: ((s.call c).1.callAll cs).2)

/-- What a call emits. -/
def Call.emitted : Call → List Diagnostic
  | emit d => [d]
  | _ => []

/-- What a reply hands over. -/
def Reply.handedOver : Reply → List Diagnostic
  | handed ds => ds
  | _ => []

/-! ## The account -/

/-- The errors of a list. -/
def errors (ds : List Diagnostic) : Nat :=
  ds.countP fun d => d.severity = .error

@[simp] theorem errors_append (ds es : List Diagnostic) :
    errors (ds ++ es) = errors ds + errors es :=
  List.countP_append

/-- The records of a sink that has retained `retained` so far and handed over `handed`. -/
structure Accounts (p : Policy) (retained handed : List Diagnostic) (s : Sink) : Prop where
  policy : s.policy = p
  balance : handed ++ s.kept = retained
  count : s.errorCount = errors retained

theorem errorCount_emit (s : Sink) (d : Diagnostic) :
    (s.emit d).errorCount = s.errorCount + errors (s.policy.apply d).toList := by
  unfold emit
  split
  case h_1 dropped => simp [dropped, errors]
  case h_2 e kept =>
    by_cases grave : e.severity = .error
    · simp [kept, errors, grave]
    · simp [kept, errors, grave]

variable {p : Policy} {retained handed : List Diagnostic} {s : Sink}

theorem accounts_empty (p : Policy) : Accounts p [] [] (.empty p) :=
  ⟨rfl, rfl, rfl⟩

theorem Accounts.emit (h : Accounts p retained handed s) (d : Diagnostic) :
    Accounts p (retained ++ (p.apply d).toList) handed (s.emit d) := by
  obtain ⟨rfl, rfl, count⟩ := h
  constructor
  case policy => exact policy_emit s d
  case balance => rw [kept_emit, List.append_assoc]
  case count => rw [errorCount_emit, count, errors_append (handed ++ s.kept)]

/-- Draining moves what is held to what was handed over, and leaves the count alone. -/
theorem Accounts.drain (h : Accounts p retained handed s) :
    Accounts p retained (handed ++ s.drain.1) s.drain.2 where
  policy := h.policy
  balance := (List.append_nil _).trans h.balance
  count := h.count

/-- Every call keeps the account. -/
theorem Accounts.call (h : Accounts p retained handed s) (c : Call) :
    Accounts p (retained ++ c.emitted.filterMap p.apply) (handed ++ (s.call c).2.handedOver)
      (s.call c).1 := by
  cases c with
  | emit d =>
    have kept : [d].filterMap p.apply = (p.apply d).toList := by
      cases e : p.apply d with
      | none => simp [e]
      | some d' => simp [e]
    simpa [Call.emitted, kept, Sink.call, Reply.handedOver] using h.emit d
  | drain => simpa [Call.emitted, Sink.call, Reply.handedOver] using h.drain
  | diagnostics | errorCount | hasErrors =>
    simpa [Call.emitted, Sink.call, Reply.handedOver] using h

/-- Any sequence of calls keeps the account. -/
theorem Accounts.callAll (h : Accounts p retained handed s) (cs : List Call) :
    Accounts p (retained ++ (cs.flatMap Call.emitted).filterMap p.apply)
      (handed ++ (s.callAll cs).2.flatMap Reply.handedOver) (s.callAll cs).1 := by
  induction cs generalizing s retained handed with
  | nil => simpa [Sink.callAll] using h
  | cons c cs ih => simpa [Sink.callAll, List.append_assoc] using ih (h.call c)

/-- Whatever was called on a sink, what the drains handed over and what a look at the sink
shows now are together the emitted diagnostics as the policy retained them, each once and in
the order of emission.  The number of errors is that of all of these, and there are errors if
and only if it is positive.  The policy would retain each of them again as it is. -/
theorem handedOver_append_held (p : Policy) (cs : List Call) :
    ∃ held retained,
      retained = (cs.flatMap Call.emitted).filterMap p.apply ∧
      ((empty p).callAll cs).1.call .diagnostics
        = (((empty p).callAll cs).1, .held held) ∧
      ((empty p).callAll cs).2.flatMap Reply.handedOver ++ held = retained ∧
      ((empty p).callAll cs).1.call .errorCount
        = (((empty p).callAll cs).1, .count (errors retained)) ∧
      ((empty p).callAll cs).1.call .hasErrors
        = (((empty p).callAll cs).1, .flag (0 < errors retained)) ∧
      ∀ d ∈ retained, p.apply d = some d := by
  have account := (accounts_empty p).callAll cs
  refine ⟨_, _, rfl, rfl, by simpa using account.balance, ?_, ?_, ?_⟩
  · rw [Sink.call, account.count]
    rfl
  · rw [Sink.call, hasErrors, account.count]
    rfl
  · intro d retained
    obtain ⟨d', -, kept⟩ := List.mem_filterMap.1 retained
    exact Policy.apply_of_apply kept

end Sink

end Interconnect
