import Interconnect.Settings.Basic
import Interconnect.Proofs.Diagnostic.Accounting

/-!
# Validated settings

Settings are read twice.  Validation reads the listed texts one by one and refuses the first that is
no code; the policy takes the codes among them and skips the rest.  On settings that validation
accepts the two readings agree (`parseCodes_eq_ok_iff`), and no code is in both lists.

A policy puts the allowed codes first, so a denied code that is allowed as well is dropped.  Only
validated settings promise that what is denied is kept.
-/

namespace Interconnect

namespace Settings

/-- One of the texts is read as the code. -/
def Lists (texts : List String) (c : Code) : Prop :=
  ∃ written ∈ texts, Code.parse? written = some c

theorem lists_cons {written : String} {rest : List String} {c : Code} :
    Lists (written :: rest) c ↔ Code.parse? written = some c ∨ Lists rest c := by
  simp [Lists]

theorem lists_iff_mem {texts : List String} {c : Code} :
    Lists texts c ↔ c ∈ texts.filterMap Code.parse? :=
  List.mem_filterMap.symm

/-! ## Validation -/

theorem parseCodes_cons_eq_ok_iff {written : String} {rest : List String} {codes : List Code} :
    parseCodes (written :: rest) = .ok codes ↔
      ∃ c cs, Code.parse? written = some c ∧ parseCodes rest = .ok cs ∧ c :: cs = codes := by
  rw [parseCodes]
  cases Code.parse? written with
  | none => simp
  | some c => cases parseCodes rest <;> simp [Except.map]

/-- Reading a list of codes skips nothing if it succeeds, and fails only on a text that is no
code. -/
theorem parseCodes_eq_ok_iff {texts : List String} {codes : List Code} :
    parseCodes texts = .ok codes ↔
      (∀ written ∈ texts, (Code.parse? written).isSome = true) ∧
        texts.filterMap Code.parse? = codes := by
  induction texts generalizing codes with
  | nil => simp [parseCodes]
  | cons written rest ih =>
    rw [parseCodes_cons_eq_ok_iff, List.forall_mem_cons]
    cases hparse : Code.parse? written with
    | none => simp
    | some c => simp [ih, hparse, and_assoc]

/-- Allowed codes are accepted if all texts are codes and none of them is denied. -/
theorem checkAllowed_eq_ok_iff {denied : List Code} {texts : List String} :
    checkAllowed denied texts = .ok () ↔
      (∀ written ∈ texts, (Code.parse? written).isSome = true) ∧
        ∀ c, Lists texts c → c ∉ denied := by
  induction texts with
  | nil => simp [checkAllowed, Lists]
  | cons written rest ih =>
    rw [checkAllowed]
    simp only [lists_cons, or_imp, forall_and]
    cases hparse : Code.parse? written with
    | none => simp [hparse]
    | some c =>
      by_cases hdenied : c ∈ denied
      · simp [hparse, hdenied]
      · simp [hparse, hdenied, ih]

/-- Settings are accepted if all texts are codes, and no code is both denied and allowed. -/
theorem validate_eq_ok_iff {s : Settings} :
    s.validate = .ok () ↔
      (∀ written ∈ s.deny ++ s.allow, (Code.parse? written).isSome = true) ∧
        ∀ c, ¬ (Lists s.deny c ∧ Lists s.allow c) := by
  simp only [List.forall_mem_append, not_and, and_assoc]
  have hstages : s.validate = .ok () ↔
      ∃ denied, parseCodes s.deny = .ok denied ∧ checkAllowed denied s.allow = .ok () := by
    unfold validate
    cases parseCodes s.deny <;> simp
  simp only [hstages, parseCodes_eq_ok_iff, checkAllowed_eq_ok_iff, and_assoc, exists_and_left,
    exists_eq_left', ← lists_iff_mem]
  have hapart : (∀ c, Lists s.allow c → ¬ Lists s.deny c) ↔
      ∀ c, Lists s.deny c → ¬ Lists s.allow c :=
    forall_congr' fun c => imp_not_comm
  rw [hapart]

/-! ## The policy of validated settings -/

section Policy

variable {s : Settings} {d e : Diagnostic}

theorem apply_policy_eq_none_iff :
    s.policy.apply d = none ↔
      Lists s.allow d.code ∨ ¬ Lists s.deny d.code ∧ d.severity < s.level := by
  rw [Policy.apply_eq_none_iff, lists_iff_mem, lists_iff_mem]
  rfl

/-- What is denied is kept as an error, as long as it is not allowed. -/
theorem apply_policy_of_lists (hdenied : Lists s.deny d.code) (hallowed : ¬ Lists s.allow d.code) :
    s.policy.apply d = some { d with severity := .error } := by
  rw [lists_iff_mem] at hdenied hallowed
  rw [Policy.apply_eq_some_iff, Policy.promote_of_mem hdenied]
  exact ⟨hallowed, Policy.not_error_lt _, rfl⟩

/-- What is kept and not denied is kept as it is. -/
theorem eq_of_apply_policy (hdenied : ¬ Lists s.deny d.code) (h : s.policy.apply d = some e) :
    e = d := by
  rw [lists_iff_mem] at hdenied
  obtain ⟨-, -, hpromoted⟩ := Policy.apply_eq_some_iff.1 h
  rw [← hpromoted, Policy.promote_of_notMem hdenied]

end Policy

/-- Settings are accepted if and only if all listed texts are codes and no code is both denied and
allowed, however it is spelled.  The policy of accepted settings drops a diagnostic if and only if
its code is allowed, or is not denied and its severity is below the level.  It always keeps a
diagnostic with a denied code, as an error, and all that it keeps otherwise is unchanged. -/
theorem validate_decides (s : Settings) :
    (s.validate = .ok () ↔
      (∀ written ∈ s.deny ++ s.allow, (Code.parse? written).isSome = true) ∧
        ∀ c, ¬ (Lists s.deny c ∧ Lists s.allow c)) ∧
    (s.validate = .ok () → ∀ d,
      (s.policy.apply d = none ↔
        Lists s.allow d.code ∨ ¬ Lists s.deny d.code ∧ d.severity < s.level) ∧
      (Lists s.deny d.code → s.policy.apply d = some { d with severity := .error }) ∧
      ∀ e, s.policy.apply d = some e → ¬ Lists s.deny d.code → e = d) := by
  refine ⟨validate_eq_ok_iff, fun hvalid d => ⟨apply_policy_eq_none_iff, fun hdenied => ?_,
    fun e hkept hdenied => eq_of_apply_policy hdenied hkept⟩⟩
  obtain ⟨-, hapart⟩ := validate_eq_ok_iff.1 hvalid
  exact apply_policy_of_lists hdenied fun hallowed => hapart d.code ⟨hdenied, hallowed⟩

/-- A code that is allowed in one spelling, and another one that is denied in two. -/
def respelled : Settings :=
  { level := .error, deny := ["N7", "N007"], allow := ["W0300"] }

theorem validate_decides_respelled :
    respelled.validate = .ok () ∧
      ∀ d, (respelled.policy.apply d = none ↔
        Lists respelled.allow d.code ∨
          ¬ Lists respelled.deny d.code ∧ d.severity < respelled.level) ∧
      (Lists respelled.deny d.code →
        respelled.policy.apply d = some { d with severity := .error }) ∧
      ∀ e, respelled.policy.apply d = some e → ¬ Lists respelled.deny d.code → e = d := by
  have hvalid : respelled.validate = .ok () := by decide
  exact ⟨hvalid, (validate_decides respelled).2 hvalid⟩

end Settings

end Interconnect
