import DecisionLang.Diagnostic.Log
import Mathlib.Data.List.Infix

/-!
# Growing logs

Entries are only ever appended to a log, under the owner of the moment. `Log.Continues` is what all
work on a document keeps of its log: the entries that were there, in front, and the owner.
-/

namespace DecisionLang

def Diagnostic.entry (diagnostic : Diagnostic) (owner : Option String) : LogEntry :=
  ⟨.error, some diagnostic.reference, diagnostic.message, owner, some diagnostic.kind,
    diagnostic.hints⟩

@[simp] theorem Diagnostic.isError_entry (diagnostic : Diagnostic) (owner : Option String) :
    (diagnostic.entry owner).isError = true := rfl

@[simp] theorem Diagnostic.owner_entry (diagnostic : Diagnostic) (owner : Option String) :
    (diagnostic.entry owner).owner = owner := rfl

/-- A later state of a log. -/
structure Log.Continues (log later : Log) : Prop where
  entries : log.entries <+: later.entries
  owner : later.owner = log.owner

namespace Log

variable {log later last : Log}

@[simp] theorem entries_report (log : Log) (diagnostic : Diagnostic) :
    (log.report diagnostic).entries = log.entries ++ [diagnostic.entry log.owner] := rfl

@[simp] theorem entries_reportFor (log : Log) (owner : Option String) (diagnostic : Diagnostic) :
    (log.reportFor owner diagnostic).entries = log.entries ++ [diagnostic.entry owner] := rfl

theorem hasErrors_report (log : Log) (diagnostic : Diagnostic) :
    (log.report diagnostic).hasErrors = true := by
  simp [hasErrors]

theorem errorsOf_reportFor (log : Log) (owner other : Option String) (diagnostic : Diagnostic) :
    (log.reportFor owner diagnostic).errorsOf other =
      log.errorsOf other ++ if owner = other then [diagnostic.entry owner] else [] := by
  unfold errorsOf errors
  rw [entries_reportFor, List.filter_append, List.filter_append]
  by_cases h : owner = other <;> simp [h]

namespace Continues

theorem refl (log : Log) : log.Continues log := ⟨List.prefix_refl _, rfl⟩

theorem trans (h : log.Continues later) (h' : later.Continues last) : log.Continues last :=
  ⟨List.IsPrefix.trans h.entries h'.entries, h'.owner.trans h.owner⟩

theorem add (log : Log) (severity : Severity) (reference : Option Reference) (message : String)
    (kind : Option ErrorKind) (hints : List String) :
    log.Continues (log.add severity reference message kind hints) :=
  ⟨List.prefix_append _ _, rfl⟩

theorem report (log : Log) (diagnostic : Diagnostic) : log.Continues (log.report diagnostic) :=
  ⟨List.prefix_append _ _, rfl⟩

theorem reportFor (log : Log) (owner : Option String) (diagnostic : Diagnostic) :
    log.Continues (log.reportFor owner diagnostic) :=
  ⟨List.prefix_append _ _, rfl⟩

theorem hasErrors (h : log.Continues later) (herrors : log.hasErrors = true) :
    later.hasErrors = true := by
  obtain ⟨entry, hentry, herror⟩ := List.any_eq_true.1 herrors
  exact List.any_eq_true.2 ⟨entry, h.entries.subset hentry, herror⟩

theorem hasErrors_eq_false (h : log.Continues later) (hlater : later.hasErrors = false) :
    log.hasErrors = false := by
  by_contra herrors
  rw [h.hasErrors (eq_true_of_ne_false herrors)] at hlater
  cases hlater

theorem foldl {α : Type} {step : Log → α → Log}
    (hstep : ∀ (log : Log) item, log.Continues (step log item)) (items : List α) (log : Log) :
    log.Continues (items.foldl step log) := by
  induction items generalizing log with
  | nil => exact .refl log
  | cons item items ih => exact (hstep log item).trans (ih _)

end Continues

theorem hasErrors_foldl {α : Type} {step : Log → α → Log}
    (hstep : ∀ (log : Log) item, log.Continues (step log item))
    (herror : ∀ (log : Log) item, (step log item).hasErrors = true) {items : List α}
    (hne : items ≠ []) (log : Log) : (items.foldl step log).hasErrors = true := by
  cases items with
  | nil => exact absurd rfl hne
  | cons item items => exact (Continues.foldl hstep items _).hasErrors (herror log item)

theorem hasErrors_eq_false_iff : log.hasErrors = false ↔ log.errors = [] := by
  unfold hasErrors errors
  rw [List.any_eq_false, List.filter_eq_nil_iff]

end Log

end DecisionLang
