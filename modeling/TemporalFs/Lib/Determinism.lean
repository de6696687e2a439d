import Mathlib
import TemporalFs.Lib.Rewind

/-!
# What a log determines

Two runs of row changes with the same log reach the same rows, provided that each change of the one
is told from its entry and the rows before it. An insertion and a deletion are, where the triggers
log rows without loss. An update is told where its entry tells the row it replaced.

The log is all that a reader of the past has, so that a state that the log does not tell cannot be
rebuilt by anyone. The induction is on the run: two runs with the same log have the same number of
changes, and the entries agree one by one. A trigger that writes the same entry for two different
changes breaks it, and the hypothesis on updates is where that is excluded.

## Main results

* `Timeline.rows_eq_of_log_eq`: runs with the same log reach the same rows.
* `RowStep.insert_unique`, `RowStep.delete_unique`, `RowStep.update_unique`: changes told by their
  entries.
* `AuditedTable.rows_eq_of_audit_eq`: tables with the same log hold the same rows.
-/

variable {ρ κ α : Type} [DecidableEq κ] {S : TableSpec ρ κ α}

/-- **Runs with the same log reach the same rows**, where equal entries after equal rows make equal
changes. -/
theorem Timeline.rows_eq_of_log_eq {h h' : List (RowChange ρ α)} {rows rows' : List ρ}
    (ht : Timeline S h rows) (ht' : Timeline S h' rows')
    (hlog : h.map RowChange.entry = h'.map RowChange.entry)
    (htold : ∀ c ∈ h, ∀ c' ∈ h', c.before = c'.before → c.entry = c'.entry → c.after = c'.after) :
    rows = rows' := by
  induction ht generalizing h' rows' with
  | nil =>
    cases ht' with
    | nil => rfl
    | snoc e rows' hrun hstep hseq => simp at hlog
  | @snoc h rows e rows₁ hrun hstep hseq ih =>
    cases ht' with
    | nil => simp at hlog
    | @snoc h' rows' e' _ hrun' hstep' hseq' =>
      rw [List.map_append, List.map_append] at hlog
      obtain ⟨hlog, he⟩ := List.append_inj' hlog rfl
      have hrows := ih hrun' hlog fun c hc c' hc' =>
        htold c (List.mem_append_left _ hc) c' (List.mem_append_left _ hc')
      exact htold ⟨rows, e, rows₁⟩ (by simp) ⟨rows', e', _⟩ (by simp) hrows
        (List.singleton_inj.1 he)

section Unique

variable {rows rows₁ rows₂ : List ρ} {a : α}

theorem RowStep.insert_unique (hS : Function.Injective S.logged)
    (h₁ : RowStep S rows .INSERT a rows₁) (h₂ : RowStep S rows .INSERT a rows₂) :
      rows₁ = rows₂ := by
  generalize ha : a = a' at h₂
  cases h₁ with
  | put r =>
    cases h₂ with
    | put r' => rw [hS ha]

theorem RowStep.delete_unique (hS : Function.Injective S.logged)
    (h₁ : RowStep S rows .DELETE a rows₁) (h₂ : RowStep S rows .DELETE a rows₂) :
      rows₁ = rows₂ := by
  generalize ha : a = a' at h₂
  cases h₁ with
  | erase r hr =>
    cases h₂ with
    | erase r' hr' => rw [hS ha]

/-- The row `old` may be replaced by `new`. -/
def Updatable (S : TableSpec ρ κ α) (rows : List ρ) (old new : ρ) : Prop :=
  old ∈ rows ∧ (S.key new = S.key old ∨ (S.rekeys = true ∧ ∀ r ∈ rows, S.key r ≠ S.key new))

theorem RowStep.update_unique
    (htold : ∀ old new old' new', Updatable S rows old new → Updatable S rows old' new' →
      S.loggedUpdate old new = a → S.loggedUpdate old' new' = a → S.key old = S.key old' ∧
        new = new')
    (h₁ : RowStep S rows .UPDATE a rows₁) (h₂ : RowStep S rows .UPDATE a rows₂) :
      rows₁ = rows₂ := by
  generalize ha : a = a' at h₂
  cases h₁ with
  | update old new hold hkey =>
    cases h₂ with
    | update old' new' hold' hkey' =>
      obtain ⟨hk, rfl⟩ := htold old new old' new' ⟨hold, hkey⟩ ⟨hold', hkey'⟩ rfl ha.symm
      rw [hk]

end Unique

/-- **Tables whose updates are told from their entries** hold the same rows if their logs are the
same. -/
theorem AuditedTable.rows_eq_of_audit_eq (hS : Function.Injective S.logged) (t t' : AuditedTable S)
    (hlog : t.audit = t'.audit)
    (htold : ∀ c ∈ t.history, ∀ c' ∈ t'.history, c.before = c'.before → c.entry = c'.entry →
      c.entry.tgOp = .UPDATE → c.after = c'.after) : t.rows = t'.rows := by
  refine t.timeline.rows_eq_of_log_eq t'.timeline hlog fun c hc c' hc' hbefore hentry => ?_
  have hstep := (t.timeline.step_of_mem hc).1
  have hstep' := (t'.timeline.step_of_mem hc').1
  rw [← hbefore, ← hentry] at hstep'
  cases hop : c.entry.tgOp with
  | INSERT =>
    rw [hop] at hstep hstep'
    exact hstep.insert_unique hS hstep'
  | DELETE =>
    rw [hop] at hstep hstep'
    exact hstep.delete_unique hS hstep'
  | UPDATE => exact htold c hc c' hc' hbefore hentry hop
