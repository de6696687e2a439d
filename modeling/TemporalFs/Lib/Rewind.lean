import Mathlib
import TemporalFs.Lib.AuditedTable

/-!
# Reading the past of a table from its audit log

A past state of a table is asked for by a time: the rows that the table held after its last change
stamped before it. The log answers with a query that takes, for each key, the entry with the
largest stamp before the time, and leaves the key out where that entry is a deletion (`view`).

What the query finds is the last entry of a key, provided that stamps increase. Whether that is
what the table held depends on what the entries carry. `RowChange.Local` says that a change
concerns only the key it logs, and `RowChange.Plain` that it logs the row itself.

## Main definitions

* `entriesBefore`, `latest`, `view`: the query.
* `rowsAfter`, `AuditedTable.rowsAt`, `AuditedTable.findAt`: the rows held at a past time.
* `lastChange`: the last change that logged a key.

## Main results

* `AuditedTable.cut`: the past state of a table is a table, with a part of the history.
* `Timeline.mem_iff_lastChange`: a row is in the table if and only if the last change of its key
  put it there.
* `AuditedTable.find?_view`: what the query finds for a key.
* `AuditedTable.mem_view_iff`: the query answers with the rows of the table where changes are plain.
-/

variable {ρ κ α κ' : Type} [DecidableEq κ] [DecidableEq κ']

/-! ### The query -/

/-- The entries stamped before a time, which is where a query of the past looks. -/
def entriesBefore (log : List (AuditRow α)) (time : ℕ) : List (AuditRow α) :=
  log.filter fun e => e.timestampUtc < time

/-- The join of the entries with the largest stamp of their group. -/
def latest (key : α → κ') (entries : List (AuditRow α)) : List (AuditRow α) :=
  entries.filter fun e => ∀ e' ∈ entries, key e'.payload = key e.payload →
    e'.timestampUtc ≤ e.timestampUtc

/-- What the entries of the join that are no deletions carry. -/
def view (key : α → κ') (log : List (AuditRow α)) (time : ℕ) : List α :=
  ((latest key (entriesBefore log time)).filter fun e => e.tgOp ≠ .DELETE).map AuditRow.payload

/-! ### The rows held at a time -/

/-- The rows after the last change of a list, none where the list is empty. -/
def rowsAfter (h : List (RowChange ρ α)) : List ρ := (h.getLast?.map RowChange.after).getD []

/-- The last change that logged a payload with the key `k`. -/
def lastChange (key : α → κ') (h : List (RowChange ρ α)) (k : κ') : Option (RowChange ρ α) :=
  (h.filter fun c => key c.entry.payload = k).getLast?

/-- A change that concerns only the rows with the key that it logs. -/
def RowChange.Local (key : α → κ') (rowKey : ρ → κ') (c : RowChange ρ α) : Prop :=
  ∀ r, rowKey r ≠ key c.entry.payload → (r ∈ c.after ↔ r ∈ c.before)

/-- A change that logs the new row, or the old one where it deletes it, and concerns no other. -/
def RowChange.Plain (key : ρ → κ') (c : RowChange ρ ρ) : Prop :=
  ∀ r, r ∈ c.after ↔ (key r ≠ key c.entry.payload ∧ r ∈ c.before) ∨
    (c.entry.tgOp ≠ .DELETE ∧ r = c.entry.payload)

omit [DecidableEq κ'] in
theorem RowChange.Plain.isLocal {key : ρ → κ'} {c : RowChange ρ ρ} (hc : c.Plain key) :
    c.Local key key := by
  intro r hr
  rw [hc r]
  constructor
  · rintro (h | h)
    · exact h.2
    · exact absurd (congrArg key h.2) hr
  · exact fun h => Or.inl ⟨hr, h⟩

@[simp] theorem lastChange_nil (key : α → κ') (k : κ') :
    lastChange key ([] : List (RowChange ρ α)) k = none := rfl

theorem lastChange_snoc (key : α → κ') (h : List (RowChange ρ α)) (c : RowChange ρ α) (k : κ') :
    lastChange key (h ++ [c]) k =
      if key c.entry.payload = k then some c else lastChange key h k := by
  unfold lastChange
  split_ifs with hk <;> simp [List.filter_append, hk]

theorem key_of_lastChange {key : α → κ'} {h : List (RowChange ρ α)} {k : κ'}
    {c : RowChange ρ α} (hc : lastChange key h k = some c) : key c.entry.payload = k := by
  have := List.mem_of_getLast? hc
  simpa using (List.mem_filter.1 this).2

theorem mem_of_lastChange {key : α → κ'} {h : List (RowChange ρ α)} {k : κ'}
    {c : RowChange ρ α} (hc : lastChange key h k = some c) : c ∈ h :=
  (List.mem_filter.1 (List.mem_of_getLast? hc)).1

namespace Timeline

variable {S : TableSpec ρ κ α} {h : List (RowChange ρ α)} {rows : List ρ}

theorem rows_eq (ht : Timeline S h rows) : rows = rowsAfter h := by
  cases ht with
  | nil => rfl
  | snoc e rows' => simp [rowsAfter]

/-- A part of a run is a run. -/
theorem left {h' : List (RowChange ρ α)} (ht : Timeline S (h ++ h') rows) :
    Timeline S h (rowsAfter h) := by
  induction h' using List.reverseRecOn generalizing rows with
  | nil =>
    rw [List.append_nil] at ht
    exact ht.rows_eq ▸ ht
  | append_singleton l c ih =>
    rw [← List.append_assoc] at ht
    generalize hl : h ++ l ++ [c] = h₁ at ht
    cases ht with
    | nil => simp at hl
    | snoc e rows' hrun hstep hseq =>
      obtain ⟨rfl, -⟩ := List.append_inj' hl rfl
      exact ih hrun

/-- The rows before a change are those that the run had reached. -/
theorem before {h' : List (RowChange ρ α)} {c : RowChange ρ α}
    (ht : Timeline S (h ++ c :: h') rows) : Timeline S h c.before := by
  rw [show h ++ c :: h' = (h ++ [c]) ++ h' by simp] at ht
  have hleft := ht.left
  generalize hl : h ++ [c] = h₁ at hleft
  generalize rowsAfter h₁ = rows₁ at hleft
  cases hleft with
  | nil => simp at hl
  | snoc e rows' hrun hstep hseq =>
    obtain ⟨rfl, hc⟩ := List.append_inj' hl rfl
    obtain rfl := List.singleton_inj.1 hc
    exact hrun

theorem step_of_mem (ht : Timeline S h rows) {c : RowChange ρ α} (hc : c ∈ h) :
    RowStep S c.before c.entry.tgOp c.entry.payload c.after ∧ (c.before.map S.key).Nodup := by
  induction ht with
  | nil => simp at hc
  | snoc e rows' hrun hstep hseq ih =>
    rcases List.mem_append.1 hc with hc | hc
    · exact ih hc
    · obtain rfl := List.mem_singleton.1 hc
      exact ⟨hstep, hrun.nodup_keys⟩

/-- **The last change decides.** A row is in the table if and only if the last change of its key
left it there. -/
theorem mem_iff_lastChange (ht : Timeline S h rows) {key : α → κ'} {rowKey : ρ → κ'}
    (hlocal : ∀ c ∈ h, c.Local key rowKey) (r : ρ) :
    r ∈ rows ↔ ∃ c, lastChange key h (rowKey r) = some c ∧ r ∈ c.after := by
  induction ht with
  | nil => simp
  | @snoc h rows e rows' hrun hstep hseq ih =>
    have hc := hlocal ⟨rows, e, rows'⟩ (by simp)
    have ih := ih fun c hc => hlocal c (List.mem_append_left _ hc)
    rw [lastChange_snoc]
    split_ifs with hk
    · simp
    · rw [← ih]
      exact hc r fun hr => hk hr.symm

end Timeline

namespace AuditedTable

variable {S : TableSpec ρ κ α}

/-- The changes stamped before a time, in the order in which they were made. -/
def changesBefore (t : AuditedTable S) (time : ℕ) : List (RowChange ρ α) :=
  t.history.filter fun c => c.entry.timestampUtc < time

/-- The rows that the table held after its last change stamped before `time`. -/
def rowsAt (t : AuditedTable S) (time : ℕ) : List ρ := rowsAfter (t.changesBefore time)

/-- The row with the key `k` that the table held after its last change stamped before `time`. -/
def findAt (t : AuditedTable S) (time : ℕ) (k : κ) : Option ρ :=
  (t.rowsAt time).find? fun r => S.key r = k

/-- No entry of the log is stamped before an earlier one. -/
def Ordered (t : AuditedTable S) : Prop :=
  t.audit.Pairwise fun e e' => e.timestampUtc ≤ e'.timestampUtc

/-- Each entry of the log is stamped after the one before it. -/
def StrictlyOrdered (t : AuditedTable S) : Prop :=
  t.audit.Pairwise fun e e' => e.timestampUtc < e'.timestampUtc

theorem StrictlyOrdered.ordered {t : AuditedTable S} (ht : t.StrictlyOrdered) : t.Ordered :=
  ht.imp fun h => h.le

omit [DecidableEq κ] in
private theorem filter_eq_takeWhile {β : Type} (f : β → ℕ) (time : ℕ) :
    (l : List β) → l.Pairwise (fun a b => f a ≤ f b) →
      l.filter (fun a => f a < time) = l.takeWhile fun a => f a < time
  | [], _ => rfl
  | a :: l, hl => by
      rw [List.pairwise_cons] at hl
      by_cases ha : f a < time
      · simp only [List.filter_cons, List.takeWhile_cons, ha, decide_true, ↓reduceIte,
          filter_eq_takeWhile f time l hl.2]
      · have : l.filter (fun b => f b < time) = [] := by
          rw [List.filter_eq_nil_iff]
          intro b hb
          simpa using (not_lt.1 ha).trans (hl.1 b hb)
        simp only [List.filter_cons, List.takeWhile_cons, ha, decide_false, this,
          Bool.false_eq_true, ↓reduceIte]

theorem changesBefore_append {t : AuditedTable S} (ht : t.Ordered) (time : ℕ) :
    ∃ rest, t.history = t.changesBefore time ++ rest := by
  unfold Ordered audit at ht
  have hpw := List.pairwise_map.1 ht
  refine ⟨t.history.dropWhile fun c => c.entry.timestampUtc < time, ?_⟩
  unfold changesBefore
  rw [filter_eq_takeWhile _ time _ hpw, List.takeWhile_append_dropWhile]

/-- The past state of a table: the one that the changes stamped before the time had reached. -/
def cut (t : AuditedTable S) (ht : t.Ordered) (time : ℕ) : AuditedTable S where
  rows := t.rowsAt time
  history := t.changesBefore time
  timeline := by
    obtain ⟨rest, hrest⟩ := changesBefore_append ht time
    exact (hrest ▸ t.timeline).left

theorem findAt_eq_find_cut (t : AuditedTable S) (ht : t.Ordered) (time : ℕ) (k : κ) :
    t.findAt time k = (t.cut ht time).find k := rfl

/-- No change is stamped after `now`, so that later changes cannot be taken for earlier ones. -/
def StampedBy (t : AuditedTable S) (now : ℕ) : Prop :=
  ∀ c ∈ t.history, c.entry.timestampUtc ≤ now

/-- A time after all stamps is the present: its rows are those of the table. -/
theorem rowsAt_of_stampedBy {t : AuditedTable S} {now : ℕ} (ht : t.StampedBy now) {time : ℕ}
    (hlt : now < time) : t.rowsAt time = t.rows := by
  have hall : t.changesBefore time = t.history :=
    List.filter_eq_self.2 fun c hc => by simpa using (ht c hc).trans_lt hlt
  rw [rowsAt, hall, ← t.timeline.rows_eq]

/-- A change made later leaves the past as it was. -/
theorem Extends.rowsAt_eq {t t' : AuditedTable S} {now : ℕ} (h : t.Extends t' now) {time : ℕ}
    (hle : time ≤ now) : t'.rowsAt time = t.rowsAt time := by
  rcases h with rfl | ⟨c, hc, hstamp⟩
  · rfl
  · have hdrop : ¬ c.entry.timestampUtc < time := by omega
    simp [rowsAt, changesBefore, hc, List.filter_append, hdrop]

theorem Extends.stampedBy {t t' : AuditedTable S} {now now' : ℕ} (h : t.Extends t' now)
    (ht : t.StampedBy now) (hle : now ≤ now') : t'.StampedBy now' := by
  rcases h with rfl | ⟨c, hc, hstamp⟩
  · exact fun c hc => (ht c hc).trans hle
  · intro c' hc'
    rw [hc] at hc'
    rcases List.mem_append.1 hc' with hc' | hc'
    · exact (ht c' hc').trans hle
    · obtain rfl := List.mem_singleton.1 hc'
      exact hstamp.trans_le hle

theorem Extends.ordered {t t' : AuditedTable S} {now : ℕ} (h : t.Extends t' now)
    (ht : t.StampedBy now) (hord : t.Ordered) : t'.Ordered := by
  rcases h with rfl | ⟨c, hc, hstamp⟩
  · exact hord
  · unfold Ordered audit at hord ⊢
    rw [hc, List.map_append, List.pairwise_append]
    refine ⟨hord, by simp, fun e he e' he' => ?_⟩
    obtain ⟨c', hc', rfl⟩ := List.mem_map.1 he
    obtain rfl : e' = c.entry := by simpa using he'
    exact hstamp ▸ ht c' hc'

theorem entriesBefore_audit (t : AuditedTable S) (time : ℕ) :
    entriesBefore t.audit time = (t.changesBefore time).map RowChange.entry := by
  simp only [entriesBefore, audit, changesBefore, List.filter_map]
  rfl

end AuditedTable

/-! ### What the query finds -/

section Query

variable (key : α → κ')

omit [DecidableEq κ] in
theorem getLast?_filter_entries (h : List (RowChange ρ α)) (k : κ') :
    ((h.map RowChange.entry).filter fun e => key e.payload = k).getLast? =
      (lastChange key h k).map RowChange.entry := by
  rw [List.filter_map, List.getLast?_map]
  rfl

/-- The last entry of a key is in the join where stamps do not decrease. -/
theorem mem_latest_of_getLast? {entries : List (AuditRow α)}
    (hord : entries.Pairwise fun e e' => e.timestampUtc ≤ e'.timestampUtc) {k : κ'}
    {e : AuditRow α} (he : (entries.filter fun e => key e.payload = k).getLast? = some e) :
    e ∈ latest key entries := by
  have hmem := List.mem_filter.1 (List.mem_of_getLast? he)
  have hk : key e.payload = k := by simpa using hmem.2
  refine List.mem_filter.2 ⟨hmem.1, ?_⟩
  simp only [decide_eq_true_eq]
  intro e' he' hkey
  have hsplit := List.dropLast_append_getLast? e he
  have hpw := hord.filter fun e => key e.payload = k
  rw [← hsplit, List.pairwise_append] at hpw
  have hin : e' ∈ entries.filter fun e => key e.payload = k :=
    List.mem_filter.2 ⟨he', by simp [hkey, hk]⟩
  rw [← hsplit, List.mem_append, List.mem_singleton] at hin
  rcases hin with hin | rfl
  · exact hpw.2.2 e' hin e (List.mem_singleton_self e)
  · exact le_rfl

/-- Where stamps increase, the join has exactly the last entry of each key. -/
theorem mem_latest_iff {entries : List (AuditRow α)}
    (hord : entries.Pairwise fun e e' => e.timestampUtc < e'.timestampUtc) (e : AuditRow α) :
    e ∈ latest key entries ↔
      (entries.filter fun e' => key e'.payload = key e.payload).getLast? = some e := by
  refine ⟨fun he => ?_, mem_latest_of_getLast? key (hord.imp fun h => h.le)⟩
  obtain ⟨hmem, hmax⟩ := List.mem_filter.1 he
  simp only [decide_eq_true_eq] at hmax
  have hin : e ∈ entries.filter fun e' => key e'.payload = key e.payload :=
    List.mem_filter.2 ⟨hmem, by simp⟩
  cases hlast : (entries.filter fun e' => key e'.payload = key e.payload).getLast? with
  | none => exact absurd (List.getLast?_eq_none_iff.1 hlast ▸ hin) (by simp)
  | some l =>
    have hl := List.mem_filter.1 (List.mem_of_getLast? hlast)
    have hle := hmax l hl.1 (by simpa using hl.2)
    have hsplit := List.dropLast_append_getLast? l hlast
    have hpw := hord.filter fun e' => key e'.payload = key e.payload
    rw [← hsplit, List.pairwise_append] at hpw
    rw [← hsplit, List.mem_append, List.mem_singleton] at hin
    rcases hin with hin | rfl
    · exact absurd (hpw.2.2 e hin l (List.mem_singleton_self l)) (by omega)
    · rfl

end Query

namespace AuditedTable

variable {S : TableSpec ρ κ α}

theorem StrictlyOrdered.pairwise_entriesBefore {t : AuditedTable S} (ht : t.StrictlyOrdered)
    (time : ℕ) : (entriesBefore t.audit time).Pairwise
      fun e e' => e.timestampUtc < e'.timestampUtc :=
  List.Pairwise.filter _ ht

/-- What the query answers where stamps increase: for each key what the last change before the time
has logged, unless that is a deletion. -/
theorem mem_view (t : AuditedTable S) (ht : t.StrictlyOrdered) (key : α → κ') (time : ℕ) (a : α) :
    a ∈ view key t.audit time ↔ ∃ c, lastChange key (t.changesBefore time) (key a) = some c ∧
      c.entry.tgOp ≠ .DELETE ∧ c.entry.payload = a := by
  simp only [view, List.mem_map, List.mem_filter, decide_eq_true_eq]
  constructor
  · rintro ⟨e, ⟨he, hop⟩, rfl⟩
    rw [mem_latest_iff key (ht.pairwise_entriesBefore time), entriesBefore_audit,
      getLast?_filter_entries, Option.map_eq_some_iff] at he
    obtain ⟨c, hc, rfl⟩ := he
    exact ⟨c, hc, hop, rfl⟩
  · rintro ⟨c, hc, hop, rfl⟩
    refine ⟨c.entry, ⟨?_, hop⟩, rfl⟩
    rw [mem_latest_iff key (ht.pairwise_entriesBefore time), entriesBefore_audit,
      getLast?_filter_entries, hc, Option.map_some]

/-- The changes up to the one at the head of the rest, asked for by the time after its stamp. -/
theorem changesBefore_eq {t : AuditedTable S} (ht : t.StrictlyOrdered)
    {h h' : List (RowChange ρ α)} {c : RowChange ρ α} (hist : t.history = h ++ c :: h') :
    t.changesBefore (c.entry.timestampUtc + 1) = h ++ [c] := by
  unfold StrictlyOrdered audit at ht
  have hpw := List.pairwise_map.1 ht
  rw [hist, List.pairwise_append, List.pairwise_cons] at hpw
  have hh : h.filter (fun x => x.entry.timestampUtc < c.entry.timestampUtc + 1) = h :=
    List.filter_eq_self.2 fun x hx => by
      have := hpw.2.2 x hx c List.mem_cons_self
      simpa using this.le
  have hh' : h'.filter (fun x => x.entry.timestampUtc < c.entry.timestampUtc + 1) = [] :=
    List.filter_eq_nil_iff.2 fun x hx => by
      have := hpw.2.1.1 x hx
      simpa using this
  rw [changesBefore, hist, List.filter_append, List.filter_cons_of_pos (by simp), hh, hh']

/-- The query answers with one row for a key. -/
theorem eq_of_mem_view {t : AuditedTable S} (ht : t.StrictlyOrdered) {key : α → κ'} {time : ℕ}
    {a a' : α} (ha : a ∈ view key t.audit time) (ha' : a' ∈ view key t.audit time)
    (hk : key a = key a') : a = a' := by
  obtain ⟨c, hc, -, rfl⟩ := (t.mem_view ht key time a).1 ha
  obtain ⟨c', hc', -, rfl⟩ := (t.mem_view ht key time a').1 ha'
  rw [hk, hc'] at hc
  rw [Option.some.inj hc]

theorem nodup_view {t : AuditedTable S} (ht : t.StrictlyOrdered) (key : α → κ') (time : ℕ) :
    (view key t.audit time).Nodup := by
  refine List.Nodup.map_on ?_ (List.Nodup.filter _ (List.Nodup.filter _ ?_))
  · intro e he e' he' hpay
    have h := (mem_latest_iff key (ht.pairwise_entriesBefore time) e).1 (List.mem_filter.1 he).1
    have h' := (mem_latest_iff key (ht.pairwise_entriesBefore time) e').1
      (List.mem_filter.1 he').1
    rw [hpay, h'] at h
    exact (Option.some.inj h).symm
  · exact (ht.pairwise_entriesBefore time).imp fun hlt heq => absurd (heq ▸ hlt) (lt_irrefl _)

/-- What the query answers for one key: what the last change of the key before the time has
logged, unless it is a deletion. -/
theorem find?_view (t : AuditedTable S) (ht : t.StrictlyOrdered) (key : α → κ') (time : ℕ)
    (k : κ') : (view key t.audit time).find? (fun a => key a = k) =
      (lastChange key (t.changesBefore time) k).bind fun c =>
        if c.entry.tgOp = .DELETE then none else some c.entry.payload := by
  refine Option.ext fun a => ?_
  constructor
  · intro ha
    obtain ⟨c, hc, hop, rfl⟩ := (t.mem_view ht key time a).1 (List.mem_of_find?_eq_some ha)
    have hk : key c.entry.payload = k := by simpa using List.find?_some ha
    rw [hk] at hc
    simp [hc, hop]
  · intro ha
    obtain ⟨c, hc, hca⟩ := Option.bind_eq_some_iff.1 ha
    split_ifs at hca with hop
    obtain rfl := Option.some.inj hca
    have hk := key_of_lastChange hc
    have hmem : c.entry.payload ∈ view key t.audit time :=
      (t.mem_view ht key time _).2 ⟨c, hk.symm ▸ hc, hop, rfl⟩
    cases hf : (view key t.audit time).find? fun a => key a = k with
    | none => exact absurd (List.find?_eq_none.1 hf _ hmem) (by simp [hk])
    | some a' =>
      have hk' : key a' = k := by simpa using List.find?_some hf
      rw [eq_of_mem_view ht (List.mem_of_find?_eq_some hf) hmem (hk'.trans hk.symm)]

end AuditedTable

/-- **The query answers with the past rows**, where all changes before the time are plain. -/
theorem AuditedTable.mem_view_iff {S : TableSpec ρ κ ρ} (t : AuditedTable S)
    (ht : t.StrictlyOrdered) (key : ρ → κ') (time : ℕ)
    (hplain : ∀ c ∈ t.changesBefore time, c.Plain key) (r : ρ) :
    r ∈ view key t.audit time ↔ r ∈ t.rowsAt time := by
  have hrows := (t.cut ht.ordered time).timeline.mem_iff_lastChange
    (fun c hc => (hplain c hc).isLocal) r
  rw [t.mem_view ht key time r]
  refine Iff.trans ?_ hrows.symm
  refine exists_congr fun c => and_congr_right fun hc => ?_
  rw [hplain c (mem_of_lastChange hc) r, key_of_lastChange hc]
  simp [eq_comm]

/-! ### Tables whose statements do not change keys -/

section Keyed

variable {S : TableSpec ρ κ α} (hS : S.rekeys = false) (key : α → κ)
  (hlogged : ∀ r, key (S.logged r) = S.key r)
  (hupdate : ∀ old new, key (S.loggedUpdate old new) = S.key new)

include hS hlogged hupdate

theorem RowStep.mem_iff_of_key_ne {rows rows' : List ρ} {op : TgOp} {a : α}
    (h : RowStep S rows op a rows') (r : ρ) (hr : S.key r ≠ key a) : r ∈ rows' ↔ r ∈ rows := by
  cases h with
  | put x =>
    rw [hlogged] at hr
    simp only [List.mem_append, List.mem_filter, List.mem_singleton, decide_eq_true_eq]
    exact ⟨fun h => h.elim And.left fun h => absurd (congrArg S.key h) hr,
      fun h => Or.inl ⟨h, hr⟩⟩
  | update old new hold hkey =>
    rw [hupdate] at hr
    have hnew : S.key new = S.key old := hkey.resolve_right fun h => by simp [hS] at h
    rw [List.mem_map]
    constructor
    · rintro ⟨x, hx, rfl⟩
      split_ifs at hr ⊢ with hxo
      · exact absurd rfl hr
      · exact hx
    · exact fun h => ⟨r, h, if_neg (hnew ▸ hr)⟩
  | erase x hx =>
    rw [hlogged] at hr
    simp [hr]

/-- What a change leaves of the key that it logs. -/
theorem RowStep.held {rows rows' : List ρ} {op : TgOp} {a : α} (h : RowStep S rows op a rows') :
    (op = .INSERT ∧ ∃ r ∈ rows', S.key r = key a ∧ a = S.logged r) ∨
      (op = .UPDATE ∧ ∃ old ∈ rows, ∃ new ∈ rows', S.key old = key a ∧ S.key new = key a ∧
        a = S.loggedUpdate old new) ∨
      (op = .DELETE ∧ ∀ r ∈ rows', S.key r ≠ key a) := by
  cases h with
  | put r => exact Or.inl ⟨rfl, r, by simp, (hlogged r).symm, rfl⟩
  | update old new hold hkey =>
    have hnew : S.key new = S.key old := hkey.resolve_right fun h => by simp [hS] at h
    refine Or.inr
      (Or.inl ⟨rfl, old, hold, new, List.mem_map.2 ⟨old, hold, if_pos rfl⟩, ?_, ?_, rfl⟩)
    · rw [hupdate, hnew]
    · rw [hupdate]
  | erase r hr =>
    refine Or.inr (Or.inr ⟨rfl, fun x hx => ?_⟩)
    rw [hlogged]
    simpa using (List.mem_filter.1 hx).2

/-- What a table holds for a key, told from the last change that logged the key. -/
theorem AuditedTable.find_lastChange (t : AuditedTable S) (k : κ) :
    (lastChange key t.history k = none ∧ t.find k = none) ∨
      ∃ c, lastChange key t.history k = some c ∧
        ((c.entry.tgOp = .INSERT ∧ ∃ r, t.find k = some r ∧ c.entry.payload = S.logged r) ∨
          (c.entry.tgOp = .UPDATE ∧ ∃ old ∈ c.before, ∃ new ∈ c.after, S.key old = k ∧
            t.find k = some new ∧ c.entry.payload = S.loggedUpdate old new) ∨
          (c.entry.tgOp = .DELETE ∧ t.find k = none)) := by
  have hlocal : ∀ c ∈ t.history, c.Local key S.key := fun c hc r hr =>
    (t.timeline.step_of_mem hc).1.mem_iff_of_key_ne hS key hlogged hupdate r hr
  have hmem := t.timeline.mem_iff_lastChange hlocal
  cases hc : lastChange key t.history k with
  | none =>
    refine Or.inl ⟨rfl, (t.find_eq_none_iff k).2 fun r hr hrk => ?_⟩
    obtain ⟨c, hc', -⟩ := (hmem r).1 hr
    rw [hrk, hc] at hc'
    exact absurd hc' (by simp)
  | some c =>
    refine Or.inr ⟨c, rfl, ?_⟩
    have hck := key_of_lastChange hc
    have hfind : ∀ r ∈ c.after, S.key r = k → t.find k = some r := fun r hr hrk =>
      (t.find_eq_some_iff k r).2 ⟨(hmem r).2 ⟨c, hrk ▸ hc, hr⟩, hrk⟩
    have hstep := (t.timeline.step_of_mem (mem_of_lastChange hc)).1
    rcases hstep.held hS key hlogged hupdate with ⟨hop, r, hr, hrk, hpay⟩ |
      ⟨hop, old, hold, new, hnew, holdk, hnewk, hpay⟩ | ⟨hop, hnone⟩
    · exact Or.inl ⟨hop, r, hfind r hr (hrk.trans hck), hpay⟩
    · exact Or.inr (Or.inl ⟨hop, old, hold, new, hnew, holdk.trans hck,
        hfind new hnew (hnewk.trans hck), hpay⟩)
    · refine Or.inr (Or.inr ⟨hop, (t.find_eq_none_iff k).2 fun r hr hrk => ?_⟩)
      obtain ⟨c', hc', hrc⟩ := (hmem r).1 hr
      rw [hrk, hc] at hc'
      obtain rfl := Option.some.inj hc'
      exact hnone r hrc (hrk.trans hck.symm)

end Keyed
