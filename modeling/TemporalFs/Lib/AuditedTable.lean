import Mathlib

/-!
# Tables with a primary key and an audit log

A table holds rows with a unique key, and its triggers append one entry to an audit log for each
row that a statement inserts, updates or deletes. The log is append-only, its entries are numbered
from one, and each is stamped with the time at which its statement ran. What an entry carries is
a matter of the table (`TableSpec`): the row itself, or for an update some function of the old
and the new row.

`AuditedTable` keeps, beside the rows, the *history* of the table: for each change the rows before
it, the audit entry it wrote, and the rows after it. The audit log is the list of the entries of
the history. The rows before and after are not stored by a database; they say what a past state of
the table was. Every value of `AuditedTable` carries the proof that its history is a run of row
changes from the empty table to the present rows (`Timeline`).

## Main definitions

* `TableSpec`: key columns and trigger payloads of a table.
* `RowStep`: one row change with the entry it logs; `Timeline`: a run of them.
* `AuditedTable.Always`: what all rows have satisfied that the table has ever held.
* `AuditedTable`, with `AuditedTable.find`, `AuditedTable.put`, `AuditedTable.update`,
  `AuditedTable.rekey`, `AuditedTable.erase`.

## Main results

* `Timeline.nodup_keys`: keys are unique in every table.
* `AuditedTable.find_put`, `AuditedTable.find_update`, `AuditedTable.find_rekey`,
  `AuditedTable.find_erase`: what a lookup finds after each operation.
* `AuditedTable.length_erase`, `AuditedTable.length_rows_of_find`: how many entries a deletion adds.
-/

/-- The kind of statement that wrote an audit entry, as the column `tg_op` spells it. -/
inductive TgOp
  | INSERT
  | UPDATE
  | DELETE
  deriving DecidableEq, Repr

/-- An entry of an audit log. -/
structure AuditRow (α : Type) where
  seq : ℕ
  timestampUtc : ℕ
  tgOp : TgOp
  payload : α
  deriving DecidableEq

/-- One change of a table: the rows before, the entry logged, and the rows after. -/
structure RowChange (ρ α : Type) where
  before : List ρ
  entry : AuditRow α
  after : List ρ

/-- The key columns of a table and what its triggers log. -/
structure TableSpec (ρ κ α : Type) where
  /-- The primary key of a row. -/
  key : ρ → κ
  /-- What the insert trigger logs of the new row, and the delete trigger of the old one. -/
  logged : ρ → α
  /-- What the update trigger logs of the old and the new row. -/
  loggedUpdate : ρ → ρ → α
  /-- Whether some statement updates key columns. -/
  rekeys : Bool

variable {ρ κ α : Type} [DecidableEq κ]

/-- One row change together with the operation and the payload it logs. A `put` of a row whose key
is taken replaces the row that has it, and fires the insert trigger only. -/
inductive RowStep (S : TableSpec ρ κ α) : List ρ → TgOp → α → List ρ → Prop
  | put (rows : List ρ) (r : ρ) :
      RowStep S rows .INSERT (S.logged r) (rows.filter (fun x => S.key x ≠ S.key r) ++ [r])
  | update (rows : List ρ) (old new : ρ) (hold : old ∈ rows)
      (hkey : S.key new = S.key old ∨ (S.rekeys = true ∧ ∀ r ∈ rows, S.key r ≠ S.key new)) :
      RowStep S rows .UPDATE (S.loggedUpdate old new)
        (rows.map fun r => if S.key r = S.key old then new else r)
  | erase (rows : List ρ) (r : ρ) (hr : r ∈ rows) :
      RowStep S rows .DELETE (S.logged r) (rows.filter fun x => S.key x ≠ S.key r)

/-- A run of row changes from the empty table, numbering its entries from one. -/
inductive Timeline (S : TableSpec ρ κ α) : List (RowChange ρ α) → List ρ → Prop
  | nil : Timeline S [] []
  | snoc {h : List (RowChange ρ α)} {rows : List ρ} (e : AuditRow α) (rows' : List ρ)
      (hrun : Timeline S h rows) (hstep : RowStep S rows e.tgOp e.payload rows')
      (hseq : e.seq = h.length + 1) : Timeline S (h ++ [⟨rows, e, rows'⟩]) rows'

/-! ### Keys are unique -/

private theorem nodup_map_replace {f : ρ → κ} {rows : List ρ} (hnd : (rows.map f).Nodup)
    {old new : ρ}
    (hnew : f new = f old ∨ ∀ r ∈ rows, f r ≠ f new) :
    ((rows.map fun r => if f r = f old then new else r).map f).Nodup := by
  rw [List.map_map]
  rcases hnew with hnew | hnew
  · have hf : (f ∘ fun r => if f r = f old then new else r) = f := by
      funext r
      simp only [Function.comp_apply]
      split_ifs with h
      · rw [hnew, h]
      · rfl
    rwa [hf]
  · refine List.Nodup.map_on ?_ (List.Nodup.of_map f hnd)
    have hinj := List.inj_on_of_nodup_map hnd
    intro x hx y hy hxy
    simp only [Function.comp_apply] at hxy
    split_ifs at hxy with h₁ h₂ h₂
    · exact hinj hx hy (h₁.trans h₂.symm)
    · exact absurd hxy.symm (hnew y hy)
    · exact absurd hxy (hnew x hx)
    · exact hinj hx hy hxy

theorem RowStep.nodup_keys {S : TableSpec ρ κ α} {rows rows' : List ρ} {op : TgOp} {a : α}
    (h : RowStep S rows op a rows') (hnd : (rows.map S.key).Nodup) :
    (rows'.map S.key).Nodup := by
  cases h with
  | put r =>
    rw [List.map_append, List.nodup_append]
    refine ⟨(hnd.sublist (List.filter_sublist.map _)), by simp, ?_⟩
    intro k hk k' hk'
    simp only [List.map_cons, List.map_nil, List.mem_singleton] at hk'
    obtain ⟨x, hx, rfl⟩ := List.mem_map.mp hk
    rw [hk']
    simpa using (List.mem_filter.mp hx).2
  | update old new hold hkey =>
    exact nodup_map_replace hnd (hkey.imp id And.right)
  | erase r hr => exact hnd.sublist (List.filter_sublist.map _)

/-- Keys are unique in the table reached by any run. -/
theorem Timeline.nodup_keys {S : TableSpec ρ κ α} {h : List (RowChange ρ α)} {rows : List ρ}
    (ht : Timeline S h rows) : (rows.map S.key).Nodup := by
  induction ht with
  | nil => exact List.nodup_nil
  | snoc e rows' _ hstep _ ih => exact hstep.nodup_keys ih

/-- A table with its audit log and its history. The history is a field that the program cannot see:
it ties the rows and the log to one run of changes. -/
structure AuditedTable (S : TableSpec ρ κ α) where
  rows : List ρ
  history : List (RowChange ρ α)
  timeline : Timeline S history rows

namespace AuditedTable

variable {S : TableSpec ρ κ α}

/-- The table just created. -/
def empty (S : TableSpec ρ κ α) : AuditedTable S := ⟨[], [], .nil⟩

/-- The audit log: the entries in the order they were written. -/
def audit (t : AuditedTable S) : List (AuditRow α) := t.history.map RowChange.entry

/-- The row with the key `k`. -/
def find (t : AuditedTable S) (k : κ) : Option ρ := t.rows.find? fun r => S.key r = k

/-- The table after a row change made at the time `now`. -/
def change (t : AuditedTable S) (now : ℕ) (op : TgOp) (a : α) (rows' : List ρ)
    (h : RowStep S t.rows op a rows') : AuditedTable S where
  rows := rows'
  history := t.history ++ [⟨t.rows, ⟨t.history.length + 1, now, op, a⟩, rows'⟩]
  timeline := .snoc _ rows' t.timeline h rfl

/-- `INSERT` of a row, or `REPLACE` where its key is taken. -/
def put (t : AuditedTable S) (now : ℕ) (r : ρ) : AuditedTable S :=
  t.change now .INSERT _ _ (.put t.rows r)

theorem mem_of_find {t : AuditedTable S} {k : κ} {r : ρ} (h : t.find k = some r) : r ∈ t.rows :=
  List.mem_of_find?_eq_some h

theorem key_of_find {t : AuditedTable S} {k : κ} {r : ρ} (h : t.find k = some r) :
    S.key r = k := by
  simpa using List.find?_some h

/-- `UPDATE` of the columns of the row with the key `k` that are not part of the key. -/
def update (t : AuditedTable S) (now : ℕ) (k : κ) (f : ρ → ρ) (hf : ∀ r, S.key (f r) = S.key r) :
    AuditedTable S :=
  match h : t.find k with
  | none => t
  | some r => t.change now .UPDATE _ _ (.update t.rows r (f r) (mem_of_find h) (.inl (hf r)))

/-- `UPDATE` of any columns of the row with the key `k`; refused where the new key is taken by
another row. -/
def rekey (t : AuditedTable S) (hS : S.rekeys = true) (now : ℕ) (k : κ) (f : ρ → ρ) :
    Option (AuditedTable S) :=
  match h : t.find k with
  | none => some t
  | some r =>
    if hk : S.key (f r) = S.key r ∨ ∀ x ∈ t.rows, S.key x ≠ S.key (f r) then
      some (t.change now .UPDATE _ _
        (.update t.rows r (f r) (mem_of_find h) (hk.imp id fun hx => ⟨hS, hx⟩)))
    else none

/-- `DELETE` of the row with the key `k`. -/
def erase (t : AuditedTable S) (now : ℕ) (k : κ) : AuditedTable S :=
  match h : t.find k with
  | none => t
  | some r => t.change now .DELETE _ _ (.erase t.rows r (mem_of_find h))

/-! ### What a lookup finds -/

theorem nodup_keys (t : AuditedTable S) : (t.rows.map S.key).Nodup := t.timeline.nodup_keys

theorem eq_of_key_eq (t : AuditedTable S) {r r' : ρ} (hr : r ∈ t.rows) (hr' : r' ∈ t.rows)
    (h : S.key r = S.key r') : r = r' :=
  List.inj_on_of_nodup_map t.nodup_keys hr hr' h

theorem find_eq_some_iff (t : AuditedTable S) (k : κ) (r : ρ) :
    t.find k = some r ↔ r ∈ t.rows ∧ S.key r = k := by
  refine ⟨fun h => ⟨mem_of_find h, key_of_find h⟩, ?_⟩
  rintro ⟨hr, rfl⟩
  cases h : t.find (S.key r) with
  | none => exact absurd (List.find?_eq_none.mp h r hr) (by simp)
  | some r' => rw [t.eq_of_key_eq (mem_of_find h) hr (key_of_find h)]

theorem find_eq_none_iff (t : AuditedTable S) (k : κ) :
    t.find k = none ↔ ∀ r ∈ t.rows, S.key r ≠ k := by
  simp [find, List.find?_eq_none]

theorem find_key (t : AuditedTable S) {r : ρ} (hr : r ∈ t.rows) : t.find (S.key r) = some r :=
  (t.find_eq_some_iff _ r).2 ⟨hr, rfl⟩

@[simp] theorem find_empty (k : κ) : (empty S).find k = none := rfl

@[simp] theorem rows_empty : (empty S).rows = [] := rfl

@[simp] theorem history_empty : (empty S).history = [] := rfl

/-- Two tables find the same if they hold the same rows. -/
theorem find_congr {t t' : AuditedTable S} (k : κ)
    (h : ∀ r, S.key r = k → (r ∈ t.rows ↔ r ∈ t'.rows)) : t.find k = t'.find k := by
  refine Option.ext fun r => ?_
  rw [find_eq_some_iff, find_eq_some_iff]
  constructor
  · rintro ⟨hr, hk⟩
    exact ⟨(h r hk).1 hr, hk⟩
  · rintro ⟨hr, hk⟩
    exact ⟨(h r hk).2 hr, hk⟩

theorem mem_put (t : AuditedTable S) (now : ℕ) (r x : ρ) :
    x ∈ (t.put now r).rows ↔ (x ∈ t.rows ∧ S.key x ≠ S.key r) ∨ x = r := by
  simp [put, change]

theorem find_put (t : AuditedTable S) (now : ℕ) (r : ρ) (k : κ) :
    (t.put now r).find k = if S.key r = k then some r else t.find k := by
  split_ifs with hk
  · rw [find_eq_some_iff, mem_put]
    exact ⟨Or.inr rfl, hk⟩
  · refine find_congr k fun x hx => ?_
    rw [mem_put]
    constructor
    · rintro (h | rfl)
      · exact h.1
      · exact absurd hx hk
    · exact fun h => Or.inl ⟨h, fun h' => hk (h'.symm.trans hx)⟩

theorem update_of_find_none {t : AuditedTable S} {k : κ} (h : t.find k = none) (now : ℕ)
    (f : ρ → ρ) (hf : ∀ r, S.key (f r) = S.key r) : t.update now k f hf = t := by
  unfold update
  split
  · rfl
  · rename_i heq
    rw [heq] at h
    exact absurd h (by simp)

theorem rows_update_of_find_some {t : AuditedTable S} {k : κ} {r : ρ} (h : t.find k = some r)
    (now : ℕ) (f : ρ → ρ) (hf : ∀ r, S.key (f r) = S.key r) :
    (t.update now k f hf).rows = t.rows.map fun x => if S.key x = S.key r then f r else x := by
  unfold update
  split
  · rename_i heq
    rw [heq] at h
    exact absurd h (by simp)
  · rename_i r' heq
    obtain rfl : r' = r := Option.some.inj (heq.symm.trans h)
    rfl

theorem find_update (t : AuditedTable S) (now : ℕ) (k : κ) (f : ρ → ρ)
    (hf : ∀ r, S.key (f r) = S.key r) (k' : κ) :
    (t.update now k f hf).find k' = if k' = k then (t.find k).map f else t.find k' := by
  cases h : t.find k with
  | none =>
    rw [update_of_find_none h]
    split_ifs with hk
    · rw [hk, h, Option.map_none]
    · rfl
  | some r =>
    have hrk := key_of_find h
    have hrow : ∀ x, x ∈ (t.update now k f hf).rows ↔
        (x ∈ t.rows ∧ S.key x ≠ k) ∨ x = f r := by
      intro x
      rw [rows_update_of_find_some h, List.mem_map]
      constructor
      · rintro ⟨y, hy, rfl⟩
        split_ifs with hyr
        · exact Or.inr rfl
        · exact Or.inl ⟨hy, hrk ▸ hyr⟩
      · rintro (⟨hx, hxk⟩ | rfl)
        · exact ⟨x, hx, if_neg (hrk.symm ▸ hxk)⟩
        · exact ⟨r, mem_of_find h, if_pos rfl⟩
    split_ifs with hk
    · rw [Option.map_some, find_eq_some_iff, hrow]
      exact ⟨Or.inr rfl, by rw [hf, hrk, hk]⟩
    · refine find_congr k' fun x hx => ?_
      rw [hrow]
      constructor
      · rintro (hx' | rfl)
        · exact hx'.1
        · rw [hf, hrk] at hx
          exact absurd hx.symm hk
      · exact fun hx' => Or.inl ⟨hx', fun h' => hk (hx.symm.trans h')⟩

theorem erase_of_find_none {t : AuditedTable S} {k : κ} (h : t.find k = none) (now : ℕ) :
    t.erase now k = t := by
  unfold erase
  split
  · rfl
  · rename_i heq
    rw [heq] at h
    exact absurd h (by simp)

theorem rows_erase_of_find_some {t : AuditedTable S} {k : κ} {r : ρ} (h : t.find k = some r)
    (now : ℕ) : (t.erase now k).rows = t.rows.filter fun x => S.key x ≠ S.key r := by
  unfold erase
  split
  · rename_i heq
    rw [heq] at h
    exact absurd h (by simp)
  · rename_i r' heq
    obtain rfl : r' = r := Option.some.inj (heq.symm.trans h)
    rfl

theorem find_erase (t : AuditedTable S) (now : ℕ) (k k' : κ) :
    (t.erase now k).find k' = if k' = k then none else t.find k' := by
  cases h : t.find k with
  | none =>
    rw [erase_of_find_none h]
    split_ifs with hk
    · rw [hk, h]
    · rfl
  | some r =>
    have hrk := key_of_find h
    have hrow : ∀ x, x ∈ (t.erase now k).rows ↔ x ∈ t.rows ∧ S.key x ≠ k := by
      intro x
      rw [rows_erase_of_find_some h, hrk]
      simp
    split_ifs with hk
    · rw [find_eq_none_iff]
      exact fun x hx hxk => ((hrow x).1 hx).2 (hxk.trans hk)
    · refine find_congr k' fun x hx => ?_
      rw [hrow]
      exact ⟨And.left, fun hx' => ⟨hx', fun h' => hk (hx.symm.trans h')⟩⟩

theorem rekey_of_find_none {t : AuditedTable S} {k : κ} (h : t.find k = none)
    (hS : S.rekeys = true) (now : ℕ) (f : ρ → ρ) : t.rekey hS now k f = some t := by
  unfold rekey
  split
  · rfl
  · rename_i heq
    rw [heq] at h
    exact absurd h (by simp)

/-- A re-keyed row moves from its old key to its new one. -/
theorem find_rekey {t t' : AuditedTable S} {hS : S.rekeys = true} {now : ℕ} {k : κ} {f : ρ → ρ}
    {r : ρ} (hr : t.find k = some r) (h : t.rekey hS now k f = some t') (k' : κ) :
    t'.find k' = if k' = S.key (f r) then some (f r) else if k' = k then none else t.find k' := by
  have hrk := key_of_find hr
  unfold rekey at h
  split at h
  · rename_i heq
    rw [heq] at hr
    exact absurd hr (by simp)
  · rename_i r' heq
    obtain rfl : r' = r := Option.some.inj (heq.symm.trans hr)
    split_ifs at h with hk
    obtain rfl := Option.some.inj h
    have hrow : ∀ x, x ∈ (t.rows.map fun y => if S.key y = S.key r' then f r' else y) ↔
        (x ∈ t.rows ∧ S.key x ≠ k) ∨ x = f r' := by
      intro x
      rw [List.mem_map]
      constructor
      · rintro ⟨y, hy, rfl⟩
        split_ifs with hyr
        · exact Or.inr rfl
        · exact Or.inl ⟨hy, hrk ▸ hyr⟩
      · rintro (⟨hx, hxk⟩ | rfl)
        · exact ⟨x, hx, if_neg (hrk.symm ▸ hxk)⟩
        · exact ⟨r', mem_of_find heq, if_pos rfl⟩
    split_ifs with h₁ h₂
    · rw [find_eq_some_iff]
      exact ⟨(hrow _).2 (Or.inr rfl), h₁.symm⟩
    · rw [find_eq_none_iff]
      intro x hx hxk
      rcases (hrow x).1 hx with hx' | rfl
      · exact hx'.2 (hxk.trans h₂)
      · exact h₁ hxk.symm
    · refine find_congr k' fun x hx => ?_
      refine (hrow x).trans ?_
      constructor
      · rintro (hx' | rfl)
        · exact hx'.1
        · exact absurd hx.symm h₁
      · exact fun hx' => Or.inl ⟨hx', fun h' => h₂ (hx.symm.trans h')⟩

/-- The new key of a re-keyed row was free, or the row keeps its key. -/
theorem find_key_of_rekey {t t' : AuditedTable S} {hS : S.rekeys = true} {now : ℕ} {k : κ}
    {f : ρ → ρ} {r : ρ} (hr : t.find k = some r) (h : t.rekey hS now k f = some t') :
    S.key (f r) = k ∨ t.find (S.key (f r)) = none := by
  unfold rekey at h
  split at h
  · rename_i heq
    rw [heq] at hr
    exact absurd hr (by simp)
  · rename_i r' heq
    obtain rfl : r' = r := Option.some.inj (heq.symm.trans hr)
    split_ifs at h with hk
    exact hk.imp (fun h' => h'.trans (key_of_find heq)) (t.find_eq_none_iff _).2

theorem rekey_isSome {t : AuditedTable S} (hS : S.rekeys = true) (now : ℕ) {k : κ} {f : ρ → ρ}
    {r : ρ} (hr : t.find k = some r) (h : S.key (f r) = k ∨ t.find (S.key (f r)) = none) :
    ∃ t', t.rekey hS now k f = some t' := by
  unfold rekey
  split
  · exact ⟨t, rfl⟩
  · rename_i r' heq
    obtain rfl : r' = r := Option.some.inj (heq.symm.trans hr)
    exact ⟨_, dif_pos (h.imp (fun h' => h'.trans (key_of_find heq).symm) (t.find_eq_none_iff _).1)⟩

/-! ### What an operation adds to the history -/

theorem history_put (t : AuditedTable S) (now : ℕ) (r : ρ) :
    (t.put now r).history = t.history ++ [⟨t.rows, ⟨t.history.length + 1, now, .INSERT, S.logged r⟩,
      t.rows.filter (fun x => S.key x ≠ S.key r) ++ [r]⟩] := rfl

theorem history_update (t : AuditedTable S) (now : ℕ) (k : κ) (f : ρ → ρ)
    (hf : ∀ r, S.key (f r) = S.key r) :
    t.update now k f hf = t ∨ ∃ r, t.find k = some r ∧
      (t.update now k f hf).history = t.history ++
        [⟨t.rows, ⟨t.history.length + 1, now, .UPDATE, S.loggedUpdate r (f r)⟩,
          t.rows.map fun x => if S.key x = S.key r then f r else x⟩] := by
  unfold update
  split
  · exact Or.inl rfl
  · rename_i r heq
    exact Or.inr ⟨r, heq, rfl⟩

/-- An update of a row that exists is logged. -/
theorem length_history_update {t : AuditedTable S} {k : κ} {r : ρ} (h : t.find k = some r)
    (now : ℕ) (f : ρ → ρ) (hf : ∀ r, S.key (f r) = S.key r) :
    (t.update now k f hf).history.length = t.history.length + 1 := by
  unfold update
  split
  · rename_i hnone
    rw [hnone] at h
    exact absurd h (by simp)
  · exact List.length_append

theorem history_rekey {t t' : AuditedTable S} {hS : S.rekeys = true} {now : ℕ} {k : κ} {f : ρ → ρ}
    (h : t.rekey hS now k f = some t') :
    t' = t ∨ ∃ r, t.find k = some r ∧
      t'.history = t.history ++
        [⟨t.rows, ⟨t.history.length + 1, now, .UPDATE, S.loggedUpdate r (f r)⟩,
          t.rows.map fun x => if S.key x = S.key r then f r else x⟩] := by
  unfold rekey at h
  split at h
  · exact Or.inl (Option.some.inj h).symm
  · rename_i r heq
    split_ifs at h with hk
    obtain rfl := Option.some.inj h
    exact Or.inr ⟨r, heq, rfl⟩

theorem history_erase (t : AuditedTable S) (now : ℕ) (k : κ) :
    t.erase now k = t ∨ ∃ r, t.find k = some r ∧
      (t.erase now k).history = t.history ++
        [⟨t.rows, ⟨t.history.length + 1, now, .DELETE, S.logged r⟩,
          t.rows.filter fun x => S.key x ≠ S.key r⟩] := by
  unfold erase
  split
  · exact Or.inl rfl
  · rename_i r heq
    exact Or.inr ⟨r, heq, rfl⟩

/-- The deletion of a row that exists is logged. -/
theorem length_history_erase {t : AuditedTable S} {k : κ} {r : ρ} (h : t.find k = some r)
    (now : ℕ) : (t.erase now k).history.length = t.history.length + 1 := by
  unfold erase
  split
  · rename_i hnone
    rw [hnone] at h
    exact absurd h (by simp)
  · exact List.length_append

/-- The change of a row that exists is logged, whether its key changes or not. -/
theorem length_history_rekey {t t' : AuditedTable S} {k : κ} {r : ρ} (hr : t.find k = some r)
    {hS : S.rekeys = true} {now : ℕ} {f : ρ → ρ} (h : t.rekey hS now k f = some t') :
    t'.history.length = t.history.length + 1 := by
  unfold rekey at h
  split at h
  · rename_i hnone
    rw [hnone] at hr
    exact absurd hr (by simp)
  · split_ifs at h
    obtain rfl := Option.some.inj h
    exact List.length_append

/-- The table is unchanged, or has one more change, made at the time `now`. -/
def Extends (t t' : AuditedTable S) (now : ℕ) : Prop :=
  t' = t ∨ ∃ c : RowChange ρ α, t'.history = t.history ++ [c] ∧ c.entry.timestampUtc = now

theorem extends_put (t : AuditedTable S) (now : ℕ) (r : ρ) : t.Extends (t.put now r) now :=
  Or.inr ⟨_, rfl, rfl⟩

theorem extends_update (t : AuditedTable S) (now : ℕ) (k : κ) (f : ρ → ρ)
    (hf : ∀ r, S.key (f r) = S.key r) : t.Extends (t.update now k f hf) now :=
  (t.history_update now k f hf).imp id fun ⟨_, _, h⟩ => ⟨_, h, rfl⟩

theorem extends_rekey {t t' : AuditedTable S} {hS : S.rekeys = true} {now : ℕ} {k : κ} {f : ρ → ρ}
    (h : t.rekey hS now k f = some t') : t.Extends t' now :=
  (history_rekey h).imp id fun ⟨_, _, h⟩ => ⟨_, h, rfl⟩

theorem extends_erase (t : AuditedTable S) (now : ℕ) (k : κ) :
    t.Extends (t.erase now k) now :=
  (t.history_erase now k).imp id fun ⟨_, _, h⟩ => ⟨_, h, rfl⟩

/-- What a table extends has a part of its history. -/
theorem Extends.isPrefix {t t' : AuditedTable S} {now : ℕ} (h : t.Extends t' now) :
    t.history <+: t'.history := by
  rcases h with rfl | ⟨c, hc, -⟩
  · exact List.prefix_rfl
  · exact hc ▸ List.prefix_append _ _

/-! ### Statements that delete several rows -/

variable {σ : Type}

/-- What a lookup finds after the rows of a list were deleted one by one, in any state that has
the table as a part. -/
theorem find_foldl_erase (tbl : σ → AuditedTable S) (del : σ → ρ → σ)
    (hdel : ∀ s r k, (tbl (del s r)).find k = if k = S.key r then none else (tbl s).find k)
    (k : κ) : (l : List ρ) → (s : σ) →
      (tbl (l.foldl del s)).find k = if k ∈ l.map S.key then none else (tbl s).find k
  | [], s => by simp
  | r :: l, s => by
      rw [List.foldl_cons, find_foldl_erase tbl del hdel k l, hdel]
      by_cases hk : k = S.key r <;> by_cases hl : k ∈ l.map S.key <;> simp [hk, hl]

/-- Deleting the rows that satisfy `p` leaves the others. -/
theorem find_foldl_erase_filter (tbl : σ → AuditedTable S) (del : σ → ρ → σ)
    (hdel : ∀ s r k, (tbl (del s r)).find k = if k = S.key r then none else (tbl s).find k)
    (p : ρ → Bool) (s : σ) (k : κ) :
    (tbl (((tbl s).rows.filter p).foldl del s)).find k = ((tbl s).find k).filter (!p ·) := by
  rw [find_foldl_erase tbl del hdel k]
  cases hr : (tbl s).find k with
  | none => simp
  | some r =>
    have hmem := mem_of_find hr
    have hkey := key_of_find hr
    have hiff : k ∈ ((tbl s).rows.filter p).map S.key ↔ p r = true := by
      rw [List.mem_map]
      constructor
      · rintro ⟨x, hx, hxk⟩
        rw [List.mem_filter] at hx
        rw [← (tbl s).eq_of_key_eq hx.1 hmem (hxk.trans hkey.symm)]
        exact hx.2
      · exact fun hp => ⟨r, List.mem_filter.2 ⟨hmem, hp⟩, hkey⟩
    cases hp : p r <;> simp [hiff, hp, Option.filter]

/-! ### How many entries a deletion adds -/

/-- A key belongs to one row. -/
theorem countP_key_eq_one (t : AuditedTable S) {r : ρ} (hr : r ∈ t.rows) :
    t.rows.countP (fun x => S.key x = S.key r) = 1 := by
  have hcount := List.count_eq_one_of_mem t.nodup_keys (List.mem_map_of_mem (f := S.key) hr)
  rw [List.count_eq_countP, List.countP_map] at hcount
  rw [← hcount]
  refine List.countP_congr fun x _ => ?_
  simp

/-- A deletion logs each row that it takes away, so that rows and changes together stay the same in
number. -/
theorem length_erase (t : AuditedTable S) (now : ℕ) (k : κ) :
    (t.erase now k).history.length + (t.erase now k).rows.length =
      t.history.length + t.rows.length := by
  cases h : t.find k with
  | none => rw [erase_of_find_none h]
  | some r =>
    have hlen :=
      List.length_eq_countP_add_countP (fun x => decide (S.key x = S.key r)) (l := t.rows)
    rw [t.countP_key_eq_one (mem_of_find h)] at hlen
    rw [length_history_erase h, rows_erase_of_find_some h, ← List.countP_eq_length_filter, hlen]
    have : t.rows.countP (fun x => decide (S.key x ≠ S.key r)) =
        t.rows.countP (fun a => decide ¬ decide (S.key a = S.key r) = true) :=
      List.countP_congr fun x _ => by simp
    omega

/-- A new row does not count among the rows with a property that no row with its key has. -/
theorem countP_put (t : AuditedTable S) (now : ℕ) (r : ρ) (p : ρ → Bool)
    (hp : ∀ x, S.key x = S.key r → p x = false) :
    (t.put now r).rows.countP p = t.rows.countP p := by
  change (t.rows.filter (fun x => S.key x ≠ S.key r) ++ [r]).countP p = _
  rw [List.countP_append, List.countP_filter, List.countP_singleton, hp r rfl]
  refine List.countP_congr fun x _ => ?_
  simp only [Bool.and_eq_true, decide_eq_true_eq, and_iff_left_iff_imp]
  intro hx hk
  rw [hp x hk] at hx
  exact absurd hx (by simp)

/-- Where one table has the rows of another that do not satisfy `p`, it is shorter by the rows
that do. -/
theorem length_rows_of_find (t t' : AuditedTable S) (p : ρ → Bool)
    (h : ∀ k r, t'.find k = some r ↔ t.find k = some r ∧ p r = false) :
    t'.rows.length + t.rows.countP p = t.rows.length := by
  have hperm : t'.rows.Perm (t.rows.filter fun r => !p r) := by
    refine (List.perm_ext_iff_of_nodup (List.Nodup.of_map _ t'.nodup_keys)
      ((List.Nodup.of_map _ t.nodup_keys).filter _)).2 fun r => ?_
    rw [List.mem_filter, Bool.not_eq_true']
    constructor
    · intro hr
      obtain ⟨hfind, hp⟩ := (h _ r).1 (t'.find_key hr)
      exact ⟨mem_of_find hfind, hp⟩
    · rintro ⟨hr, hp⟩
      exact mem_of_find ((h _ r).2 ⟨t.find_key hr, hp⟩)
  rw [hperm.length_eq, ← List.countP_eq_length_filter, List.length_eq_countP_add_countP p,
    Nat.add_comm]
  simp

/-- The same for a table that has lost the rows with the keys in `q`. -/
theorem length_rows_of_find_key (t t' : AuditedTable S) (q : κ → Bool)
    (h : ∀ k, t'.find k = if q k then none else t.find k) :
    t'.rows.length + t.rows.countP (fun r => q (S.key r)) = t.rows.length := by
  refine length_rows_of_find t t' _ fun k r => ?_
  rw [h]
  constructor
  · intro hr
    split_ifs at hr with hk
    exact ⟨hr, by rw [key_of_find hr]; simpa using hk⟩
  · rintro ⟨hr, hk⟩
    rw [key_of_find hr] at hk
    rw [hk, hr]
    simp

/-! ### What all rows satisfy -/

/-- Every row that the table has ever held satisfies `P`, those that were replaced or deleted since
among them. -/
def Always (t : AuditedTable S) (P : ρ → Prop) : Prop := ∀ c ∈ t.history, ∀ r ∈ c.after, P r

section Always

variable {P : ρ → Prop} {t t' : AuditedTable S}

theorem always_empty (P : ρ → Prop) : (empty S).Always P := fun c hc => absurd hc (by simp)

theorem Always.rows (h : t.Always P) {r : ρ} (hr : r ∈ t.rows) : P r := by
  obtain ⟨rows, hist, ht⟩ := t
  cases ht with
  | nil => exact absurd hr List.not_mem_nil
  | snoc e rows' hrun hstep hseq =>
    exact h _ (List.mem_append_right _ (List.mem_singleton.2 rfl)) r hr

/-- What was there before a change had come with an earlier one. -/
theorem Always.before (h : t.Always P) {c : RowChange ρ α} (hc : c ∈ t.history) {r : ρ}
    (hr : r ∈ c.before) : P r := by
  obtain ⟨rows, hist, ht⟩ := t
  induction ht with
  | nil => exact absurd hc List.not_mem_nil
  | @snoc hist rows e rows' hrun hstep hseq ih =>
    have hold : (⟨rows, hist, hrun⟩ : AuditedTable S).Always P :=
      fun c hc => h c (List.mem_append_left _ hc)
    rcases List.mem_append.1 hc with hc | hc
    · exact ih hold hc
    · obtain rfl := List.mem_singleton.1 hc
      exact hold.rows hr

theorem Always.snoc (h : t.Always P) {c : RowChange ρ α} (hist : t'.history = t.history ++ [c])
    (hc : ∀ r ∈ c.after, P r) : t'.Always P := by
  intro c' hc'
  rw [hist] at hc'
  rcases List.mem_append.1 hc' with hc' | hc'
  · exact h c' hc'
  · exact List.mem_singleton.1 hc' ▸ hc

theorem Always.put (h : t.Always P) {r : ρ} (hr : P r) (now : ℕ) : (t.put now r).Always P := by
  refine h.snoc (t.history_put now r) fun x hx => ?_
  rcases List.mem_append.1 hx with hx | hx
  · exact h.rows (List.mem_filter.1 hx).1
  · exact List.mem_singleton.1 hx ▸ hr

theorem Always.update (h : t.Always P) {k : κ} {f : ρ → ρ} (hr : ∀ r, t.find k = some r → P (f r))
    (now : ℕ) (hf : ∀ r, S.key (f r) = S.key r) : (t.update now k f hf).Always P := by
  rcases t.history_update now k f hf with heq | ⟨r, hfind, hist⟩
  · rwa [heq]
  · refine h.snoc hist fun x hx => ?_
    obtain ⟨y, hy, rfl⟩ := List.mem_map.1 hx
    split_ifs
    · exact hr r hfind
    · exact h.rows hy

theorem Always.erase (h : t.Always P) (now : ℕ) (k : κ) : (t.erase now k).Always P := by
  rcases t.history_erase now k with heq | ⟨r, -, hist⟩
  · rwa [heq]
  · exact h.snoc hist fun x hx => h.rows (List.mem_filter.1 hx).1

end Always

end AuditedTable
