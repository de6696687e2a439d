import Mathlib
import TemporalFs.Lib.Rewind

/-!
# Picking the latest entry of a key

The entries of an audit log are numbered in the order they were written, and their stamps do not
decrease. The latest entry of a key is the one with the greatest number (`LastEntry`). The query
behind a rewound read goes by the stamps instead (`view`), and several entries of a key may share
the greatest stamp. It answers with the latest entry of a key exactly where all the others that
share its stamp are deletions.

## Main definitions

* `Numbered`, `Stamped`: the order of a log.
* `LastEntry`: the latest entry of a key.
* `PicksLatest`: the rows are those of the latest entries; `Untied`: only deletions share their
  stamps.

## Main results

* `picksLatest_iff_untied`: the query picks the latest entries if and only if they are untied.
* `AuditedTable.find_eq_some_iff_lastEntry`: the latest entries of a table that logs its rows are
  its rows.
-/

variable {ρ κ α κ' : Type} [DecidableEq κ] [DecidableEq κ']

/-- The numbers of the entries increase. -/
def Numbered (log : List (AuditRow α)) : Prop := log.Pairwise fun e e' => e.seq < e'.seq

/-- The stamps of the entries do not decrease. -/
def Stamped (log : List (AuditRow α)) : Prop :=
  log.Pairwise fun e e' => e.timestampUtc ≤ e'.timestampUtc

/-- The entry `e` has the greatest number among the entries with the key `k`. -/
structure LastEntry (key : α → κ') (log : List (AuditRow α)) (k : κ') (e : AuditRow α) : Prop where
  mem : e ∈ log
  key_eq : key e.payload = k
  le : ∀ e' ∈ log, key e'.payload = k → e'.seq ≤ e.seq

/-- The rows with the key `k`. -/
def rowsOf (key : α → κ') (rows : List α) (k : κ') : List α := rows.filter fun a => key a = k

/-- For each key there is exactly one row, that of its latest entry before `time`, and none where
that is a deletion or where there is no entry. -/
def PicksLatest (key : α → κ') (log : List (AuditRow α)) (time : ℕ) (rows : List α) : Prop :=
  ∀ k, (∀ e, LastEntry key (entriesBefore log time) k e →
      rowsOf key rows k = if e.tgOp = .DELETE then [] else [e.payload]) ∧
    ((∀ e ∈ entriesBefore log time, key e.payload ≠ k) → rowsOf key rows k = [])

/-- The other entries of a key that share the stamp of the latest one before `time` are
deletions. -/
def Untied (key : α → κ') (log : List (AuditRow α)) (time : ℕ) : Prop :=
  ∀ k e, LastEntry key (entriesBefore log time) k e → ∀ e' ∈ entriesBefore log time,
    key e'.payload = k → e'.timestampUtc = e.timestampUtc → e' ≠ e → e'.tgOp = .DELETE

section Numbered

variable {key : α → κ'} {log : List (AuditRow α)}

theorem Numbered.eq_of_seq_eq (h : Numbered log) {e e' : AuditRow α} (he : e ∈ log) (he' : e' ∈ log)
    (hseq : e.seq = e'.seq) : e = e' := by
  have hnd : (log.map AuditRow.seq).Nodup := List.pairwise_map.2 (h.imp fun hlt => hlt.ne)
  exact List.inj_on_of_nodup_map hnd he he' hseq

theorem Numbered.filter_seq_eq (h : Numbered log) {e : AuditRow α} (he : e ∈ log) :
    (log.filter fun e' => e'.seq = e.seq) = [e] := by
  have hnd : log.Nodup := h.imp fun hlt heq => absurd (congrArg AuditRow.seq heq) hlt.ne
  refine List.perm_singleton.1 ((List.perm_ext_iff_of_nodup (hnd.filter _) (by simp)).2 fun x => ?_)
  rw [List.mem_filter, decide_eq_true_eq, List.mem_singleton]
  constructor
  · exact fun hx => h.eq_of_seq_eq hx.1 he hx.2
  · rintro rfl
    exact ⟨he, rfl⟩

/-- The entry with the greatest number of a key is the last one in the log. -/
theorem lastEntry_iff (h : Numbered log) (k : κ') (e : AuditRow α) :
    LastEntry key log k e ↔ (log.filter fun e' => key e'.payload = k).getLast? = some e := by
  constructor
  · intro he
    have hin : e ∈ log.filter fun e' => key e'.payload = k :=
      List.mem_filter.2 ⟨he.mem, by simpa using he.key_eq⟩
    cases hlast : (log.filter fun e' => key e'.payload = k).getLast? with
    | none => exact absurd (List.getLast?_eq_none_iff.1 hlast ▸ hin) (by simp)
    | some l =>
      have hl := List.mem_filter.1 (List.mem_of_getLast? hlast)
      have hle := he.le l hl.1 (by simpa using hl.2)
      have hsplit := List.dropLast_append_getLast? l hlast
      have hpw := List.Pairwise.filter (fun e' => decide (key e'.payload = k)) h
      rw [← hsplit, List.pairwise_append] at hpw
      rw [← hsplit, List.mem_append, List.mem_singleton] at hin
      rcases hin with hin | rfl
      · exact absurd (hpw.2.2 e hin l (List.mem_singleton_self l)) (by omega)
      · rfl
  · intro hlast
    have hl := List.mem_filter.1 (List.mem_of_getLast? hlast)
    refine ⟨hl.1, by simpa using hl.2, fun e' he' hk => ?_⟩
    have hsplit := List.dropLast_append_getLast? e hlast
    have hpw := List.Pairwise.filter (fun e' => decide (key e'.payload = k)) h
    have hin : e' ∈ log.filter fun e' => key e'.payload = k :=
      List.mem_filter.2 ⟨he', by simpa using hk⟩
    rw [← hsplit, List.pairwise_append] at hpw
    rw [← hsplit, List.mem_append, List.mem_singleton] at hin
    rcases hin with hin | rfl
    · exact (hpw.2.2 e' hin e (List.mem_singleton_self e)).le
    · exact le_rfl

/-- The latest entry of a key has the greatest stamp. -/
theorem LastEntry.timestamp_le {k : κ'} {e : AuditRow α} (hnum : Numbered log)
    (hstamp : Stamped log) (he : LastEntry key log k e) {e' : AuditRow α} (he' : e' ∈ log)
    (hk : key e'.payload = k) : e'.timestampUtc ≤ e.timestampUtc := by
  have hlatest := mem_latest_of_getLast? key hstamp ((lastEntry_iff hnum k e).1 he)
  have hmax := (List.mem_filter.1 hlatest).2
  simp only [decide_eq_true_eq] at hmax
  exact hmax e' he' (hk.trans he.key_eq.symm)

/-- What the query answers with for a key. -/
theorem rowsOf_view (hnum : Numbered log) (hstamp : Stamped log) (time : ℕ) {k : κ'}
    {e : AuditRow α}
    (he : LastEntry key (entriesBefore log time) k e) :
    rowsOf key (view key log time) k = ((entriesBefore log time).filter fun e' =>
      key e'.payload = k ∧ e'.timestampUtc = e.timestampUtc ∧ e'.tgOp ≠ .DELETE).map
        AuditRow.payload := by
  have hnum' : Numbered (entriesBefore log time) := List.Pairwise.filter _ hnum
  have hstamp' : Stamped (entriesBefore log time) := List.Pairwise.filter _ hstamp
  unfold rowsOf view latest
  rw [List.filter_map, List.filter_filter, List.filter_filter]
  refine congrArg (List.map _) (List.filter_congr fun x hx => ?_)
  rw [Function.comp_apply, ← Bool.decide_and, ← Bool.decide_and, decide_eq_decide]
  constructor
  · rintro ⟨⟨hk, hop⟩, hmax⟩
    have hle := he.timestamp_le hnum' hstamp' hx hk
    exact ⟨hk, le_antisymm hle (hmax e he.mem (he.key_eq.trans hk.symm)), hop⟩
  · rintro ⟨hk, hts, hop⟩
    exact ⟨⟨hk, hop⟩, fun e' he' hk' =>
      hts ▸ he.timestamp_le hnum' hstamp' he' (hk'.trans hk)⟩

theorem rowsOf_view_eq_nil {time : ℕ} {k : κ'}
    (h : ∀ e ∈ entriesBefore log time, key e.payload ≠ k) :
    rowsOf key (view key log time) k = [] := by
  refine List.filter_eq_nil_iff.2 fun a ha => ?_
  simp only [view, latest, List.mem_map, List.mem_filter] at ha
  obtain ⟨e, ⟨⟨he, -⟩, -⟩, rfl⟩ := ha
  simpa using h e he

variable (key) in
/-- **The query picks the latest entries if and only if they are untied.** -/
theorem picksLatest_iff_untied (hnum : Numbered log) (hstamp : Stamped log) (time : ℕ) :
    PicksLatest key log time (view key log time) ↔ Untied key log time := by
  have hnum' : Numbered (entriesBefore log time) := List.Pairwise.filter _ hnum
  constructor
  · intro h k e he e' he' hk hts hne
    by_contra hop
    have hview := (h k).1 e he
    rw [rowsOf_view hnum hstamp time he] at hview
    have hmem' : e' ∈ (entriesBefore log time).filter fun e' =>
        key e'.payload = k ∧ e'.timestampUtc = e.timestampUtc ∧ e'.tgOp ≠ .DELETE :=
      List.mem_filter.2 ⟨he', by simp [hk, hts, hop]⟩
    by_cases hdel : e.tgOp = .DELETE
    · rw [if_pos hdel, List.map_eq_nil_iff] at hview
      rw [hview] at hmem'
      exact absurd hmem' (by simp)
    · rw [if_neg hdel] at hview
      have hmem : e ∈ (entriesBefore log time).filter fun e' =>
          key e'.payload = k ∧ e'.timestampUtc = e.timestampUtc ∧ e'.tgOp ≠ .DELETE :=
        List.mem_filter.2 ⟨he.mem, by simp [he.key_eq, hdel]⟩
      have hlen := congrArg List.length hview
      rw [List.length_map, List.length_singleton] at hlen
      obtain ⟨x, hx⟩ := List.length_eq_one_iff.1 hlen
      rw [hx, List.mem_singleton] at hmem hmem'
      exact hne (hmem'.trans hmem.symm)
  · intro h k
    refine ⟨fun e he => ?_, rowsOf_view_eq_nil⟩
    rw [rowsOf_view hnum hstamp time he]
    split_ifs with hdel
    · rw [List.map_eq_nil_iff, List.filter_eq_nil_iff]
      intro e' he'
      simp only [decide_eq_true_eq, not_and, not_not]
      intro hk hts
      by_cases hne : e' = e
      · exact hne ▸ hdel
      · exact h k e he e' he' hk hts hne
    · have hfilter : ((entriesBefore log time).filter fun e' =>
          key e'.payload = k ∧ e'.timestampUtc = e.timestampUtc ∧ e'.tgOp ≠ .DELETE) = [e] := by
        have heq : ((entriesBefore log time).filter fun e' =>
            key e'.payload = k ∧ e'.timestampUtc = e.timestampUtc ∧ e'.tgOp ≠ .DELETE) =
            (entriesBefore log time).filter fun e' => e'.seq = e.seq := by
          refine List.filter_congr fun x hx => ?_
          simp only [decide_eq_decide]
          constructor
          · rintro ⟨hk, hts, hop⟩
            by_contra hseq
            exact hop (h k e he x hx hk hts fun hxe => hseq (congrArg AuditRow.seq hxe))
          · intro hseq
            rw [hnum'.eq_of_seq_eq hx he.mem hseq]
            exact ⟨he.key_eq, rfl, hdel⟩
        rw [heq]
        exact hnum'.filter_seq_eq he.mem
      rw [hfilter, List.map_singleton]

end Numbered

/-! ### The latest entries of a table -/

theorem Timeline.numbered {S : TableSpec ρ κ α} {h : List (RowChange ρ α)} {rows : List ρ}
    (ht : Timeline S h rows) :
    Numbered (h.map RowChange.entry) ∧ ∀ c ∈ h, c.entry.seq ≤ h.length := by
  induction ht with
  | nil => exact ⟨List.Pairwise.nil, by simp⟩
  | @snoc h rows e rows' hrun hstep hseq ih =>
    refine ⟨?_, fun c hc => ?_⟩
    · rw [Numbered, List.map_append, List.pairwise_append]
      refine ⟨ih.1, by simp, fun x hx y hy => ?_⟩
      obtain ⟨c, hc, rfl⟩ := List.mem_map.1 hx
      obtain rfl : y = e := by simpa using hy
      have := ih.2 c hc
      omega
    · rw [List.length_append, List.length_singleton]
      rcases List.mem_append.1 hc with hc | hc
      · exact (ih.2 c hc).trans (Nat.le_succ _)
      · obtain rfl := List.mem_singleton.1 hc
        exact hseq.le

namespace AuditedTable

theorem numbered {S : TableSpec ρ κ α} (t : AuditedTable S) : Numbered t.audit :=
  t.timeline.numbered.1

theorem lastEntry_audit_iff {S : TableSpec ρ κ α} (t : AuditedTable S) (key : α → κ') (k : κ')
    (e : AuditRow α) : LastEntry key t.audit k e ↔
      ∃ c, lastChange key t.history k = some c ∧ c.entry = e := by
  rw [lastEntry_iff t.numbered, audit, getLast?_filter_entries, Option.map_eq_some_iff]

/-- **The log tells the rows.** A table that logs its rows and does not update keys holds a row if
and only if the latest entry of its key carries it and is no deletion. -/
theorem find_eq_some_iff_lastEntry {S : TableSpec ρ κ ρ} (hS : S.rekeys = false)
    (hlogged : ∀ r, S.logged r = r) (hupdate : ∀ old new, S.loggedUpdate old new = new)
    (t : AuditedTable S) (k : κ) (r : ρ) : t.find k = some r ↔
      ∃ e, LastEntry S.key t.audit k e ∧ e.tgOp ≠ .DELETE ∧ e.payload = r := by
  have h := t.find_lastChange hS S.key (fun r => by rw [hlogged])
    (fun old new => by rw [hupdate]) k
  simp only [t.lastEntry_audit_iff S.key]
  rcases h with ⟨hnone, hfind⟩ | ⟨c, hc, hcase⟩
  · simp [hnone, hfind]
  · rcases hcase with ⟨hop, r', hr', hpay⟩ | ⟨hop, old, -, new, -, -, hr', hpay⟩ | ⟨hop, hfind⟩
    · simp [hc, hr', hop, hpay, hlogged]
    · simp [hc, hr', hop, hpay, hupdate]
    · simp [hc, hfind, hop]

end AuditedTable
