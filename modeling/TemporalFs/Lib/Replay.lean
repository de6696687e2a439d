import Mathlib
import TemporalFs.Lib.LatestEntry

/-!
# Replaying a log of values and differences

The log of one key carries a whole value at each insertion and a difference at each update. What
the key holds after the log is the replay of its entries one after the other (`replay`). It can
also be computed from the last insertion alone: if no deletion follows it, the value is that of the
insertion with the differences after it applied, and else there is none.

## Main definitions

* `replay`: what the key holds after the log.
* `greatestSeq`: the greatest number of an entry of a kind.

## Main results

* `replay_of_created`, `replay_of_not_created`: the replay from the last insertion.
-/

variable {β : Type}

/-- What an entry makes of the value before it. -/
def replayStep (apply : β → β → β) (v : Option β) (e : AuditRow β) : Option β :=
  match e.tgOp with
  | .INSERT => some e.payload
  | .UPDATE => v.map fun b => apply b e.payload
  | .DELETE => none

/-- What a key holds after the entries of its log. -/
def replay (apply : β → β → β) (entries : List (AuditRow β)) : Option β :=
  entries.foldl (replayStep apply) none

/-- The greatest number of an entry with the operation `op`. -/
def greatestSeq (entries : List (AuditRow β)) (op : TgOp) : Option ℕ :=
  ((entries.filter fun e => e.tgOp = op).map AuditRow.seq).max?

section Replay

variable {apply : β → β → β} {entries : List (AuditRow β)}

theorem replay_snoc (apply : β → β → β) (entries : List (AuditRow β)) (e : AuditRow β) :
    replay apply (entries ++ [e]) = replayStep apply (replay apply entries) e := by
  simp [replay]

theorem greatestSeq_eq_none_iff {op : TgOp} :
    greatestSeq entries op = none ↔ ∀ e ∈ entries, e.tgOp ≠ op := by
  simp [greatestSeq, List.max?_eq_none_iff]

theorem greatestSeq_eq_some_iff {op : TgOp} {n : ℕ} : greatestSeq entries op = some n ↔
    (∃ e ∈ entries, e.tgOp = op ∧ e.seq = n) ∧ ∀ e ∈ entries, e.tgOp = op → e.seq ≤ n := by
  unfold greatestSeq
  rw [List.max?_eq_some_iff]
  simp only [List.mem_map, List.mem_filter, decide_eq_true_eq]
  constructor
  · rintro ⟨⟨e, ⟨he, hop⟩, hseq⟩, hmax⟩
    exact ⟨⟨e, he, hop, hseq⟩, fun e' he' hop' => hmax _ ⟨e', ⟨he', hop'⟩, rfl⟩⟩
  · rintro ⟨⟨e, he, hop, hseq⟩, hmax⟩
    refine ⟨⟨e, ⟨he, hop⟩, hseq⟩, ?_⟩
    rintro n' ⟨e', ⟨he', hop'⟩, rfl⟩
    exact hmax e' he' hop'

/-- Without an insertion there is no value to update. -/
theorem foldl_replayStep_none (h : ∀ e ∈ entries, e.tgOp ≠ .INSERT) :
    entries.foldl (replayStep apply) none = none := by
  induction entries with
  | nil => rfl
  | cons e entries ih =>
    have he : replayStep apply none e = none := by
      unfold replayStep
      cases hop : e.tgOp with
      | INSERT => exact absurd hop (h e List.mem_cons_self)
      | UPDATE => rfl
      | DELETE => rfl
    rw [List.foldl_cons, he]
    exact ih fun e' he' => h e' (List.mem_cons_of_mem _ he')

/-- A deletion that no insertion follows leaves no value. -/
theorem foldl_replayStep_of_delete (v : Option β) (h : ∀ e ∈ entries, e.tgOp ≠ .INSERT)
    (hdel : ∃ e ∈ entries, e.tgOp = .DELETE) : entries.foldl (replayStep apply) v = none := by
  obtain ⟨d, hd, hop⟩ := hdel
  obtain ⟨pre, post, rfl⟩ := List.append_of_mem hd
  rw [List.foldl_append, List.foldl_cons]
  have hstep : replayStep apply (pre.foldl (replayStep apply) v) d = none := by
    simp only [replayStep, hop]
  rw [hstep]
  exact foldl_replayStep_none fun e he => h e (by simp [he])

/-- Differences alone are applied in their order. -/
theorem foldl_replayStep_updates (b : β) (h : ∀ e ∈ entries, e.tgOp = .UPDATE) :
    entries.foldl (replayStep apply) (some b) =
      some ((entries.map AuditRow.payload).foldl apply b) := by
  induction entries generalizing b with
  | nil => rfl
  | cons e entries ih =>
    have he : replayStep apply (some b) e = some (apply b e.payload) := by
      simp only [replayStep, h e List.mem_cons_self, Option.map_some]
    rw [List.foldl_cons, he]
    exact ih _ fun e' he' => h e' (List.mem_cons_of_mem _ he')

/-- The log before and after its last insertion. -/
theorem split_at_greatestSeq (hnum : Numbered entries) {n : ℕ}
    (h : greatestSeq entries .INSERT = some n) :
    ∃ pre e post, entries = pre ++ e :: post ∧ e.tgOp = .INSERT ∧ e.seq = n ∧
      (∀ x ∈ pre, x.seq < n) ∧ (∀ x ∈ post, n < x.seq) ∧ ∀ x ∈ post, x.tgOp ≠ .INSERT := by
  obtain ⟨⟨e, he, hop, rfl⟩, hmax⟩ := greatestSeq_eq_some_iff.1 h
  obtain ⟨pre, post, rfl⟩ := List.append_of_mem he
  rw [Numbered, List.pairwise_append, List.pairwise_cons] at hnum
  have hpost : ∀ x ∈ post, e.seq < x.seq := hnum.2.1.1
  refine ⟨pre, e, post, rfl, hop, rfl, fun x hx => hnum.2.2 x hx e List.mem_cons_self, hpost,
    fun x hx hins => ?_⟩
  exact absurd (hmax x (by simp [hx]) hins) (not_le.2 (hpost x hx))

variable (apply) in
/-- **The value after the last insertion**, where no deletion follows it. -/
theorem replay_of_created (hnum : Numbered entries) {n : ℕ}
    (h : greatestSeq entries .INSERT = some n)
    (hdel : ∀ d, greatestSeq entries .DELETE = some d → d < n) :
    ∃ b patches, (entries.filter fun e => e.seq ≥ n).map AuditRow.payload = b :: patches ∧
      replay apply entries = some (patches.foldl apply b) := by
  obtain ⟨pre, e, post, rfl, hop, rfl, hpre, hpost, hins⟩ := split_at_greatestSeq hnum h
  have hupd : ∀ x ∈ post, x.tgOp = .UPDATE := by
    intro x hx
    cases hx' : x.tgOp with
    | INSERT => exact absurd hx' (hins x hx)
    | UPDATE => rfl
    | DELETE =>
      cases hd : greatestSeq (pre ++ e :: post) .DELETE with
      | none => exact absurd hx' (greatestSeq_eq_none_iff.1 hd x (by simp [hx]))
      | some d =>
        have hle := (greatestSeq_eq_some_iff.1 hd).2 x (by simp [hx]) hx'
        have hlt := hdel d hd
        have := hpost x hx
        omega
  refine ⟨e.payload, post.map AuditRow.payload, ?_, ?_⟩
  · have hpre' : pre.filter (fun x => x.seq ≥ e.seq) = [] :=
      List.filter_eq_nil_iff.2 fun x hx => by simpa using hpre x hx
    have hpost' : post.filter (fun x => x.seq ≥ e.seq) = post :=
      List.filter_eq_self.2 fun x hx => by simpa using (hpost x hx).le
    rw [List.filter_append, List.filter_cons_of_pos (by simp), hpre', hpost', List.nil_append,
      List.map_cons]
  · have hstep : ∀ v, replayStep apply v e = some e.payload := fun v => by
      simp only [replayStep, hop]
    rw [replay, List.foldl_append, List.foldl_cons, hstep]
    exact foldl_replayStep_updates _ hupd

/-- **No value is left** where no insertion follows the last deletion. -/
theorem replay_of_not_created (hnum : Numbered entries) (h : greatestSeq entries .INSERT = none ∨
      ∃ n d, greatestSeq entries .INSERT = some n ∧ greatestSeq entries .DELETE = some d ∧
        ¬ d < n) :
    replay apply entries = none := by
  rcases h with h | ⟨n, d, hn, hd, hlt⟩
  · exact foldl_replayStep_none (greatestSeq_eq_none_iff.1 h)
  · obtain ⟨pre, e, post, rfl, hop, rfl, hpre, hpost, hins⟩ := split_at_greatestSeq hnum hn
    obtain ⟨⟨x, hx, hxop, rfl⟩, -⟩ := greatestSeq_eq_some_iff.1 hd
    rw [replay, List.foldl_append, List.foldl_cons]
    refine foldl_replayStep_of_delete _ hins ⟨x, ?_, hxop⟩
    rcases List.mem_append.1 hx with hx | hx
    · exact absurd (hpre x hx) hlt
    · rcases List.mem_cons.1 hx with rfl | hx
      · rw [hop] at hxop
        exact absurd hxop (by simp)
      · exact hx

end Replay

/-! ### The replay of a table's log -/

/-- The entry with another payload. -/
def AuditRow.mapPayload {α β : Type} (f : α → β) (e : AuditRow α) : AuditRow β :=
  ⟨e.seq, e.timestampUtc, e.tgOp, f e.payload⟩

/-- The entries of a key, with what `value` takes of their payloads. -/
def keyLog {α κ : Type} [DecidableEq κ] (key : α → κ) (value : α → β) (log : List (AuditRow α))
    (k : κ) : List (AuditRow β) :=
  (log.filter fun e => key e.payload = k).map (AuditRow.mapPayload value)

section Table

variable {ρ κ : Type} [DecidableEq κ] {S : TableSpec ρ κ ρ} {value : ρ → β} {apply : β → β → β}

theorem numbered_keyLog (t : AuditedTable S) (key : ρ → κ) (value : ρ → β) (k : κ) :
    Numbered (keyLog key value t.audit k) := by
  rw [Numbered, keyLog, List.pairwise_map]
  exact List.Pairwise.filter _ t.numbered

/-- **The log of a key tells its value**, for a table that logs its rows but for updates, where the
difference it logs instead could be applied in all changes so far. -/
theorem AuditedTable.replay_keyLog_of_history (hS : S.rekeys = false)
    (hlogged : ∀ r, S.logged r = r)
    (hupdate : ∀ old new, S.key (S.loggedUpdate old new) = S.key new) (t : AuditedTable S)
    (happly : ∀ c ∈ t.history, ∀ old ∈ c.before, ∀ new ∈ c.after,
      apply (value old) (value (S.loggedUpdate old new)) = value new) (k : κ) :
    replay apply (keyLog S.key value t.audit k) = (t.find k).map value := by
  obtain ⟨rows, h, ht⟩ := t
  induction ht with
  | nil => rfl
  | @snoc h rows e rows' hrun hstep hseq ih =>
    let t : AuditedTable S := ⟨rows, h, hrun⟩
    let t' : AuditedTable S := ⟨rows', h ++ [⟨rows, e, rows'⟩], .snoc e rows' hrun hstep hseq⟩
    have ih := ih fun c hc => happly c (List.mem_append_left _ hc)
    have happly := happly ⟨rows, e, rows'⟩ (List.mem_append_right _ (List.mem_singleton.2 rfl))
    change replay apply (keyLog S.key value t.audit k) = (t.find k).map value at ih
    change replay apply (keyLog S.key value t'.audit k) = (t'.find k).map value
    have haudit : t'.audit = t.audit ++ [e] := by simp [t, t', AuditedTable.audit]
    by_cases hk : S.key e.payload = k
    · have hlog : keyLog S.key value t'.audit k =
          keyLog S.key value t.audit k ++ [e.mapPayload value] := by
        simp [keyLog, haudit, List.filter_append, hk]
      rw [hlog, replay_snoc, ih]
      have hheld := hstep.held hS S.key (fun r => by rw [hlogged]) hupdate
      rcases hheld with ⟨hop, r, hr, hrk, hpay⟩ | ⟨hop, old, hold, new, hnew, holdk, hnewk, hpay⟩ |
        ⟨hop, hnone⟩
      · have hfind : t'.find k = some r := (t'.find_eq_some_iff k r).2 ⟨hr, hrk.trans hk⟩
        rw [hfind]
        simp [replayStep, AuditRow.mapPayload, hop, hpay, hlogged]
      · have hfind : t.find k = some old := (t.find_eq_some_iff k old).2 ⟨hold, holdk.trans hk⟩
        have hfind' : t'.find k = some new := (t'.find_eq_some_iff k new).2 ⟨hnew, hnewk.trans hk⟩
        rw [hfind, hfind']
        simp [replayStep, AuditRow.mapPayload, hop, hpay, happly old hold new hnew]
      · have hfind : t'.find k = none :=
          (t'.find_eq_none_iff k).2 fun r hr hrk => hnone r hr (hrk.trans hk.symm)
        rw [hfind]
        simp [replayStep, AuditRow.mapPayload, hop]
    · have hlog : keyLog S.key value t'.audit k = keyLog S.key value t.audit k := by
        simp [keyLog, haudit, List.filter_append, hk]
      have hfind : t'.find k = t.find k := AuditedTable.find_congr k fun r hr =>
        hstep.mem_iff_of_key_ne hS S.key (fun r => by rw [hlogged]) hupdate r
          fun h => hk (h.symm.trans hr)
      rw [hlog, hfind, ih]

end Table
