import Mathlib
import TemporalFs.Db.AuditRows

/-!
# Rewind points within a transaction

A transaction writes its audit rows one after the other, and each trigger reads the clock when its
statement runs. A rewind goes by the stamps only. So a time splits a transaction, leaving some of
its audit rows before it and others not, exactly where the clock moves on between the first and the
last of them. How many there are is known before the method runs (`Method.auditRows`).

## Main definitions

* `Db.stampsSince`: the stamps of the audit rows written since a state.
* `Db.NeverSplit`: no time has some of them before it and others not.

## Main results

* `Db.closed_continues`: the stamps written are the readings of the clock at the ticks between.
* `transaction_never_split_iff`: when no rewind point splits a transaction.
-/

namespace AuditedTable

variable {ρ κ α : Type} [DecidableEq κ] {S : TableSpec ρ κ α}

/-- The stamps of the entries that `t` has beyond `t₀`. -/
def stampsSince (t₀ t : AuditedTable S) : List ℕ :=
  (t.audit.drop t₀.audit.length).map AuditRow.timestampUtc

theorem stampsSince_self (t : AuditedTable S) : t.stampsSince t = [] := by
  simp [stampsSince]

/-- A row change adds at most its own stamp. -/
theorem Extends.mem_stampsSince {t₀ t t' : AuditedTable S} {now : ℕ} (h : t.Extends t' now)
    (hpre : t₀.history <+: t.history) (x : ℕ) : x ∈ t₀.stampsSince t' ↔
      x ∈ t₀.stampsSince t ∨ (t'.history.length = t.history.length + 1 ∧ x = now) := by
  rcases h with rfl | ⟨c, hc, hstamp⟩
  · simp
  · have hlen : t₀.audit.length ≤ t.audit.length := by simpa [audit] using hpre.length_le
    have haudit : t'.audit = t.audit ++ [c.entry] := by simp [audit, hc]
    rw [stampsSince, haudit, List.drop_append_of_le_length hlen, List.map_append]
    simp [stampsSince, hstamp, hc]

theorem Extends.length_eq {t t' : AuditedTable S} {now : ℕ} (h : t.Extends t' now) :
    t'.history.length = t.history.length ∨ t'.history.length = t.history.length + 1 := by
  rcases h with rfl | ⟨c, hc, -⟩
  · exact Or.inl rfl
  · exact Or.inr (by simp [hc])

end AuditedTable

namespace TemporalFs

variable {X : Externals}

/-- The stamps of the audit rows that `db` has beyond `db₀`. -/
def Db.stampsSince (db₀ db : Db X) : List ℕ :=
  db₀.metadata.stampsSince db.metadata ++ db₀.dentry.stampsSince db.dentry ++
    db₀.data.stampsSince db.data ++ db₀.xattr.stampsSince db.xattr

/-- For no time some of the audit rows written between the states are stamped before it and others
are not. -/
def Db.NeverSplit (db₀ db : Db X) : Prop :=
  ∀ time, (∀ t ∈ db₀.stampsSince db, t < time) ∨ ∀ t ∈ db₀.stampsSince db, ¬ t < time

/-- A row change writes at most one audit row. -/
theorem Db.Step.tick_le_succ {b c : Bool} {db db' : Db X} (h : Db.Step b c db db') :
    db'.tick ≤ db.tick + 1 := by
  obtain ⟨-, hm, hd, hb, hx⟩ := h.extends
  have hm := hm.length_eq
  have hd := hd.length_eq
  have hb := hb.length_eq
  have hx := hx.length_eq
  unfold Db.tick
  cases h with
  | insertMetadata _ m => simp only [Db.insertMetadata] at *; omega
  | updateMetadata _ i f => simp only [Db.updateMetadata] at *; omega
  | eraseMetadata _ i => simp only [Db.eraseMetadata] at *; omega
  | insertDentry e h =>
    obtain ⟨-, -, -, h₁, -, h₂, h₃, -⟩ := Db.insertDentry_eq_some h
    rw [h₁, h₂, h₃]
    omega
  | updateDentry p n f h =>
    cases he : db.dentry.find (p, n) with
    | none =>
      rw [Db.updateDentry_of_find_none he] at h
      rw [Option.some.inj h]
      omega
    | some e =>
      obtain ⟨-, -, h₁, -, h₂, h₃, -⟩ := Db.updateDentry_eq_some he h
      rw [h₁, h₂, h₃]
      omega
  | deleteDentryRow _ p n => simp only [Db.deleteDentryRow] at *; omega
  | replaceData r h =>
    obtain ⟨-, h₁, h₂, -, h₃, -⟩ := Db.replaceData_eq_some h
    rw [h₁, h₂, h₃]
    omega
  | updateData _ i k bytes => simp only [Db.updateData] at *; omega
  | deleteDataRow _ i k => simp only [Db.deleteDataRow] at *; omega
  | replaceXattr r h =>
    obtain ⟨-, h₁, h₂, h₃, -⟩ := Db.replaceXattr_eq_some h
    rw [h₁, h₂, h₃]
    omega
  | deleteXattrRow _ i n => simp only [Db.deleteXattrRow] at *; omega
  | setBdata _ rows => exact Nat.le_succ _

/-- The state `db` comes from `db₀` by row changes, and the stamps written since are the readings
of the clock at the ticks between. -/
structure Db.Continues (db₀ db : Db X) : Prop where
  clock : db.clock = db₀.clock
  metadata : db₀.metadata.history <+: db.metadata.history
  dentry : db₀.dentry.history <+: db.dentry.history
  data : db₀.data.history <+: db.data.history
  xattr : db₀.xattr.history <+: db.xattr.history
  tick_le : db₀.tick ≤ db.tick
  stamps : ∀ x, x ∈ db₀.stampsSince db ↔ ∃ t, db₀.tick ≤ t ∧ t < db.tick ∧ db₀.clock t = x

theorem Db.continues_self (db : Db X) : db.Continues db where
  clock := rfl
  metadata := List.prefix_rfl
  dentry := List.prefix_rfl
  data := List.prefix_rfl
  xattr := List.prefix_rfl
  tick_le := le_rfl
  stamps x := by
    simp only [Db.stampsSince, AuditedTable.stampsSince_self, List.append_nil, List.not_mem_nil,
      false_iff, not_exists]
    omega

theorem Db.closed_continues (db₀ : Db X) : Db.Closed true true db₀.Continues := by
  intro db db' h hdb
  obtain ⟨hclock, hm, hd, hb, hx⟩ := h.extends
  have hle := h.tick_le
  have hsucc := h.tick_le_succ
  refine ⟨hclock.trans hdb.clock, hdb.metadata.trans hm.isPrefix, hdb.dentry.trans hd.isPrefix,
    hdb.data.trans hb.isPrefix, hdb.xattr.trans hx.isPrefix, hdb.tick_le.trans hle, fun x => ?_⟩
  have hmem : x ∈ db₀.stampsSince db' ↔
      x ∈ db₀.stampsSince db ∨ (db'.tick = db.tick + 1 ∧ x = db.now) := by
    have htick : db'.tick = db.tick + 1 ↔
        db'.metadata.history.length = db.metadata.history.length + 1 ∨
          db'.dentry.history.length = db.dentry.history.length + 1 ∨
          db'.data.history.length = db.data.history.length + 1 ∨
          db'.xattr.history.length = db.xattr.history.length + 1 := by
      have hlm := hm.length_eq
      have hld := hd.length_eq
      have hlb := hb.length_eq
      have hlx := hx.length_eq
      unfold Db.tick at hsucc ⊢
      omega
    simp only [Db.stampsSince, List.mem_append, hm.mem_stampsSince hdb.metadata,
      hd.mem_stampsSince hdb.dentry, hb.mem_stampsSince hdb.data, hx.mem_stampsSince hdb.xattr,
        htick]
    grind
  rw [hmem, hdb.stamps x]
  constructor
  · rintro (⟨t, h₁, h₂, rfl⟩ | ⟨htick, rfl⟩)
    · exact ⟨t, h₁, h₂.trans_le hle, rfl⟩
    · exact ⟨db.tick, hdb.tick_le, by omega, by rw [Db.now, hdb.clock]⟩
  · rintro ⟨t, h₁, h₂, rfl⟩
    by_cases ht : t < db.tick
    · exact Or.inl ⟨t, h₁, ht, rfl⟩
    · obtain rfl : t = db.tick := by omega
      exact Or.inr ⟨by omega, by rw [Db.now, hdb.clock]⟩

theorem Db.neverSplit_iff (db₀ db : Db X) :
    db₀.NeverSplit db ↔ ∀ x ∈ db₀.stampsSince db, ∀ y ∈ db₀.stampsSince db, x = y := by
  constructor
  · intro h x hx y hy
    rcases lt_trichotomy x y with hlt | heq | hlt
    · rcases h y with hall | hnone
      · exact absurd (hall y hy) (lt_irrefl y)
      · exact absurd hlt (hnone x hx)
    · exact heq
    · rcases h x with hall | hnone
      · exact absurd (hall x hx) (lt_irrefl x)
      · exact absurd hlt (hnone y hy)
  · intro h time
    by_cases hex : ∃ x ∈ db₀.stampsSince db, x < time
    · obtain ⟨x, hx, hlt⟩ := hex
      exact Or.inl fun y hy => h x hx y hy ▸ hlt
    · push Not at hex
      exact Or.inr fun y hy => not_lt.2 (hex y hy)

/-- **No rewind point splits a transaction** if and only if the clock stands still over the audit
rows that the method is to write, as many as its arguments and the rows before it ask for. This is
so for every method, from every state of the tables and with every clock. -/
theorem transaction_never_split_iff (self : Sqlite) (db : Db X) (m : Method) :
    db.NeverSplit (m.run self db) ↔
      ∀ k < m.auditRows self db, db.clock (db.tick + k) = db.clock db.tick := by
  have hcont : db.Continues (m.run self db) :=
    m.run_keeps db.closed_continues self db.continues_self
  have htick := m.tick_run self db
  rw [Db.neverSplit_iff]
  constructor
  · intro h k hk
    refine h _ ((hcont.stamps _).2 ⟨db.tick + k, ?_, ?_, rfl⟩) _
      ((hcont.stamps _).2 ⟨db.tick, le_rfl, ?_, rfl⟩)
    · exact Nat.le_add_right _ _
    · omega
    · omega
  · intro h x hx y hy
    obtain ⟨t, hle, hlt, rfl⟩ := (hcont.stamps x).1 hx
    obtain ⟨t', hle', hlt', rfl⟩ := (hcont.stamps y).1 hy
    have ht := h (t - db.tick) (by omega)
    have ht' := h (t' - db.tick) (by omega)
    rw [Nat.add_sub_cancel' hle] at ht
    rw [Nat.add_sub_cancel' hle'] at ht'
    rw [ht, ht']

/-- The creation of a directory writes six audit rows: its inode, three entries, and two times of
its parent. -/
example : (Method.addInodeAndDentry epoch 1 [97] (Sqlite.sampleAttr .Directory)).auditRows
    .new Sqlite.sampleDb = 6 := by decide

/-- The creation of a directory is seen without its entry `".."`. -/
theorem made_directory_is_split : ¬ ∀ (self : Sqlite) (db : Db .sample) (m : Method),
    db.NeverSplit (m.run self db) := by
  intro h
  have hsplit := h .new Sqlite.sampleDb
    (.addInodeAndDentry epoch 1 [97] (Sqlite.sampleAttr .Directory)) 5
  revert hsplit
  decide

end TemporalFs
