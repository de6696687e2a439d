import Mathlib
import TemporalFs.Db.Steps

/-!
# The database as of a time

Where the clock never goes back, what the four tables held before a time is the state that the
whole database had between two row changes, although each table has its own log. So what is true
of every database, foreign keys among it, is true of the past.

Each table is cut by the stamps of its own log. The proof goes along the run: if a change is stamped
before the time, so are all changes before it, and the database after it is the one that held at
that time; if it is stamped later, it leaves the rows of the past as they were, and the past keeps
the database that it had.

## Main definitions

* `Db.AsOf`: the database whose rows are those of a past time.
* `Db.Dated`: the stamps of a database follow its clock.

## Main results

* `Db.closed_dated`: row changes keep `Db.Dated`, so that every past time has its database.
-/

namespace TemporalFs

variable {X : Externals}

/-- The database `past` holds the rows that `db` held at a time. -/
structure Db.AsOf (db : Db X) (time : ℕ) (past : Db X) : Prop where
  metadata : past.metadata.rows = db.metadata.rowsAt time
  dentry : past.dentry.rows = db.dentry.rowsAt time
  data : past.data.rows = db.data.rowsAt time
  xattr : past.xattr.rows = db.xattr.rowsAt time

/-- The database has the given clock, nothing in it is stamped later than its next tick, and every
past time has its database. -/
structure Db.Dated (clock : ℕ → ℕ) (db : Db X) : Prop where
  clock_eq : db.clock = clock
  metadata : db.metadata.StampedBy db.now
  dentry : db.dentry.StampedBy db.now
  data : db.data.StampedBy db.now
  xattr : db.xattr.StampedBy db.now
  ordered : db.metadata.Ordered
  asOf : ∀ time, ∃ past, db.AsOf time past

theorem Db.dated_empty (clock : ℕ → ℕ) : (Db.empty X clock).Dated clock where
  clock_eq := rfl
  metadata := by simp [AuditedTable.StampedBy, Db.empty]
  dentry := by simp [AuditedTable.StampedBy, Db.empty]
  data := by simp [AuditedTable.StampedBy, Db.empty]
  xattr := by simp [AuditedTable.StampedBy, Db.empty]
  ordered := List.Pairwise.nil
  asOf _ := ⟨Db.empty X clock, rfl, rfl, rfl, rfl⟩

/-- **Every past time has its database**, where the clock never goes back. -/
theorem Db.closed_dated {clock : ℕ → ℕ} (hclock : Monotone clock) (b c : Bool) :
    Db.Closed b c (Db.Dated (X := X) clock) := by
  intro db db' hstep h
  obtain ⟨hc, hm, hd, hb, hx⟩ := hstep.extends
  have hnow : db.now ≤ db'.now := by
    unfold Db.now
    rw [hc, h.clock_eq]
    exact hclock hstep.tick_le
  have hm' := hm.stampedBy h.metadata le_rfl
  have hd' := hd.stampedBy h.dentry le_rfl
  have hb' := hb.stampedBy h.data le_rfl
  have hx' := hx.stampedBy h.xattr le_rfl
  refine ⟨hc.trans h.clock_eq, hm.stampedBy h.metadata hnow, hd.stampedBy h.dentry hnow,
    hb.stampedBy h.data hnow, hx.stampedBy h.xattr hnow, hm.ordered h.metadata h.ordered,
    fun time => ?_⟩
  by_cases hlt : db.now < time
  · -- the change lies in the past of this time, which is therefore the present
    exact ⟨db', (AuditedTable.rowsAt_of_stampedBy hm' hlt).symm,
      (AuditedTable.rowsAt_of_stampedBy hd' hlt).symm,
      (AuditedTable.rowsAt_of_stampedBy hb' hlt).symm,
      (AuditedTable.rowsAt_of_stampedBy hx' hlt).symm⟩
  · obtain ⟨past, hp⟩ := h.asOf time
    have hle := not_lt.1 hlt
    exact ⟨past, hp.metadata.trans (hm.rowsAt_eq hle).symm, hp.dentry.trans (hd.rowsAt_eq hle).symm,
      hp.data.trans (hb.rowsAt_eq hle).symm, hp.xattr.trans (hx.rowsAt_eq hle).symm⟩

end TemporalFs
