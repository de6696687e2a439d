import Mathlib
import TemporalFs.Db.SameButTimes
import TemporalFs.Db.Contents

/-!
# Deletions in any order

The inodes that the kernel counts are deleted in the order in which a hash map gives them. That
order decides which rows stay where an inode without an entry holds entries itself: with it go the
last entries of others. Where no such inode does, the rows that stay are the same for all orders.

## Main definitions

* `Db.UnnamedEmpty`: an inode that no entry names holds no entries.
* `Db.CollectedTo`: what is left when inodes are deleted.

## Main results

* `Db.UnnamedEmpty.collectedTo_foldl`: the rows that stay.
* `Db.CollectedTo.sameButTimes`: they are the same for all orders.
-/

namespace TemporalFs

variable {X : Externals}

/-! ### The rows after a deletion -/

namespace Db

section Rows

variable (db : Db X)

theorem dentry_rows_deleteDentryWhere (p : DentryRow → Bool) :
    (db.deleteDentryWhere p).dentry.rows = db.dentry.rows.filter fun e => ¬ p e :=
  (AuditedTable.rows_foldl_erase (fun db : Db X => db.dentry)
    (k := fun e : DentryRow => (e.parentId, e.name)) (fun db _ => db.dentry.rows_erase _ _) _
    db).trans (db.dentry.filter_key_notMem p)

theorem data_rows_deleteDataWhere (p : DataRow → Bool) :
    (db.deleteDataWhere p).data.rows = db.data.rows.filter fun r => ¬ p r :=
  (AuditedTable.rows_foldl_erase (fun db : Db X => db.data)
    (k := fun r : DataRow => (r.fileId, r.blockNum)) (fun db _ => db.data.rows_erase _ _) _
    db).trans (db.data.filter_key_notMem p)

theorem xattr_rows_deleteXattrWhere (p : XattrRow → Bool) :
    (db.deleteXattrWhere p).xattr.rows = db.xattr.rows.filter fun r => ¬ p r :=
  (AuditedTable.rows_foldl_erase (fun db : Db X => db.xattr)
    (k := fun r : XattrRow => (r.fileId, r.name)) (fun db _ => db.xattr.rows_erase _ _) _
    db).trans (db.xattr.filter_key_notMem p)

/-- Without its row nothing refers to an inode, so a deletion changes the tables in the same way. -/
theorem metadata_rows_deleteMetadata (i : ℕ) :
    (db.deleteMetadata i).metadata.rows = db.metadata.rows.filter fun m => m.id ≠ i := by
  unfold deleteMetadata
  split
  · rename_i hnone
    exact (List.filter_eq_self.2 fun m hm => decide_eq_true
      ((db.metadata.find_eq_none_iff i).1 hnone m hm)).symm
  · refine (AuditedTable.rows_erase ..).trans ?_
    rw [metadata_cascade]
    rfl

theorem data_rows_deleteMetadata (i : ℕ) :
    (db.deleteMetadata i).data.rows = db.data.rows.filter fun r => r.fileId ≠ i := by
  unfold deleteMetadata
  split
  · rename_i hnone
    refine (List.filter_eq_self.2 fun r hr => decide_eq_true ?_).symm
    rintro rfl
    exact absurd (db.data_fk _ r (db.data.find_key hr)) (by simp [hnone])
  · change (db.cascade i).data.rows = _
    rw [cascade, data_deleteDentryWhere, data_deleteDentryWhere, data_rows_deleteDataWhere,
      data_deleteXattrWhere]
    exact List.filter_congr fun r _ => by simp

theorem xattr_rows_deleteMetadata (i : ℕ) :
    (db.deleteMetadata i).xattr.rows = db.xattr.rows.filter fun r => r.fileId ≠ i := by
  unfold deleteMetadata
  split
  · rename_i hnone
    refine (List.filter_eq_self.2 fun r hr => decide_eq_true ?_).symm
    rintro rfl
    exact absurd (db.xattr_fk _ r (db.xattr.find_key hr)) (by simp [hnone])
  · change (db.cascade i).xattr.rows = _
    rw [cascade, xattr_deleteDentryWhere, xattr_deleteDentryWhere, xattr_deleteDataWhere,
      xattr_rows_deleteXattrWhere]
    exact List.filter_congr fun r _ => by simp

theorem dentry_rows_deleteMetadata (i : ℕ) (h : ∀ e ∈ db.dentry.rows, e.childId ≠ i)
    (h' : ∀ e ∈ db.dentry.rows, e.parentId ≠ i) :
    (db.deleteMetadata i).dentry.rows = db.dentry.rows := by
  unfold deleteMetadata
  split
  · rfl
  · change (db.cascade i).dentry.rows = _
    rw [cascade, dentry_rows_deleteDentryWhere, dentry_rows_deleteDentryWhere,
      dentry_deleteDataWhere, dentry_deleteXattrWhere, List.filter_filter]
    exact List.filter_eq_self.2 fun e he => by simp [h e he, h' e he]

end Rows

/-! ### Deletions of inodes without an entry -/

/-- An inode that no entry names holds no entries. -/
def UnnamedEmpty (db : Db X) : Prop :=
  ∀ e ∈ db.dentry.rows, nlink db.dentry.rows e.parentId ≠ none

instance (db : Db X) : Decidable db.UnnamedEmpty :=
  inferInstanceAs (Decidable (∀ e ∈ db.dentry.rows, _))

/-- The inode `i` is deleted when the inodes of `l` are. -/
def Collected (db : Db X) (l : List ℕ) (i : ℕ) : Prop := i ∈ l ∧ nlink db.dentry.rows i = none

instance (db : Db X) (l : List ℕ) (i : ℕ) : Decidable (db.Collected l i) :=
  inferInstanceAs (Decidable (_ ∧ _))

/-- The rows that are left when the inodes of `l` are deleted from `db`. -/
structure CollectedTo (db : Db X) (l : List ℕ) (db' : Db X) : Prop where
  metadata : db'.metadata.rows = db.metadata.rows.filter fun m => ¬ db.Collected l m.id
  dentry : db'.dentry.rows = db.dentry.rows
  data : db'.data.rows = db.data.rows.filter fun r => ¬ db.Collected l r.fileId
  xattr : db'.xattr.rows = db.xattr.rows.filter fun r => ¬ db.Collected l r.fileId
  sqliteSequence : db'.sqliteSequence = db.sqliteSequence

variable {db db' : Db X} {l l' : List ℕ}

theorem UnnamedEmpty.collectedTo_collect (h : db.UnnamedEmpty) (i : ℕ) :
    db.CollectedTo [i] (db.collect i) := by
  by_cases hi : nlink db.dentry.rows i = none
  · have hun : db.Unnamed i := (db.nlink_eq_none_iff_unnamed i).1 hi
    have hiff : ∀ j, db.Collected [i] j ↔ j = i := fun j =>
      ⟨fun hj => List.mem_singleton.1 hj.1, fun hj => ⟨List.mem_singleton.2 hj, hj ▸ hi⟩⟩
    rw [db.collect_of_unnamed i hun]
    refine ⟨?_, ?_, ?_, ?_, db.sqliteSequence_deleteMetadata i⟩
    · simp only [hiff, db.metadata_rows_deleteMetadata, ne_eq]
    · exact db.dentry_rows_deleteMetadata i ((nlink_eq_none_iff _ i).1 hi)
        fun e he heq => h e he (heq ▸ hi)
    · simp only [hiff, db.data_rows_deleteMetadata, ne_eq]
    · simp only [hiff, db.xattr_rows_deleteMetadata, ne_eq]
  · have hnot : ∀ j, ¬ db.Collected [i] j := fun j hj => hi (List.mem_singleton.1 hj.1 ▸ hj.2)
    rw [collect, if_neg hi]
    refine ⟨?_, rfl, ?_, ?_, rfl⟩ <;> exact (List.filter_eq_self.2 fun r _ => by simp [hnot]).symm

/-- What was named stays so, as the entries stay. -/
theorem CollectedTo.unnamedEmpty (h : db.CollectedTo l db') (hdb : db.UnnamedEmpty) :
    db'.UnnamedEmpty := by
  unfold UnnamedEmpty
  rw [h.dentry]
  exact hdb

theorem CollectedTo.trans {db₁ : Db X} (h : db.CollectedTo l db₁) (h' : db₁.CollectedTo l' db') :
    db.CollectedTo (l ++ l') db' := by
  have hiff : ∀ j, db.Collected (l ++ l') j ↔ db.Collected l j ∨ db₁.Collected l' j := by
    intro j
    unfold Collected
    rw [h.dentry, List.mem_append, or_and_right]
  constructor
  · rw [h'.metadata, h.metadata, List.filter_filter]
    exact List.filter_congr fun m _ => by simp [hiff, Bool.and_comm]
  · rw [h'.dentry, h.dentry]
  · rw [h'.data, h.data, List.filter_filter]
    exact List.filter_congr fun m _ => by simp [hiff, Bool.and_comm]
  · rw [h'.xattr, h.xattr, List.filter_filter]
    exact List.filter_congr fun m _ => by simp [hiff, Bool.and_comm]
  · rw [h'.sqliteSequence, h.sqliteSequence]

theorem CollectedTo.nil : db.CollectedTo [] db := by
  refine ⟨?_, rfl, ?_, ?_, rfl⟩ <;>
    exact (List.filter_eq_self.2 fun r _ => by simp [Collected]).symm

/-- **The rows that stay** when inodes are deleted one after the other. -/
theorem UnnamedEmpty.collectedTo_foldl (h : db.UnnamedEmpty) (l : List ℕ) :
    db.CollectedTo l (l.foldl Db.collect db) := by
  induction l generalizing db with
  | nil => exact .nil
  | cons i l ih =>
    have hi := h.collectedTo_collect i
    exact hi.trans (ih (hi.unnamedEmpty h))

theorem SameButTimes.collect (h : db.SameButTimes db') (i : ℕ) :
    (db.collect i).SameButTimes (db'.collect i) := by
  unfold Db.collect
  rw [h.dentry]
  split_ifs
  · exact h.deleteMetadata i
  · exact h

/-- The order does not matter, and neither do the times. -/
theorem CollectedTo.sameButTimes {db₁ db₁' : Db X} (h : db.CollectedTo l db₁)
    (h' : db'.CollectedTo l' db₁') (hdb : db.SameButTimes db') (hl : ∀ i, i ∈ l ↔ i ∈ l') :
    db₁.SameButTimes db₁' := by
  have hiff : ∀ j, db.Collected l j ↔ db'.Collected l' j := by
    intro j
    unfold Collected
    rw [hdb.dentry, hl]
  refine ⟨⟨?_, hdb.metadata.key⟩, ?_, ?_, ?_, ?_⟩
  · rw [h.metadata, h'.metadata]
    refine List.rel_filter (fun m m' hm => ?_) hdb.metadata.rows
    simp only [hiff, hm.id]
  · rw [h.dentry, h'.dentry, hdb.dentry]
  · simp only [h.data, h'.data, hdb.data, hiff]
  · simp only [h.xattr, h'.xattr, hdb.xattr, hiff]
  · rw [h.sqliteSequence, h'.sqliteSequence, hdb.sqliteSequence]

end Db

end TemporalFs
