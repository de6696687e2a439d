import Mathlib
import TemporalFs.Lib.LatestEntry
import TemporalFs.Db.Methods

/-!
# The logs of inodes and of extended attributes are current

The triggers of `metadata` and `xattr` log whole rows, and no statement changes the key of such a
row. So the latest entry of a key tells what the table holds for it, after any run of methods: a
`REPLACE` logs the new row, a cascade logs its deletions, and what was rolled back has left no
entry.

The entries of `dentry` are not among them: its trigger for updates logs the old key where the key
changes, so that the latest entry under the new key need not be what the table holds. What is shown
here is the premise under which the log of a table can be read backwards from its end, without
replaying it.

## Main results

* `logs_are_current`: after every run, a table holds a row if and only if the latest entry of its
  key carries it and is no deletion.
-/

namespace TemporalFs

variable {X : Externals}

theorem Db.metadata_find_iff_lastEntry (db : Db X) (i : ℕ) (m : MetadataRow) :
    db.metadata.find i = some m ↔ ∃ e, LastEntry MetadataRow.id db.metadata.audit i e ∧
      e.tgOp ≠ .DELETE ∧ e.payload = m :=
  AuditedTable.find_eq_some_iff_lastEntry rfl (fun _ => rfl) (fun _ _ => rfl) db.metadata i m

theorem Db.xattr_find_iff_lastEntry (db : Db X) (k : ℕ × Name) (r : XattrRow) :
    db.xattr.find k = some r ↔
      ∃ e, LastEntry (fun r : XattrRow => (r.fileId, r.name)) db.xattr.audit k e ∧
        e.tgOp ≠ .DELETE ∧ e.payload = r :=
  AuditedTable.find_eq_some_iff_lastEntry rfl (fun _ => rfl) (fun _ _ => rfl) db.xattr k r

/-- **The logs of `metadata` and `xattr` are complete and current** after every run of methods: a
row is in the table if and only if the last entry of its key is no deletion and carries just this
row. -/
theorem logs_are_current (clock : ℕ → ℕ) (self : Sqlite) (now : Now) (ms : List (Sqlite × Method)) :
    let db := runMethods (Db.initialised X clock self now) ms
    (∀ i m, db.metadata.find i = some m ↔
      ∃ e, LastEntry MetadataRow.id db.metadata.audit i e ∧ e.tgOp ≠ .DELETE ∧ e.payload = m) ∧
    ∀ k r, db.xattr.find k = some r ↔
      ∃ e, LastEntry (fun r : XattrRow => (r.fileId, r.name)) db.xattr.audit k e ∧
        e.tgOp ≠ .DELETE ∧ e.payload = r :=
  ⟨Db.metadata_find_iff_lastEntry _, Db.xattr_find_iff_lastEntry _⟩

end TemporalFs
