import Mathlib
import TemporalFs.Lib.LatestEntry
import TemporalFs.History.Directories

/-!
# What the temporary tables pick from the logs

`newAtTime` fills `tmetadata`, `tdentry` and `txattr` from the audit logs alone: for each key it
takes the entries with the greatest stamp before the time. One request writes several entries of a
key within a millisecond, and then the greatest stamp does not tell which came last. The tables are
right exactly where all but the last of the entries with the greatest stamp are deletions.

## Main definitions

* `AuditLogs`, `AuditLogs.tables`: the queries of `newAtTime` on any logs.

## Main results

* `tables_pick_latest_iff`: the tables pick the latest entries if and only if these are untied.
-/

namespace TemporalFs

variable {X : Externals}

/-- The four audit tables. -/
structure AuditLogs where
  metadataAudit : List (AuditRow MetadataRow)
  dentryAudit : List (AuditRow DentryRow)
  dataAudit : List (AuditRow DataRow)
  xattrAudit : List (AuditRow XattrRow)

/-- The audit tables of a database. -/
def Db.auditLogs (db : Db X) : AuditLogs :=
  ⟨db.metadata.audit, db.dentry.audit, db.data.audit, db.xattr.audit⟩

namespace AuditLogs

/-- The temporary tables that the queries of `newAtTime` make of the logs. -/
def tables (X : Externals) (l : AuditLogs) (time : ℕ) : TempTables where
  tdentry := view entryKey l.dentryAudit time
  tdata := view (dataSpec X).key l.dataAudit time
  txattr := view xattrSpec.key l.xattrAudit time
  tmetadata := view metadataSpec.key l.metadataAudit time

/-- The numbers of the entries increase and their stamps do not decrease. -/
structure InOrder (l : AuditLogs) : Prop where
  metadata_numbered : Numbered l.metadataAudit
  metadata_stamped : Stamped l.metadataAudit
  dentry_numbered : Numbered l.dentryAudit
  dentry_stamped : Stamped l.dentryAudit
  xattr_numbered : Numbered l.xattrAudit
  xattr_stamped : Stamped l.xattrAudit

/-- The temporary tables hold the rows of the latest entries of the logs. -/
structure PickedBy (l : AuditLogs) (time : ℕ) (t : TempTables) : Prop where
  tmetadata : PicksLatest metadataSpec.key l.metadataAudit time t.tmetadata
  tdentry : PicksLatest entryKey l.dentryAudit time t.tdentry
  txattr : PicksLatest xattrSpec.key l.xattrAudit time t.txattr

end AuditLogs

/-- The temporary tables of a database are those of its logs, so that what is said of any logs holds
of them. -/
theorem tempTables_eq_tables (db : Db X) (time : ℕ) :
    Sqlite.tempTables db time = db.auditLogs.tables X time := rfl

/-- **The temporary tables pick the latest entries if and only if all other entries that share their
stamps are deletions.** The logs are any in the order of their numbers and stamps, and the time is
any. -/
theorem tables_pick_latest_iff (l : AuditLogs) (hl : l.InOrder) (time : ℕ) :
    l.PickedBy time (l.tables X time) ↔ Untied metadataSpec.key l.metadataAudit time ∧
      Untied entryKey l.dentryAudit time ∧ Untied xattrSpec.key l.xattrAudit time := by
  have hm := picksLatest_iff_untied metadataSpec.key hl.metadata_numbered
    hl.metadata_stamped time
  have hd := picksLatest_iff_untied entryKey hl.dentry_numbered hl.dentry_stamped time
  have hx := picksLatest_iff_untied xattrSpec.key hl.xattr_numbered hl.xattr_stamped time
  constructor
  · rintro ⟨h₁, h₂, h₃⟩
    exact ⟨hm.1 h₁, hd.1 h₂, hx.1 h₃⟩
  · rintro ⟨h₁, h₂, h₃⟩
    exact ⟨hm.2 h₁, hd.2 h₂, hx.2 h₃⟩

/-- The logs after an extended attribute was set and removed within a millisecond. -/
def sampleLogs : AuditLogs where
  metadataAudit := []
  dentryAudit := []
  dataAudit := []
  xattrAudit := [⟨1, 5, .INSERT, ⟨1, [97], [98]⟩⟩, ⟨2, 5, .DELETE, ⟨1, [97], [98]⟩⟩]

theorem sampleLogs_inOrder : sampleLogs.InOrder := by
  refine ⟨?_, ?_, ?_, ?_, ?_, ?_⟩ <;> simp [sampleLogs, Numbered, Stamped]

/-- In these logs an attribute is set and removed with one stamp. -/
theorem tables_pick_latest_iff_sample :
    sampleLogs.PickedBy 6 (sampleLogs.tables .sample 6) ↔
      Untied metadataSpec.key sampleLogs.metadataAudit 6 ∧
        Untied entryKey sampleLogs.dentryAudit 6 ∧ Untied xattrSpec.key sampleLogs.xattrAudit 6 :=
  tables_pick_latest_iff sampleLogs sampleLogs_inOrder 6

/-- The removed attribute is in `txattr`. -/
theorem removed_xattr_is_picked : ¬ ∀ (l : AuditLogs), l.InOrder → ∀ time,
    l.PickedBy time (l.tables .sample time) := by
  intro h
  have hx := (h sampleLogs sampleLogs_inOrder 6).txattr
  have hlast : LastEntry xattrSpec.key (entriesBefore sampleLogs.xattrAudit 6) (1, [97])
      ⟨2, 5, .DELETE, ⟨1, [97], [98]⟩⟩ :=
    ⟨by decide, by decide, by decide⟩
  have hrows := (hx (1, [97])).1 _ hlast
  revert hrows
  decide

end TemporalFs
