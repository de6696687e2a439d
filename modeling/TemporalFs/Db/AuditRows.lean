import Mathlib
import TemporalFs.Db.Panics
import TemporalFs.Db.Contents
import TemporalFs.Db.Init

/-!
# How many audit rows a method writes

The triggers write one audit row for each row that a statement inserts, updates or deletes. How
many rows a method changes is fixed by its arguments and by the rows it finds: it is counted here
without running the method, by the checks that the method makes and the statements that follow
them. A method that fails has rolled back and counts nothing.

## Main definitions

* `Db.metadataRows`, `Db.releaseRows`, `Db.inodeRows`: the rows that one statement concerns.
* `Method.auditRows`: the audit rows of each method.

## Main results

* `Method.tick_run`: a method writes as many audit rows as counted.
-/

namespace TemporalFs

open Proc

variable {X : Externals}

/-! ### The rows that a statement concerns -/

/-- The rows of `metadata` with the number `i`, one or none. -/
def Db.metadataRows (db : Db X) (i : ℕ) : ℕ := if (db.metadata.find i).isSome then 1 else 0

/-- The rows that `releaseData` writes or deletes: the blocks behind the offset, and the block
that the offset cuts. -/
def Db.releaseRows (db : Db X) (i : ℕ) (offset : UInt32) : ℕ :=
  if offset = 0 then db.data.rows.countP fun r => r.fileId = i
  else if offset.toNat % blockSize = 0 then
    db.data.rows.countP fun r => r.fileId = i ∧ r.blockNum > offset.toNat / blockSize
  else
    db.data.rows.countP (fun r => r.fileId = i ∧ r.blockNum > offset.toNat / blockSize + 1) + 1

/-- The rows of the inodes in `s`: their own, and the entries, blocks and attributes that go with
them. -/
def Db.inodeRows (db : Db X) (s : ℕ → Bool) : ℕ :=
  db.metadata.rows.countP (fun m => s m.id) +
    db.dentry.rows.countP (fun e => s e.parentId || s e.childId) +
      db.data.rows.countP (fun r => s r.fileId) + db.xattr.rows.countP fun r => s r.fileId

namespace Db

variable (db : Db X)

@[simp] theorem tick_insertMetadata (m : MetadataRow) :
    (db.insertMetadata m).tick = db.tick + 1 := by
  simp only [tick, insertMetadata, AuditedTable.history_put, List.length_append,
    List.length_singleton]
  omega

@[simp] theorem tick_updateMetadata (i : ℕ) (f : MetadataRow → MetadataRow) :
    (db.updateMetadata i f).tick = db.tick + db.metadataRows i := by
  simp only [tick, updateMetadata, metadataRows]
  cases h : db.metadata.find i with
  | none =>
    rw [AuditedTable.update_of_find_none h]
    simp
  | some m =>
    rw [AuditedTable.length_history_update h, Option.isSome_some, if_pos rfl]
    omega

@[simp] theorem metadataRows_updateMetadata (i : ℕ) (f : MetadataRow → MetadataRow) (j : ℕ) :
    (db.updateMetadata i f).metadataRows j = db.metadataRows j := by
  simp only [metadataRows, metadata_find_updateMetadata]
  by_cases hj : j = i
  · simp [hj]
  · simp [hj]

variable {db}

theorem metadataRows_of_isSome {i : ℕ} (h : (db.metadata.find i).isSome) :
    db.metadataRows i = 1 := if_pos h

theorem metadataRows_congr {db' : Db X} (h : db'.metadata = db.metadata) (i : ℕ) :
    db'.metadataRows i = db.metadataRows i := by
  rw [metadataRows, h, metadataRows]

theorem tick_insertDentry {db' : Db X} {e : DentryRow} (h : db.insertDentry e = some db') :
    db'.tick = db.tick + 1 := by
  obtain ⟨-, -, -, hm, hd, hb, hx, -⟩ := insertDentry_eq_some h
  simp only [tick, hm, hd, hb, hx, AuditedTable.history_put, List.length_append,
    List.length_singleton]
  omega

theorem tick_updateDentry {db' : Db X} {p : ℕ} {n : Name} {f : DentryRow → DentryRow}
    (h : db.updateDentry p n f = some db') :
    db'.tick = db.tick + if (db.dentry.find (p, n)).isSome then 1 else 0 := by
  cases he : db.dentry.find (p, n) with
  | none =>
    rw [updateDentry_of_find_none he] at h
    simp [Option.some.inj h]
  | some e =>
    obtain ⟨-, -, hm, hd, hb, hx, -⟩ := updateDentry_eq_some he h
    have hlen := AuditedTable.length_history_rekey he hd
    simp only [tick, hm, hb, hx, hlen, Option.isSome_some, ↓reduceIte]
    omega

theorem metadata_updateDentry {db' : Db X} {p : ℕ} {n : Name} {f : DentryRow → DentryRow}
    (h : db.updateDentry p n f = some db') : db'.metadata = db.metadata := by
  cases he : db.dentry.find (p, n) with
  | none =>
    rw [updateDentry_of_find_none he] at h
    rw [Option.some.inj h]
  | some e => exact (updateDentry_eq_some he h).2.2.1

theorem tick_replaceData {db' : Db X} {r : DataRow} (h : db.replaceData r = some db') :
    db'.tick = db.tick + 1 := by
  obtain ⟨-, hm, hd, hb, hx, -⟩ := replaceData_eq_some h
  simp only [tick, hm, hd, hb, hx, AuditedTable.history_put, List.length_append,
    List.length_singleton]
  omega

theorem tick_upsertData {db' : Db X} {r : DataRow} (h : db.upsertData r = some db') :
    db'.tick = db.tick + 1 := by
  unfold upsertData at h
  split at h
  · rename_i r' hr'
    obtain rfl := Option.some.inj h
    simp only [tick, updateData, AuditedTable.length_history_update hr']
    omega
  · exact tick_replaceData h

theorem tick_replaceXattr {db' : Db X} {r : XattrRow} (h : db.replaceXattr r = some db') :
    db'.tick = db.tick + 1 := by
  obtain ⟨-, hm, hd, hb, hx, -⟩ := replaceXattr_eq_some h
  simp only [tick, hm, hd, hb, hx, AuditedTable.history_put, List.length_append,
    List.length_singleton]
  omega

/-! ### Deletions -/

variable (db)

/-- The audit rows written so far and the rows that are there. -/
def balance : ℕ :=
  db.tick + db.metadata.rows.length + db.dentry.rows.length + db.data.rows.length +
    db.xattr.rows.length

theorem balance_deleteDentryRow (p : ℕ) (n : Name) :
    (db.deleteDentryRow p n).balance = db.balance := by
  have := db.dentry.length_erase db.now (p, n)
  simp only [balance, tick, deleteDentryRow]
  omega

theorem balance_deleteDataRow (i k : ℕ) : (db.deleteDataRow i k).balance = db.balance := by
  have := db.data.length_erase db.now (i, k)
  simp only [balance, tick, deleteDataRow]
  omega

theorem balance_deleteXattrRow (i : ℕ) (n : Name) :
    (db.deleteXattrRow i n).balance = db.balance := by
  have := db.xattr.length_erase db.now (i, n)
  simp only [balance, tick, deleteXattrRow]
  omega

theorem balance_deleteDentryWhere (p : DentryRow → Bool) :
    (db.deleteDentryWhere p).balance = db.balance :=
  foldl_eq_of_forall balance (fun d (e : DentryRow) => d.deleteDentryRow e.parentId e.name)
    (fun d e => d.balance_deleteDentryRow e.parentId e.name) _ db

theorem balance_deleteDataWhere (p : DataRow → Bool) :
    (db.deleteDataWhere p).balance = db.balance :=
  foldl_eq_of_forall balance (fun d (r : DataRow) => d.deleteDataRow r.fileId r.blockNum)
    (fun d r => d.balance_deleteDataRow r.fileId r.blockNum) _ db

theorem balance_deleteXattrWhere (p : XattrRow → Bool) :
    (db.deleteXattrWhere p).balance = db.balance :=
  foldl_eq_of_forall balance (fun d (r : XattrRow) => d.deleteXattrRow r.fileId r.name)
    (fun d r => d.balance_deleteXattrRow r.fileId r.name) _ db

/-- A deletion with its cascades logs every row that it takes away. -/
theorem balance_deleteMetadata (i : ℕ) : (db.deleteMetadata i).balance = db.balance := by
  unfold deleteMetadata
  split
  · rfl
  · have hcascade : (db.cascade i).balance = db.balance := by
      simp only [cascade, balance_deleteDentryWhere, balance_deleteDataWhere,
        balance_deleteXattrWhere]
    have := (db.cascade i).metadata.length_erase (db.cascade i).now i
    rw [← hcascade]
    simp only [balance, tick, eraseMetadata]
    omega

theorem balance_deleteAll (l : List ℕ) : (db.deleteAll l).balance = db.balance :=
  foldl_eq_of_forall balance deleteMetadata (fun d i => d.balance_deleteMetadata i) l db

theorem tick_deleteDentryRow (p : ℕ) (n : Name) :
    (db.deleteDentryRow p n).tick =
      db.tick + if (db.dentry.find (p, n)).isSome then 1 else 0 := by
  cases he : db.dentry.find (p, n) with
  | none => simp [tick, deleteDentryRow, AuditedTable.erase_of_find_none he]
  | some e =>
    simp only [tick, deleteDentryRow, AuditedTable.length_history_erase he, Option.isSome_some,
      ↓reduceIte]
    omega

theorem tick_deleteXattrRow (i : ℕ) (n : Name) :
    (db.deleteXattrRow i n).tick = db.tick + if (db.xattr.find (i, n)).isSome then 1 else 0 := by
  cases he : db.xattr.find (i, n) with
  | none => simp [tick, deleteXattrRow, AuditedTable.erase_of_find_none he]
  | some e =>
    simp only [tick, deleteXattrRow, AuditedTable.length_history_erase he, Option.isSome_some,
      ↓reduceIte]
    omega

/-- Where only entries were deleted, one row was logged for each. -/
theorem tick_of_dentry {db db' : Db X} (p : DentryRow → Bool) (hbalance : db'.balance = db.balance)
    (hm : db'.metadata = db.metadata) (hb : db'.data = db.data) (hx : db'.xattr = db.xattr)
    (hd : ∀ k e, db'.dentry.find k = some e ↔ db.dentry.find k = some e ∧ p e = false) :
    db'.tick = db.tick + db.dentry.rows.countP p := by
  have hlen := AuditedTable.length_rows_of_find db.dentry db'.dentry p hd
  simp only [balance, hm, hb, hx] at hbalance
  omega

theorem tick_deleteDataWhere (p : DataRow → Bool) :
    (db.deleteDataWhere p).tick = db.tick + db.data.rows.countP p := by
  have hbalance := db.balance_deleteDataWhere p
  have hlen := AuditedTable.length_rows_of_find db.data (db.deleteDataWhere p).data p fun k r => by
      rw [data_find_deleteDataWhere, Option.filter_eq_some_iff, Bool.not_eq_true']
  simp only [balance, metadata_deleteDataWhere, dentry_deleteDataWhere,
    xattr_deleteDataWhere] at hbalance
  omega

/-- The deletion of a list of inodes logs their rows. -/
theorem tick_deleteAll (l : List ℕ) :
    (db.deleteAll l).tick = db.tick + db.inodeRows fun i => i ∈ l := by
  have hbalance := db.balance_deleteAll l
  have hm : (db.deleteAll l).metadata.rows.length + db.metadata.rows.countP (fun m => m.id ∈ l) =
      db.metadata.rows.length :=
    AuditedTable.length_rows_of_find_key _ _ (fun i => decide (i ∈ l)) fun i => by
      simpa using db.metadata_find_deleteAll l i
  have hd := AuditedTable.length_rows_of_find db.dentry (db.deleteAll l).dentry
    (fun e => decide (e.parentId ∈ l) || decide (e.childId ∈ l))
    fun k e => by
      rw [dentry_find_deleteAll, Bool.or_eq_false_iff, decide_eq_false_iff_not,
        decide_eq_false_iff_not]
  have hb : (db.deleteAll l).data.rows.length + db.data.rows.countP (fun r => r.fileId ∈ l) =
      db.data.rows.length :=
    AuditedTable.length_rows_of_find_key _ _ (fun k : ℕ × ℕ => decide (k.1 ∈ l)) fun k => by
      simpa using db.data_find_deleteAll l k
  have hx : (db.deleteAll l).xattr.rows.length + db.xattr.rows.countP (fun r => r.fileId ∈ l) =
      db.xattr.rows.length :=
    AuditedTable.length_rows_of_find_key _ _ (fun k : ℕ × Name => decide (k.1 ∈ l)) fun k => by
      simpa using db.xattr_find_deleteAll l k
  simp only [balance, inodeRows] at hbalance ⊢
  omega

theorem tick_collect (i : ℕ) :
    (db.collect i).tick = db.tick + if nlink db.dentry.rows i = none then
      db.inodeRows (fun j => j = i) else 0 := by
  unfold collect
  split_ifs
  · have h := db.tick_deleteAll [i]
    simpa only [deleteAll, List.foldl_cons, List.foldl_nil, List.mem_singleton] using h
  · rfl

end Db

/-! ### The audit rows of a method -/

instance (attr : DBFileAttr) : Decidable attr.Dated :=
  decidable_of_iff (inChronoRange attr.atime.sec ∧ inChronoRange attr.mtime.sec ∧
    inChronoRange attr.ctime.sec ∧ inChronoRange attr.crtime.sec)
    ⟨fun h => ⟨h.1, h.2.1, h.2.2.1, h.2.2.2⟩, fun h => ⟨h.atime, h.mtime, h.ctime, h.crtime⟩⟩

instance (db : Db X) (p : ℕ) (n : Name) : Decidable (db.CanAdd p n) :=
  inferInstanceAs (Decidable (_ ∧ _ ∧ _))

/-- The rows that `init` adds. -/
def Db.initRows (db : Db X) : ℕ :=
  if (db.metadata.find 1).isSome then
    (if db.dentry.find (1, dot) = none then 1 else 0) +
      if db.dentry.find (1, dotdot) = none then 1 else 0
  -- the root is the first inode of a database, or cannot be made again
  else if db.sqliteSequence = 0 then 3 else 1

namespace Sqlite

variable (self : Sqlite) (db : Db X)

/-- The rows that `addInodeAndDentry` changes: the inode with its name and, for a directory, its
two own entries, and the two times of the parent. -/
def addedRows (p : ℕ) (n : Name) (attr : DBFileAttr) : ℕ :=
  if attr.Dated ∧ db.CanAdd p n ∧
      ¬ (attr.kind = .Directory ∧ p = db.sqliteSequence + 1 ∧ (n = dot ∨ n = dotdot)) then
    (if attr.kind = .Directory then 4 else 2) + if self.timeRecording then 2 else 0
  else 0

/-- The rows that `updateInode` changes: the inode, and the blocks that a truncation concerns. -/
def updatedRows (attr : DBFileAttr) (truncate : Bool) : ℕ :=
  match inodeAttr attr.ino db with
  | .ok (some old) =>
    if inChronoRange attr.atime.sec ∧ (old.size = attr.size → inChronoRange attr.mtime.sec) ∧
        inChronoRange attr.crtime.sec then
      1 + if truncate then db.releaseRows attr.ino attr.size else 0
    else 0
  | _ => 0

/-- The rows that `linkDentry` changes: the new entry, and three times. -/
def linkedRows (i p : ℕ) (n : Name) : ℕ :=
  match inodeAttr i db with
  | .ok (some attr) =>
    if attr.kind = .RegularFile ∧ db.dentry.find (p, n) = none ∧ (db.metadata.find p).isSome then
      1 + if self.timeRecording then 3 else 0
    else 0
  | _ => 0

/-- The rows that `deleteDentry` changes: the entry, those in its inode, and three times. -/
def unlinkedRows (p : ℕ) (n : Name) : ℕ :=
  match db.dentry.find (p, n) with
  | some e => db.dentry.rows.countP (fun x => x.parentId = e.childId ∨
      ((x.parentId, x.name) = (p, n) ∧ ¬ (n = dotdot ∨ n = dot))) +
        if self.timeRecording then 3 else 0
  | none => 0

/-- The rows that `moveDentry` changes: the entry, the one it replaces and `".."` of a directory
that gets another parent, and the times of the inode and of its parents. -/
def movedRows (p : ℕ) (n : Name) (p' : ℕ) (n' : Name) : ℕ :=
  match db.dentry.find (p, n) with
  | some e =>
    if (p, n) = (p', n') then
      if e.fileType = .Directory → directoryIsEmpty db.dentry.rows e.childId = true then
        1 + if self.timeRecording then 3 else 0
      else 0
    else if (db.metadata.find p').isSome ∧ ∀ v ∈ db.dentry.find (p', n'),
        ¬ (n' = dotdot ∨ n' = dot) ∧ e.fileType = v.fileType ∧ (v.fileType = .Directory →
          directoryIsEmpty db.dentry.rows v.childId = true) then
      (if (db.dentry.find (p', n')).isSome then 1 else 0) + 1 +
        (if p ≠ p' ∧ e.fileType = .Directory ∧
          (db.movedEntry p n p' n' e (e.childId, dotdot)).isSome then 1 else 0) +
        if self.timeRecording then (if p ≠ p' then 5 else 3) else 0
    else 0
  | none => 0

/-- The rows that `writeData` changes: the block, the size where the file grows, and two times. -/
def writtenRows (i : ℕ) (size : UInt32) : ℕ :=
  match db.metadata.find i with
  | some row =>
    if self.extensions then
      1 + (if size > row.size then 1 else 0) + if self.timeRecording then 2 else 0
    else 0
  | none => 0

end Sqlite

/-- The audit rows that a call of the method writes, by its arguments and the rows it finds. -/
def Method.auditRows (self : Sqlite) (db : Db X) : Method → ℕ
  | .init _ => db.initRows
  | .addInodeAndDentry _ p n attr => self.addedRows db p n attr
  | .updateInode _ attr truncate => Sqlite.updatedRows db attr truncate
  | .deleteInodeIfNoref i =>
    if nlink db.dentry.rows i = none then db.inodeRows fun j => j = i else 0
  | .linkDentry _ i p n => self.linkedRows db i p n
  | .deleteDentry _ p n => self.unlinkedRows db p n
  | .moveDentry _ p n p' n' => self.movedRows db p n p' n'
  | .lookup _ p _ => if self.timeRecording then db.metadataRows p else 0
  | .getData _ i _ _ =>
    if ¬ self.readOnly ∧ self.timeRecording then db.metadataRows i else 0
  | .getDataAtTime _ i _ _ =>
    if self.temp.isSome ∧ self.timeRecording then db.metadataRows i else 0
  | .writeData _ i _ _ size => self.writtenRows db i size
  | .releaseData i => db.data.rows.countP fun r => r.fileId = i
  | .deleteAllNorefInode => db.inodeRows fun i => i ∈ db.unnamed
  | .setXattr _ i _ _ =>
    if (db.metadata.find i).isSome then 1 + if self.timeRecording then 1 else 0 else 0
  | .deleteXattr _ i key =>
    (if (db.xattr.find (i, key)).isSome then 1 else 0) +
      if self.timeRecording then db.metadataRows i else 0
  | .getInode _ | .getInodeAtTime _ | .getDentry _ | .getDentryAtTime _
  | .checkDirectoryIsEmpty _ | .lookupAtTime _ _ | .getXattr _ _ | .getXattrAtTime _ _
  | .listXattr _ | .listXattrAtTime _ => 0

/-! ### Each method writes its audit rows -/

/-- What a program writes that returns exactly where `c` holds, and else changes nothing. -/
theorem tick_of_returns {α : Type} {x : Conn X α} {db : Db X} {c : Prop} [Decidable c] {n : ℕ}
    (h : x.Ensures db (fun _ db' => c ∧ db'.tick = db.tick + n) fun _ db' => ¬ c ∧ db' = db) :
    (x db).1.tick = db.tick + if c then n else 0 := by
  refine Ensures.fst (I := fun db' : Db X => db'.tick = db.tick + if c then n else 0)
    (h.mono (fun _ db' h => ?_) fun _ db' h => ?_)
  · rw [if_pos h.1, h.2]
  · rw [if_neg h.1, h.2, Nat.add_zero]

/-- No entry is in a directory whose inode is missing. -/
theorem Db.dentry_find_of_metadata_find_none {db : Db X} {i : ℕ} (h : db.metadata.find i = none)
    (n : Name) : db.dentry.find (i, n) = none := by
  cases he : db.dentry.find (i, n) with
  | none => rfl
  | some e =>
    have hkey := AuditedTable.key_of_find he
    simp only [dentrySpec_key, Prod.mk.injEq] at hkey
    have := (db.dentry_fk _ e he).1
    rw [hkey.1, h] at this
    simp at this

/-- The next inode number is not in use. -/
theorem Db.metadata_find_next (db : Db X) : db.metadata.find (db.sqliteSequence + 1) = none := by
  cases h : db.metadata.find (db.sqliteSequence + 1) with
  | none => rfl
  | some m =>
    have := db.sequence_bound _ (by rw [h]; rfl : (db.metadata.find (db.sqliteSequence + 1)).isSome)
    omega

/-- `addDentry` writes one row where the name is free and the inodes are there. -/
theorem ensures_addDentry {db : Db X} {entry : DEntry} {Q : Unit → Db X → Prop}
    {E : Stop → Db X → Prop} : (addDentry entry).Ensures db Q E ↔
      (∀ db', (db.dentry.find (entry.parentIno, entry.filename) = none ∧
        (db.metadata.find entry.parentIno).isSome ∧ (db.metadata.find entry.childIno).isSome) →
          db.insertDentry ⟨entry.parentIno, entry.childIno, entry.fileType, entry.filename⟩ =
            some db' → Q () db') ∧
      (¬ (db.dentry.find (entry.parentIno, entry.filename) = none ∧
        (db.metadata.find entry.parentIno).isSome ∧ (db.metadata.find entry.childIno).isSome) →
          E (.err .SqliteError) db) := by
  unfold addDentry execute
  rw [ensures_step]
  constructor
  · rintro ⟨hsome, hnone⟩
    refine ⟨fun db' _ h => hsome db' h, fun h => hnone ?_⟩
    unfold Db.insertDentry
    exact dif_neg h
  · rintro ⟨hsome, hnone⟩
    refine ⟨fun db' h => hsome db' ?_ h, fun h => hnone (Db.insertDentry_eq_none h)⟩
    obtain ⟨hfree, hp, hc, -⟩ := Db.insertDentry_eq_some h
    exact ⟨hfree, hp, hc⟩

namespace Sqlite

variable (self : Sqlite) (db : Db X)

theorem tick_addInodeAndDentry (now : Now) (p : ℕ) (n : Name) (attr : DBFileAttr) :
    (self.addInodeAndDentry now p n attr db).1.tick =
      db.tick + self.addedRows db p n attr := by
  refine tick_of_returns ?_
  unfold addInodeAndDentry addInodeLocal utcFrom executeAll
  simp only [ensures_atomically, ensures_bind, ensures_require, ensures_pure, ensures_modify,
    ensures_get, Db.sqliteSequence_insertMetadata]
  refine ⟨fun ha => ⟨fun hm => ⟨fun hc => ⟨fun hcr => ⟨fun hlt => ?_, fun hlt => ?_⟩,
    fun hcr => ?_⟩, fun hc => ?_⟩, fun hm => ?_⟩, fun ha => ?_⟩
  · generalize hdb₁ : db.insertMetadata _ = db₁
    have hm₁ : ∀ i, (db₁.metadata.find i).isSome ↔
        (db.metadata.find i).isSome ∨ i = db.sqliteSequence + 1 := by
      intro i
      rw [← hdb₁, Db.metadata_find_insertMetadata]
      by_cases hi : i = db.sqliteSequence + 1 <;> simp [hi]
    have hd₁ : db₁.dentry = db.dentry := by rw [← hdb₁]; rfl
    have ht₁ : db₁.tick = db.tick + 1 := by rw [← hdb₁, Db.tick_insertMetadata]
    have hnew : ∀ n, db.dentry.find (db.sqliteSequence + 1, n) = none :=
      Db.dentry_find_of_metadata_find_none db.metadata_find_next
    rw [ensures_addDentry, hd₁, hm₁]
    refine ⟨fun db₂ hok h₂ => ?_, fun hno => ⟨fun h => hno ?_, trivial⟩⟩
    rotate_left
    · exact ⟨h.2.1.2.1, h.2.1.2.2, (hm₁ _).2 (Or.inr rfl)⟩
    obtain ⟨-, -, -, hm₂, hd₂, -⟩ := Db.insertDentry_eq_some h₂
    have ht₂ := Db.tick_insertDentry h₂
    have hfind₂ : ∀ m, db₂.dentry.find (db.sqliteSequence + 1, m) = none ↔
        ¬ (p = db.sqliteSequence + 1 ∧ n = m) := by
      intro m
      rw [hd₂, AuditedTable.find_put, hd₁, hnew]
      simp
    have hadd : attr.Dated ∧ db.CanAdd p n := ⟨⟨ha, hm, hc, hcr⟩, hlt, hok.1, hok.2.1⟩
    have htimes : ∀ db₃ : Db X, db₃.metadata = db₁.metadata →
        ∀ k, db₃.tick = db.tick + k → (Proc.when self.timeRecording do
          updateMtime p now
          updateCtime p now : Conn X Unit).Ensures db₃ (fun _ db' => db'.tick =
            db.tick + (k + if self.timeRecording then 2 else 0)) fun _ _ => False := by
      intro db₃ hm₃ k hk
      -- the parent is there, so each of its times is one row
      have hrow : db₃.metadataRows p = 1 :=
        Db.metadataRows_of_isSome (by rw [hm₃]; exact (hm₁ p).2 hok.2.1)
      simp only [updateMtime, updateCtime, executeAll, ensures_when, ensures_bind, ensures_modify,
        Db.tick_updateMetadata, Db.metadataRows_updateMetadata, hrow, hk]
      exact ⟨fun hrec => by rw [if_pos hrec]; omega, fun hrec => by rw [if_neg hrec]; omega⟩
    rw [ensures_when]
    constructor
    · intro hdir
      rw [ensures_bind, ensures_addDentry]
      have hp₂ : (db₂.metadata.find p).isSome := by rw [hm₂]; exact (hm₁ p).2 hok.2.1
      have hc₂ : (db₂.metadata.find (db.sqliteSequence + 1)).isSome := by rw [hm₂]; exact hok.2.2
      refine ⟨fun db₃ hok₃ h₃ => ?_, fun hno => ⟨fun h => hno ⟨?_, hc₂, hp₂⟩, trivial⟩⟩
      rotate_left
      · exact (hfind₂ dotdot).2 fun hown => h.2.2 ⟨hdir, hown.1, Or.inr hown.2⟩
      obtain ⟨-, -, -, hm₃, hd₃, -⟩ := Db.insertDentry_eq_some h₃
      have ht₃ := Db.tick_insertDentry h₃
      have hfind₃ : db₃.dentry.find (db.sqliteSequence + 1, dot) =
          db₂.dentry.find (db.sqliteSequence + 1, dot) := by
        rw [hd₃, AuditedTable.find_put]
        exact if_neg (by simp [dot, dotdot])
      rw [ensures_addDentry, hfind₃, hm₃]
      refine ⟨fun db₄ hok₄ h₄ => ?_, fun hno => ⟨fun h => hno ⟨?_, hc₂, hc₂⟩, trivial⟩⟩
      rotate_left
      · exact (hfind₂ dot).2 fun hown => h.2.2 ⟨hdir, hown.1, Or.inl hown.2⟩
      obtain ⟨-, -, -, hm₄, -⟩ := Db.insertDentry_eq_some h₄
      have ht₄ := Db.tick_insertDentry h₄
      refine (htimes db₄ (hm₄.trans (hm₃.trans hm₂)) 4 (by omega)).mono (fun _ db' h => ?_)
        fun _ _ h => h.elim
      refine ⟨⟨hadd.1, hadd.2, fun hown => ?_⟩, by rw [if_pos hdir, h]⟩
      rcases hown.2.2 with hn | hn
      · exact (hfind₂ dot).1 hok₄.1 ⟨hown.2.1, hn⟩
      · exact (hfind₂ dotdot).1 hok₃.1 ⟨hown.2.1, hn⟩
    · intro hdir
      refine (htimes db₂ hm₂ 2 (by omega)).mono (fun _ db' h => ?_) fun _ _ h => h.elim
      exact ⟨⟨hadd.1, hadd.2, fun hown => hdir hown.1⟩, by rw [if_neg hdir, h]⟩
  · exact ⟨fun h => hlt h.2.1.1, trivial⟩
  · exact ⟨fun h => hcr h.1.crtime, trivial⟩
  · exact ⟨fun h => hc h.1.ctime, trivial⟩
  · exact ⟨fun h => hm h.1.mtime, trivial⟩
  · exact ⟨fun h => ha h.1.atime, trivial⟩

theorem tick_linkDentry (now : Now) (i p : ℕ) (n : Name) :
    (self.linkDentry now i p n db).1.tick = db.tick + self.linkedRows db i p n := by
  have hspec : (self.linkDentry now i p n).Ensures db
      (fun attr db' => (inodeAttr i db = .ok (some attr) ∧ attr.kind = .RegularFile ∧
        db.dentry.find (p, n) = none ∧ (db.metadata.find p).isSome) ∧
          db'.tick = db.tick + (1 + if self.timeRecording then 3 else 0))
      (fun _ db' => (¬ ∃ attr, inodeAttr i db = .ok (some attr) ∧ attr.kind = .RegularFile ∧
        db.dentry.find (p, n) = none ∧ (db.metadata.find p).isSome) ∧ db' = db) := by
    unfold linkDentry
    simp only [ensures_atomically, ensures_bind, ensures_ofOption, ensures_require, ensures_pure,
      and_true]
    refine (getInodeLocal_spec db i).mono (fun found db₁ h₁ => ?_) fun e db₁ h₁ => ?_
    rotate_left
    · rintro ⟨attr, hattr, -⟩
      rw [h₁.2] at hattr
      cases hattr
    obtain ⟨rfl, hfound⟩ := h₁
    refine ⟨fun attr hattr => ?_, fun hnone => ?_⟩
    rotate_left
    · rintro ⟨attr, hattr, -⟩
      rw [hfound, hnone] at hattr
      cases hattr
    subst hattr
    obtain ⟨m, hm, -⟩ := inodeAttr_eq_ok_some hfound
    have huniq : ∀ a, inodeAttr i db₁ = .ok (some a) → a = attr := fun a ha =>
      Option.some.inj (Except.ok.inj (ha.symm.trans hfound))
    refine ⟨fun hkind => ?_, fun hkind => ?_⟩
    rotate_left
    · rintro ⟨a, ha, hk, -⟩
      exact hkind (huniq a ha ▸ hk)
    refine (getDentrySingle_spec db₁ p n).mono (fun new_inode db₂ h₂ => ?_) fun _ _ h => h.elim
    obtain ⟨rfl, rfl⟩ := h₂
    refine ⟨fun hfree => ?_, fun hfree => ?_⟩
    rotate_left
    · rintro ⟨a, -, -, hf, -⟩
      exact hfree (by rw [hf]; rfl)
    rw [Option.map_eq_none_iff] at hfree
    rw [ensures_addDentry]
    refine ⟨fun db₃ hok h₃ => ?_, fun hno => ?_⟩
    · obtain ⟨-, -, -, hm₃, -⟩ := Db.insertDentry_eq_some h₃
      have ht₃ := Db.tick_insertDentry h₃
      have hp₃ : db₃.metadataRows p = 1 := Db.metadataRows_of_isSome (by rw [hm₃]; exact hok.2.1)
      have hi₃ : db₃.metadataRows i = 1 := Db.metadataRows_of_isSome (by rw [hm₃, hm]; rfl)
      simp only [updateMtime, updateCtime, executeAll, ensures_when, ensures_bind, ensures_modify,
        Db.tick_updateMetadata, Db.metadataRows_updateMetadata, hp₃, hi₃, ht₃]
      have hcan := And.intro hfound (And.intro hkind (And.intro hfree hok.2.1))
      exact ⟨fun hrec => ⟨hcan, by rw [if_pos hrec]⟩, fun hrec => ⟨hcan, by rw [if_neg hrec]⟩⟩
    · rintro ⟨a, -, -, -, hp⟩
      exact hno ⟨hfree, hp, by rw [hm]; rfl⟩
  refine Ensures.fst (I := fun db' : Db X => db'.tick = db.tick + self.linkedRows db i p n)
    (hspec.mono (fun attr db' h => ?_) fun _ db' h => ?_)
  · obtain ⟨⟨hattr, hrest⟩, htick⟩ := h
    simp only [linkedRows, hattr]
    rw [if_pos hrest, htick]
  · obtain ⟨hno, rfl⟩ := h
    unfold linkedRows
    cases hattr : inodeAttr i db' with
    | error e => rfl
    | ok found =>
      cases found with
      | none => rfl
      | some attr => simp only [if_neg fun hrest => hno ⟨attr, hattr, hrest⟩, Nat.add_zero]

theorem tick_deleteDentry (now : Now) (p : ℕ) (n : Name) :
    (self.deleteDentry now p n db).1.tick = db.tick + self.unlinkedRows db p n := by
  refine Ensures.fst (I := fun db' : Db X => db'.tick = db.tick + self.unlinkedRows db p n) ?_
  unfold deleteDentry deleteDentryLocal deleteSubDentry executeAll unlinkedRows
  simp only [ensures_atomically, ensures_bind, ensures_get, ensures_ofOption, ensures_pure,
    ensures_modify]
  refine ⟨fun e he => ?_, fun hnone => by simp only [hnone, Nat.add_zero]⟩
  have hkey := AuditedTable.key_of_find he
  simp only [dentrySpec_key, Prod.mk.injEq] at hkey
  have htimes : ∀ db' : Db X, db'.metadata = db.metadata →
      db'.tick = db.tick + db.dentry.rows.countP (fun x => x.parentId = e.childId ∨
        ((x.parentId, x.name) = (p, n) ∧ ¬ (n = dotdot ∨ n = dot))) →
      (Proc.when self.timeRecording do
        updateCtime e.childId now
        updateMtime p now
        updateCtime p now : Conn X Unit).Ensures db'
        (fun _ db' => db'.tick = db.tick + self.unlinkedRows db p n)
        (fun _ _ => db.tick = db.tick + self.unlinkedRows db p n) := by
    intro db' hm htick
    have hp : db'.metadataRows p = 1 :=
      Db.metadataRows_of_isSome (by rw [hm, ← hkey.1]; exact (db.dentry_fk _ e he).1)
    have hc : db'.metadataRows e.childId = 1 :=
      Db.metadataRows_of_isSome (by rw [hm]; exact (db.dentry_fk _ e he).2)
    simp only [updateMtime, updateCtime, executeAll, ensures_when, ensures_bind, ensures_modify,
      Db.tick_updateMetadata, Db.metadataRows_updateMetadata, hp, hc, htick, unlinkedRows, he]
    exact ⟨fun hrec => by rw [if_pos hrec]; omega, fun hrec => by rw [if_neg hrec]; omega⟩
  rw [ensures_when]
  constructor
  · intro hn
    rw [ensures_modify]
    refine htimes _ (by simp) (Db.tick_of_dentry _ ?_ (by simp) (by simp) (by simp) fun k x => ?_)
    · rw [Db.balance_deleteDentryWhere, Db.balance_deleteDentryRow]
    · rw [Db.dentry_find_deleteDentryWhere, Option.filter_eq_some_iff,
        Db.dentry_find_deleteDentryRow, decide_eq_false_iff_not]
      by_cases hk : k = (p, n)
      · subst hk
        simp only [↓reduceIte, reduceCtorEq, false_and, false_iff]
        rintro ⟨hx, hno⟩
        exact hno (Or.inr ⟨AuditedTable.key_of_find hx, hn⟩)
      · rw [if_neg hk, Bool.not_eq_true', decide_eq_false_iff_not]
        refine and_congr_right fun hx => ?_
        have hxk : (x.parentId, x.name) = k := AuditedTable.key_of_find hx
        rw [hxk, or_iff_left fun h => hk h.1]
  · intro hn
    have hn' := not_not.1 hn
    refine htimes _ (by simp) (Db.tick_of_dentry _ ?_ (by simp) (by simp) (by simp) fun k x => ?_)
    · rw [Db.balance_deleteDentryWhere]
    · rw [Db.dentry_find_deleteDentryWhere, Option.filter_eq_some_iff, Bool.not_eq_true',
        decide_eq_false_iff_not, decide_eq_false_iff_not, or_iff_left fun h => h.2 hn']

omit self in
/-- The row that a target loses its place with. -/
theorem overwriteDentry_ticks (t : FileType) (p : ℕ) (n : Name) :
    (overwriteDentry t p n
        ((db.dentry.find (p, n)).map fun e => ⟨p, e.childId, e.fileType, n⟩)).Ensures db
      (fun _ db' => db'.metadata = db.metadata ∧ db'.tick = db.tick +
        if (db.dentry.find (p, n)).isSome ∧ ¬ (n = dotdot ∨ n = dot) then 1 else 0)
      (fun _ _ => True) := by
  cases hv : db.dentry.find (p, n) with
  | none => exact ⟨rfl, rfl⟩
  | some v =>
    have hdelete : (deleteDentryLocal p n).Ensures db (fun _ db' => db'.metadata = db.metadata ∧
        db'.tick = db.tick + if (some v).isSome ∧ ¬ (n = dotdot ∨ n = dot) then 1 else 0)
        (fun _ _ => True) := by
      unfold deleteDentryLocal executeAll
      rw [ensures_when, ensures_modify, Db.tick_deleteDentryRow, hv]
      exact ⟨fun hn => ⟨rfl, by simp [hn]⟩, fun hn => ⟨rfl, by rw [if_neg fun h => hn h.2]; rfl⟩⟩
    unfold overwriteDentry checkDirectoryIsEmptyLocal
    simp only [Option.map_some, ensures_bind, ensures_require, ensures_when, ensures_get,
      ensures_pure, implies_true, and_true]
    exact fun _ => ⟨fun _ _ => hdelete, fun _ => hdelete⟩

/-- The rows that a rename has changed once its entry is found, by way of `db₂` without the
target and `db₃` with the entry in its new place. -/
def MovesRows (self : Sqlite) (db : Db X) (p : ℕ) (n : Name) (p' : ℕ) (n' : Name) (e : DentryRow)
    (db' : Db X) : Prop :=
  ∃ db₂ db₃ : Db X,
    (∀ k, db₂.dentry.find k = if k = (p', n') ∧ ¬ (n' = dotdot ∨ n' = dot) then none
      else db.dentry.find k) ∧
    db₂.updateDentry p n (fun e => { e with parentId := p', name := n' }) = some db₃ ∧
    db'.tick = db.tick +
      (if (db.dentry.find (p', n')).isSome ∧ ¬ (n' = dotdot ∨ n' = dot) then 1 else 0) +
      (if (db₂.dentry.find (p, n)).isSome then 1 else 0) +
      (if p ≠ p' ∧ e.fileType = .Directory ∧ (db₃.dentry.find (e.childId, dotdot)).isSome
        then 1 else 0) +
      if self.timeRecording then (if p ≠ p' then 3 + 2 * db.metadataRows p' else 3) else 0

theorem moveDentry_rows (now : Now) {p : ℕ} {n : Name} (p' : ℕ) (n' : Name) {e : DentryRow}
    (he : db.dentry.find (p, n) = some e) :
    (self.moveDentry now p n p' n').Ensures db (fun _ db' => MovesRows self db p n p' n' e db')
      (fun _ _ => True) := by
  have hkey := AuditedTable.key_of_find he
  simp only [dentrySpec_key, Prod.mk.injEq] at hkey
  have hp : db.metadataRows p = 1 :=
    Db.metadataRows_of_isSome (by rw [← hkey.1]; exact (db.dentry_fk _ e he).1)
  have hc : db.metadataRows e.childId = 1 := Db.metadataRows_of_isSome (db.dentry_fk _ e he).2
  unfold moveDentry
  rw [ensures_atomically, ensures_bind]
  refine (getDentrySingle_spec db p n).mono (fun entry db₀ h₀ => ?_) fun _ _ _ => trivial
  obtain ⟨rfl, hentry⟩ := h₀
  rw [ensures_bind, ensures_ofOption]
  refine ⟨fun dentry hd => ?_, fun _ => trivial⟩
  rw [hd, he, Option.map_some, Option.some.injEq] at hentry
  subst hentry
  rw [ensures_bind]
  refine (getDentrySingle_spec db₀ p' n').mono (fun exist db₁ h₁ => ?_) fun _ _ _ => trivial
  obtain ⟨rfl, rfl⟩ := h₁
  rw [ensures_bind]
  refine ((overwriteDentry_spec db₁ .timeless e.fileType p' n').and
    (overwriteDentry_ticks db₁ e.fileType p' n')).mono (fun res db₂ h₂ => ?_) fun _ _ _ => trivial
  obtain ⟨⟨-, -, -, hd₂⟩, hm₂, ht₂⟩ := h₂
  rw [ensures_bind]
  refine (ensures_step _ _).2 ⟨fun db₃ h₃ => ?_, fun _ => trivial⟩
  have ht₃ := Db.tick_updateDentry h₃
  have hm₃ := Db.metadata_updateDentry h₃
  have htimes : ∀ (db₄ : Db X) (c : ℕ), db₄.metadata = db₃.metadata →
      db₄.tick = db₃.tick + c → c = (if p ≠ p' ∧ e.fileType = .Directory ∧
        (db₃.dentry.find (e.childId, dotdot)).isSome then 1 else 0) → (do
        Proc.when self.timeRecording do
          updateCtime e.childId now
          updateMtime p now
          updateCtime p now
          Proc.when (p ≠ p') do
            updateMtime p' now
            updateCtime p' now
        pure res : Conn X (Option ℕ)).Ensures db₄
          (fun _ db' => MovesRows self db₁ p n p' n' e db') (fun _ _ => True) := by
    intro db₄ c hm₄ ht₄ hc₄
    have hrows : ∀ i, db₄.metadataRows i = db₁.metadataRows i :=
      Db.metadataRows_congr (hm₄.trans (hm₃.trans hm₂))
    have hpost : ∀ db' : Db X, db'.tick = db₃.tick + c + (if self.timeRecording then
        (if p ≠ p' then 3 + 2 * db₁.metadataRows p' else 3) else 0) →
          MovesRows self db₁ p n p' n' e db' :=
      fun db' h => ⟨db₂, db₃, hd₂, h₃, by rw [h, ht₃, ht₂, hc₄]⟩
    simp only [updateMtime, updateCtime, executeAll, ensures_when, ensures_bind, ensures_modify,
      ensures_pure]
    refine ⟨fun hrec => ⟨fun hpp => hpost _ ?_, fun hpp => hpost _ ?_⟩, fun hrec => hpost _ ?_⟩
    · simp only [Db.tick_updateMetadata, Db.metadataRows_updateMetadata, hrows, hp, hc, ht₄]
      rw [if_pos hrec, if_pos hpp]
      omega
    · simp only [Db.tick_updateMetadata, Db.metadataRows_updateMetadata, hrows, hp, hc, ht₄]
      rw [if_pos hrec, if_neg hpp]
    · rw [if_neg hrec, ht₄, Nat.add_zero]
  rw [ensures_bind, ensures_when]
  constructor
  · rintro ⟨hpp, hdir⟩
    refine (ensures_step _ _).2 ⟨fun db₄ h₄ => ?_, fun _ => trivial⟩
    refine htimes db₄ _ (Db.metadata_updateDentry h₄) (Db.tick_updateDentry h₄) ?_
    simp [hpp, show e.fileType = .Directory from hdir]
  · intro hn
    exact htimes db₃ 0 rfl rfl (if_neg fun h => hn ⟨h.1, h.2.1⟩).symm

theorem tick_moveDentry (now : Now) (p : ℕ) (n : Name) (p' : ℕ) (n' : Name) :
    (self.moveDentry now p n p' n' db).1.tick = db.tick + self.movedRows db p n p' n' := by
  refine Ensures.fst (I := fun db' : Db X => db'.tick = db.tick + self.movedRows db p n p' n') ?_
  unfold movedRows
  cases he : db.dentry.find (p, n) with
  | none =>
    unfold moveDentry
    rw [ensures_atomically, ensures_bind]
    refine (getDentrySingle_spec db p n).mono (fun entry db₀ h₀ => ?_) fun _ _ h => h.elim
    obtain ⟨-, hentry⟩ := h₀
    rw [ensures_bind, ensures_ofOption, hentry, he]
    exact ⟨fun dentry hd => absurd hd (by simp), fun _ => rfl⟩
  | some e =>
    simp only
    have hrows := self.moveDentry_rows db now p' n' he
    by_cases hself : (p, n) = (p', n')
    · obtain ⟨rfl, rfl⟩ := Prod.mk.inj hself
      rw [if_pos rfl]
      by_cases hempty : e.fileType = .Directory →
          directoryIsEmpty db.dentry.rows e.childId = true
      · rw [if_pos hempty]
        refine (hrows.and (self.moveDentry_onto_itself_returns now db he hempty)).mono
          (fun _ db' h => ?_) fun _ _ h => h.2.elim
        obtain ⟨⟨db₂, db₃, hd₂, -, htick⟩, -⟩ := h
        have hfind := hd₂ (p, n)
        rw [he] at hfind htick
        rw [htick, hfind]
        by_cases hn : n = dotdot ∨ n = dot
        · simp [hn, Nat.add_assoc]
        · simp [hn, Nat.add_assoc]
      · rw [if_neg hempty]
        refine (self.moveDentry_onto_itself_spec now p n db).mono (fun _ db' h => ?_)
          fun _ db' h => by rw [h, Nat.add_zero]
        obtain ⟨e', -, hmoved⟩ := h
        obtain rfl := Option.some.inj (he.symm.trans hmoved.found)
        exact absurd hmoved.empty hempty
    · rw [if_neg hself]
      by_cases hcan : (db.metadata.find p').isSome ∧ ∀ v ∈ db.dentry.find (p', n'),
          ¬ (n' = dotdot ∨ n' = dot) ∧ e.fileType = v.fileType ∧ (v.fileType = .Directory →
            directoryIsEmpty db.dentry.rows v.childId = true)
      · rw [if_pos hcan]
        obtain ⟨hp', hchecks⟩ := hcan
        refine (hrows.and (self.moveDentry_returns now db
          ⟨hself, hp', e, he, hchecks⟩)).mono (fun _ db' h => ?_) fun _ _ h => h.2.elim
        obtain ⟨⟨db₂, db₃, hd₂, h₃, htick⟩, -⟩ := h
        have he₂ : db₂.dentry.find (p, n) = some e := by rw [hd₂, if_neg fun h => hself h.1, he]
        obtain ⟨-, -, -, hd₃, -⟩ := Db.updateDentry_eq_some he₂ h₃
        have hfind : ∀ k, db₃.dentry.find k = db.movedEntry p n p' n' e k := by
          intro k
          rw [AuditedTable.find_rekey he₂ hd₃, Db.movedEntry, hd₂]
          by_cases hk : k = (p', n')
          · simp [hk]
          · simp [hk]
        have htarget : ((db.dentry.find (p', n')).isSome ∧ ¬ (n' = dotdot ∨ n' = dot)) ↔
            (db.dentry.find (p', n')).isSome := by
          refine and_iff_left_of_imp fun h => ?_
          obtain ⟨v, hv⟩ := Option.isSome_iff_exists.1 h
          exact (hchecks v hv).1
        rw [htick, he₂, hfind, Db.metadataRows_of_isSome hp']
        simp only [htarget, Option.isSome_some, ↓reduceIte, Nat.reduceMul, Nat.reduceAdd]
        omega
      · rw [if_neg hcan]
        refine (self.moveDentry_spec now hself db).mono (fun res db' h => ?_)
          fun _ db' h => by rw [h, Nat.add_zero]
        obtain ⟨e', hmoved⟩ := h
        obtain rfl := Option.some.inj (he.symm.trans hmoved.source)
        exact absurd ⟨hmoved.parent, fun v hv =>
          ⟨hmoved.no_dots v hv, hmoved.same_type v hv, hmoved.empty v hv⟩⟩ hcan

omit self in
/-- The blocks that a truncation writes and deletes. -/
theorem releaseData_ticks (i : ℕ) (offset : UInt32) :
    (TemporalFs.releaseData i offset).Ensures db
      (fun _ db' => db'.tick = db.tick + db.releaseRows i offset) (fun _ _ => True) := by
  unfold TemporalFs.releaseData Db.releaseRows executeAll execute
  rw [ensures_ite, ensures_ite]
  refine ⟨fun h => ?_, fun h => ⟨fun hmod => ?_, fun hmod => ?_⟩⟩
  · rw [if_pos h]
    exact db.tick_deleteDataWhere _
  · rw [if_neg h, if_pos hmod]
    exact db.tick_deleteDataWhere _
  · rw [if_neg h, if_neg hmod, ensures_bind, ensures_get, ensures_bind]
    refine (ensures_step _ _).2 ⟨fun db₁ h₁ => ?_, fun _ => trivial⟩
    rw [ensures_modify, Db.tick_deleteDataWhere, Db.tick_replaceData h₁]
    -- the block just written is not behind the offset
    obtain ⟨-, -, -, hb₁, -⟩ := Db.replaceData_eq_some h₁
    have hcount : db₁.data.rows.countP (fun r => r.fileId = i ∧
        r.blockNum > offset.toNat / blockSize + 1) = db.data.rows.countP (fun r =>
          r.fileId = i ∧ r.blockNum > offset.toNat / blockSize + 1) := by
      rw [hb₁, AuditedTable.countP_put _ _ _ _ fun r hr => by
        simp only [dataSpec_key, Prod.mk.injEq] at hr
        simp [hr.2]]
    rw [hcount]
    omega

theorem tick_updateInode (now : Now) (attr : DBFileAttr) (truncate : Bool) :
    (self.updateInode now attr truncate db).1.tick =
      db.tick + updatedRows db attr truncate := by
  refine Ensures.fst (I := fun db' : Db X => db'.tick = db.tick + updatedRows db attr truncate) ?_
  unfold updateInode utcFrom executeAll updatedRows
  simp only [ensures_atomically, ensures_bind]
  refine (getInodeLocal_spec db attr.ino).mono (fun found db₁ h₁ => ?_) fun e db₁ h₁ => ?_
  rotate_left
  · simp only [h₁.2, Nat.add_zero]
  obtain ⟨rfl, hfound⟩ := h₁
  rw [ensures_ofOption]
  refine ⟨fun old hold => ?_, fun hnone => by simp only [hfound, hnone, Nat.add_zero]⟩
  subst hold
  simp only [hfound]
  obtain ⟨m, hm, -⟩ := inodeAttr_eq_ok_some hfound
  have hi : (db₁.metadata.find attr.ino).isSome := by rw [hm]; rfl
  have hpost : ∀ f, (Proc.when truncate (TemporalFs.releaseData attr.ino attr.size)).Ensures
      (db₁.updateMetadata attr.ino f) (fun _ db' => db'.tick =
        db₁.tick + (1 + if truncate then db₁.releaseRows attr.ino attr.size else 0))
      (fun _ _ => False) := by
    intro f
    have htick : (db₁.updateMetadata attr.ino f).tick = db₁.tick + 1 := by
      rw [Db.tick_updateMetadata, Db.metadataRows_of_isSome hi]
    rw [ensures_when]
    constructor
    · intro ht
      have hi' : ((db₁.updateMetadata attr.ino f).metadata.find attr.ino).isSome := by
        rw [Db.metadata_find_updateMetadata, if_pos rfl, Option.isSome_map, hi]
      refine ((releaseData_ticks _ attr.ino attr.size).and
        (releaseData_spec _ attr.ino attr.size hi')).mono (fun _ db' h => ?_) fun _ _ h => h.2
      rw [if_pos ht, h.1, htick, Nat.add_assoc]
      rfl
    · intro ht
      rw [if_neg ht, htick]
  simp only [ensures_bind, ensures_require, ensures_pure, ensures_modify, ensures_ite]
  by_cases hdates : inChronoRange attr.atime.sec ∧
      (old.size = attr.size → inChronoRange attr.mtime.sec) ∧ inChronoRange attr.crtime.sec
  · rw [if_pos hdates]
    obtain ⟨ha, hmt, hc⟩ := hdates
    have hpost' := fun f => (hpost f).mono (F := fun _ _ => db₁.tick = db₁.tick +
      (1 + if truncate then db₁.releaseRows attr.ino attr.size else 0))
      (fun _ _ h => h) fun _ _ h => h.elim
    exact ⟨fun _ => ⟨fun _ => ⟨fun _ => hpost' _, fun h => absurd hc h⟩,
      fun heq => ⟨fun _ => ⟨fun _ => hpost' _, fun h => absurd hc h⟩,
        fun h => absurd (hmt (not_not.1 heq)) h⟩⟩, fun h => absurd ha h⟩
  · rw [if_neg hdates]
    refine ⟨fun ha => ⟨fun hne => ⟨fun hc => absurd ⟨ha, fun h => absurd h hne, hc⟩ hdates,
      fun _ => rfl⟩, fun _ => ⟨fun hmt => ⟨fun hc => absurd ⟨ha, fun _ => hmt, hc⟩ hdates,
        fun _ => rfl⟩, fun _ => rfl⟩⟩, fun _ => rfl⟩

theorem tick_writeData (now : Now) (i k : ℕ) (bytes : Bytes) (size : UInt32) :
    (self.writeData now i k bytes size db).1.tick = db.tick + self.writtenRows db i size := by
  refine Ensures.fst (I := fun db' : Db X => db'.tick = db.tick + self.writtenRows db i size) ?_
  unfold writeData execute executeAll writtenRows
  simp only [ensures_atomically, ensures_bind, ensures_get, ensures_ofOption, ensures_require]
  refine ⟨fun row hrow => ?_, fun hnone => by simp only [hnone, Nat.add_zero]⟩
  simp only [hrow]
  refine ⟨fun hext => ?_, fun hext => by rw [if_neg hext, Nat.add_zero]⟩
  rw [if_pos hext]
  have hi : (db.metadata.find i).isSome := by simp [hrow]
  refine (ensures_step _ _).2 ⟨fun db₁ h₁ => ?_, fun hnone => ?_⟩
  · obtain ⟨-, hm₁, -⟩ := Db.upsertData_eq_some h₁
    have hrow₁ : db₁.metadataRows i = 1 := Db.metadataRows_of_isSome (by rw [hm₁]; exact hi)
    simp only [updateMtime, updateCtime, executeAll, ensures_when, ensures_bind, ensures_modify,
      Db.tick_updateMetadata, Db.metadataRows_updateMetadata, hrow₁, Db.tick_upsertData h₁]
    refine ⟨fun hsize => ⟨fun hrec => ?_, fun hrec => ?_⟩, fun hsize => ⟨fun hrec => ?_,
      fun hrec => ?_⟩⟩
    · rw [if_pos hsize, if_pos hrec]
    · rw [if_pos hsize, if_neg hrec]
    · rw [if_neg hsize, if_pos hrec]
    · rw [if_neg hsize, if_neg hrec]
  · have := db.upsertData_isSome (r := ⟨i, k, bytes⟩) hi
    rw [Option.isSome_iff_ne_none] at this
    exact absurd hnone this

theorem tick_lookup (now : Now) (p : ℕ) (n : Name) : (self.lookup now p n db).1.tick =
    db.tick + if self.timeRecording then db.metadataRows p else 0 := by
  have hquery : ∀ db' : Db X, (query fun _ => lookupAttr p n db : Conn X _).Ensures db'
      (fun _ d => d = db') (fun _ d => d = db') :=
    fun db' => (ensures_query _ db').2 ⟨fun _ _ => rfl, fun _ _ => rfl⟩
  refine Ensures.fst (I := fun db' : Db X => db'.tick = db.tick + _) ?_
  unfold lookup updateAtime executeAll
  simp only [ensures_bind, ensures_get, ensures_when, ensures_modify]
  constructor
  · intro hrec
    refine (hquery _).mono (fun _ d h => ?_) fun _ d h => ?_
    · rw [h, if_pos hrec, Db.tick_updateMetadata]
    · rw [h, if_pos hrec, Db.tick_updateMetadata]
  · intro hrec
    refine (hquery _).mono (fun _ d h => ?_) fun _ d h => ?_
    · rw [h, if_neg hrec, Nat.add_zero]
    · rw [h, if_neg hrec, Nat.add_zero]

theorem tick_getData (now : Now) (i k length : ℕ) : (self.getData now i k length db).1.tick =
    db.tick + if ¬ self.readOnly ∧ self.timeRecording then db.metadataRows i else 0 := by
  refine Ensures.fst (I := fun db' : Db X => db'.tick = db.tick + _) ?_
  unfold getData updateAtime executeAll
  simp only [ensures_atomically, ensures_bind, ensures_get, ensures_when, ensures_pure,
    ensures_modify, Db.tick_updateMetadata]
  exact ⟨fun hrec => by rw [if_pos hrec], fun hrec => by rw [if_neg hrec, Nat.add_zero]⟩

theorem tick_getDataAtTime (now : Now) (i k length : ℕ) :
    (self.getDataAtTime now i k length db).1.tick =
      db.tick + if self.temp.isSome ∧ self.timeRecording then db.metadataRows i else 0 := by
  refine Ensures.fst (I := fun db' : Db X => db'.tick = db.tick + _) ?_
  unfold getDataAtTime queryTemp updateAtime executeAll
  simp only [ensures_atomically, ensures_bind, ensures_ofOption, ensures_when, ensures_pure,
    ensures_modify, Db.tick_updateMetadata]
  refine ⟨fun t ht => ?_, fun hnone => by simp [hnone]⟩
  simp only [ht, Option.isSome_some, true_and]
  exact ⟨fun hrec => by rw [if_pos hrec], fun hrec => by rw [if_neg hrec, Nat.add_zero]⟩

theorem tick_setXattr (now : Now) (i : ℕ) (key : Name) (value : Bytes) :
    (self.setXattr now i key value db).1.tick = db.tick +
      if (db.metadata.find i).isSome then 1 + if self.timeRecording then 1 else 0 else 0 := by
  refine Ensures.fst (I := fun db' : Db X => db'.tick = db.tick + _) ?_
  unfold setXattr execute updateCtime executeAll
  simp only [ensures_atomically, ensures_bind]
  refine (ensures_step _ _).2 ⟨fun db₁ h₁ => ?_, fun hnone => ?_⟩
  · obtain ⟨hi, hm₁, -⟩ := Db.replaceXattr_eq_some h₁
    simp only at hi
    have hrow₁ : db₁.metadataRows i = 1 := Db.metadataRows_of_isSome (by rw [hm₁]; exact hi)
    rw [if_pos hi, ensures_when, ensures_modify, Db.tick_updateMetadata, hrow₁,
      Db.tick_replaceXattr h₁]
    exact ⟨fun hrec => by rw [if_pos hrec], fun hrec => by rw [if_neg hrec]⟩
  · rw [if_neg fun hi => ?_, Nat.add_zero]
    exact absurd (Db.replaceXattr_isSome (r := ⟨i, key, value⟩) hi) (by simp [hnone])

theorem tick_deleteXattr (now : Now) (i : ℕ) (key : Name) :
    (self.deleteXattr now i key db).1.tick = db.tick +
      ((if (db.xattr.find (i, key)).isSome then 1 else 0) +
        if self.timeRecording then db.metadataRows i else 0) := by
  refine Ensures.fst (I := fun db' : Db X => db'.tick = db.tick + _) ?_
  unfold deleteXattr updateCtime executeAll
  simp only [ensures_atomically, ensures_bind, ensures_modify, ensures_when, Db.tick_updateMetadata,
    Db.tick_deleteXattrRow,
      Db.metadataRows_congr (show (db.deleteXattrRow i key).metadata = db.metadata from rfl)]
  exact ⟨fun hrec => by rw [if_pos hrec, Nat.add_assoc],
    fun hrec => by rw [if_neg hrec, Nat.add_zero]⟩

omit self in
/-- An entry of the root for itself is one row, where it is added. -/
theorem addDentry_root_ticks {db : Db X} (hroot : (db.metadata.find 1).isSome) (n : Name) :
    (Proc.when (db.dentry.find (1, n) = none) (addDentry ⟨1, 1, .Directory, n⟩)).Ensures db
      (fun _ db' => (db'.metadata.find 1).isSome ∧
        (∀ m, m ≠ n → db'.dentry.find (1, m) = db.dentry.find (1, m)) ∧
        db'.tick = db.tick + if db.dentry.find (1, n) = none then 1 else 0)
      (fun _ _ => False) := by
  rw [ensures_when]
  constructor
  · intro hfree
    rw [ensures_addDentry]
    refine ⟨fun db' _ h => ?_, fun hno => hno ⟨hfree, hroot, hroot⟩⟩
    obtain ⟨-, -, -, hm, hd, -⟩ := Db.insertDentry_eq_some h
    refine ⟨by rw [hm]; exact hroot, fun m hne => ?_, by rw [if_pos hfree, Db.tick_insertDentry h]⟩
    rw [hd, AuditedTable.find_put]
    exact if_neg fun heq => hne (Prod.mk.inj heq).2.symm
  · intro hno
    exact ⟨hroot, fun _ _ => rfl, by rw [if_neg hno, Nat.add_zero]⟩

theorem tick_init (now : Now) : (self.init now db).1.tick = db.tick + db.initRows := by
  have hdiffs : ∀ db : Db X, (applyDiffs self.extensions db).1.tick = db.tick := fun db =>
    (keeps_applyDiffs (I := fun d => d.tick = db.tick) (fun _ _ h => h) self.extensions).fst rfl
  -- the two entries of the root, and then the replay of the blocks
  have hentries : ∀ db : Db X, (db.metadata.find 1).isSome → (do
      let db ← Proc.get
      Proc.when (db.dentry.find (1, dot) = none) (addDentry ⟨1, 1, .Directory, dot⟩)
      let db ← Proc.get
      Proc.when (db.dentry.find (1, dotdot) = none) (addDentry ⟨1, 1, .Directory, dotdot⟩)
      executeAll fun db => (applyDiffs self.extensions db).1 : Conn X Unit).Ensures db
        (fun _ db' => db'.tick = db.tick + ((if db.dentry.find (1, dot) = none then 1 else 0) +
          if db.dentry.find (1, dotdot) = none then 1 else 0)) (fun _ _ => False) := by
    intro db hroot
    rw [ensures_bind, ensures_get, ensures_bind]
    refine (addDentry_root_ticks hroot dot).mono (fun _ db₁ h₁ => ?_) fun _ _ h => h
    obtain ⟨hroot₁, hd₁, ht₁⟩ := h₁
    rw [ensures_bind, ensures_get, ensures_bind]
    refine (addDentry_root_ticks hroot₁ dotdot).mono (fun _ db₂ h₂ => ?_) fun _ _ h => h
    rw [executeAll, ensures_modify, hdiffs, h₂.2.2, ht₁, hd₁ dotdot (by decide), Nat.add_assoc]
  refine Ensures.fst (I := fun db' : Db X => db'.tick = db.tick + db.initRows) ?_
  unfold init
  rw [ensures_bind, ensures_get, ensures_bind, ensures_when]
  constructor
  · intro hnone
    have hinit : db.initRows = if db.sqliteSequence = 0 then 3 else 1 := by
      rw [Db.initRows, hnone]
      exact if_neg (by simp)
    have hroot : (do let _ ← addInodeLocal (rootAttr now); pure () : Conn X Unit).Ensures db
        (fun _ db₁ => db₁.tick = db.tick + 1 ∧ (∀ n, db₁.dentry.find (1, n) = none) ∧
          ((db₁.metadata.find 1).isSome ↔ db.sqliteSequence = 0))
        (fun _ db₁ => db₁.tick = db.tick + 1 ∧ db.sqliteSequence ≠ 0) := by
      have hrange : inChronoRange now.1.sec := now.inChronoRange
      unfold addInodeLocal utcFrom executeAll rootAttr
      simp only [ensures_bind, ensures_require, ensures_pure, ensures_modify, ensures_get,
        Db.sqliteSequence_insertMetadata, Db.tick_insertMetadata, hrange, not_true_eq_false,
        false_implies, true_implies, and_true, true_and]
      refine ⟨fun _ => ⟨@Db.dentry_find_of_metadata_find_none _ db 1 hnone, ?_⟩, fun hlt h => ?_⟩
      · rw [Db.metadata_find_insertMetadata]
        by_cases hseq : db.sqliteSequence = 0
        · simp [hseq]
        · rw [if_neg (by omega), hnone]
          simp [hseq]
      · rw [h] at hlt
        exact hlt (by decide)
    refine hroot.mono (fun _ db₁ h₁ => ?_) fun _ db₁ h₁ => ?_
    · obtain ⟨ht₁, hfree₁, hroot₁⟩ := h₁
      by_cases hseq : db.sqliteSequence = 0
      · refine (hentries db₁ (hroot₁.2 hseq)).mono (fun _ db' h => ?_) fun _ _ h => h.elim
        rw [h, ht₁, if_pos (hfree₁ dot), if_pos (hfree₁ dotdot), hinit, if_pos hseq]
      · -- without the root its entries are refused
        rw [hinit, if_neg hseq, ensures_bind, ensures_get, ensures_bind, ensures_when]
        refine ⟨fun _ => ensures_addDentry.2 ⟨fun db' hok _ => ?_, fun _ => ht₁⟩, fun h => ?_⟩
        · exact absurd (hroot₁.1 hok.2.1) hseq
        · exact absurd (hfree₁ dot) h
    · rw [hinit, if_neg h₁.2, h₁.1]
  · intro hroot
    have hroot' : (db.metadata.find 1).isSome := Option.isSome_iff_ne_none.2 hroot
    refine (hentries db hroot').mono (fun _ db' h => ?_) fun _ _ h => h.elim
    rw [h, Db.initRows, if_pos hroot']

end Sqlite

/-- **A method writes as many audit rows as counted.** -/
theorem Method.tick_run (self : Sqlite) (db : Db X) (m : Method) :
    (m.run self db).tick = db.tick + m.auditRows self db := by
  have hquery : ∀ {α : Type} {x : Conn X α}, x.Keeps (fun d => d = db) →
      (x db).1.tick = db.tick + 0 := fun h => by rw [h.fst rfl, Nat.add_zero]
  cases m with
  | init now => exact self.tick_init db now
  | getInode i => exact hquery (keeps_getInodeLocal i)
  | getInodeAtTime i => exact hquery (self.keeps_queryTemp _)
  | addInodeAndDentry now p n attr => exact self.tick_addInodeAndDentry db now p n attr
  | updateInode now attr t => exact self.tick_updateInode db now attr t
  | deleteInodeIfNoref i =>
    have h := (self.deleteInodeIfNoref_spec db i).mono (R := fun _ d => d = db.collect i)
      (F := fun _ d => d = db.collect i) (fun _ _ h => h) fun _ _ h => h.elim
    exact (congrArg Db.tick h.fst).trans (db.tick_collect i)
  | getDentry i => rfl
  | getDentryAtTime i => exact hquery (self.keeps_queryTemp _)
  | linkDentry now i p n => exact self.tick_linkDentry db now i p n
  | deleteDentry now p n => exact self.tick_deleteDentry db now p n
  | moveDentry now p n p' n' => exact self.tick_moveDentry db now p n p' n'
  | checkDirectoryIsEmpty i => rfl
  | lookup now p n => exact self.tick_lookup db now p n
  | lookupAtTime p n => exact hquery (self.keeps_queryTemp _)
  | getData now i k len => exact self.tick_getData db now i k len
  | getDataAtTime now i k len => exact self.tick_getDataAtTime db now i k len
  | writeData now i k data size => exact self.tick_writeData db now i k data size
  | releaseData i => exact db.tick_deleteDataWhere _
  | deleteAllNorefInode =>
    have h := (self.deleteAllNorefInode_spec db).mono (R := fun _ d => d = db.deleteAll db.unnamed)
      (F := fun _ d => d = db.deleteAll db.unnamed) (fun _ _ h => h) fun _ _ h => h.elim
    exact (congrArg Db.tick h.fst).trans (db.tick_deleteAll _)
  | setXattr now i key value => exact self.tick_setXattr db now i key value
  | getXattr i key =>
    exact hquery (keeps_bind keeps_get fun _ => keeps_bind keeps_ofOption fun _ => keeps_pure _)
  | getXattrAtTime i key => exact hquery (self.keeps_queryTemp _)
  | listXattr i => rfl
  | listXattrAtTime i => exact hquery (self.keeps_queryTemp _)
  | deleteXattr now i key => exact self.tick_deleteXattr db now i key

end TemporalFs
