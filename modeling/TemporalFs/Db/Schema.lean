import Mathlib
import TemporalFs.Lib.AuditedTable

/-!
# The database of the file system

The four tables `metadata`, `dentry`, `data` and `xattr` with their audit tables, the side table
`bdata`, and the statements that change them one row at a time. A `Db` is the database between two
statements: foreign keys are enforced (`PRAGMA foreign_keys=ON`), so a `Db` carries the proof that
every entry, block and attribute names inodes that have a metadata row.

The time stamp of an audit row comes from the `clock` of the database, which gives the value of
`strftime('%Y-%m-%dT%H:%M:%f', 'now', 'utc')` for each audit row in turn.

## Main definitions

* `MetadataRow`, `DentryRow`, `DataRow`, `XattrRow` and the specifications of their tables.
* `Externals`: the functions of the loaded extensions, and the free choices of SQLite.
* `Db`, with the statements that change one row of it.

## Main results

* `Db.dentry_find_deleteMetadata`, `Db.data_find_deleteMetadata`, `Db.xattr_find_deleteMetadata`: a
  deleted inode takes its entries, blocks and attributes with it.
-/

namespace TemporalFs

/-- A BLOB, or the value of an extended attribute, as its bytes. -/
abbrev Bytes := List UInt8

/-- A file name: the UTF-8 bytes of a `String`. -/
abbrev Name := List UInt8

/-- The directory's own entry `"."`, which leads to the directory itself. -/
def dot : Name := [46]

/-- The entry `".."`, which leads to the parent directory. -/
def dotdot : Name := [46, 46]

/-- The file types of `fuser`, of which the program makes directories, regular files and symbolic
links. -/
inductive FileType
  | NamedPipe
  | CharDevice
  | BlockDevice
  | Directory
  | RegularFile
  | Symlink
  | Socket
  deriving DecidableEq, Repr

/-- A second has nanoseconds. -/
instance instNeZeroNanoseconds : NeZero 1000000000 := ⟨by decide⟩

/-- A point in time: seconds since the epoch, which may be negative, and nanoseconds. -/
structure SystemTime where
  sec : ℤ
  nsec : Fin 1000000000
  deriving DecidableEq, Repr

/-- A time in the database: the text column, `none` where it is `NULL` and else the second it
spells, and the column of nanoseconds. -/
structure TimeColumn where
  text : Option ℤ
  nsec : Fin 1000000000
  deriving DecidableEq, Repr

/-- A row of the table `metadata`: the inode `id` with its attributes. The numbers of its links and
of its blocks are counted in `dentry` and `data`. -/
structure MetadataRow where
  id : ℕ
  size : UInt32
  atime : TimeColumn
  mtime : TimeColumn
  ctime : TimeColumn
  crtime : TimeColumn
  kind : FileType
  mode : UInt16
  uid : UInt32
  gid : UInt32
  rdev : UInt32
  flags : UInt32
  deriving DecidableEq

/-- The row with the inode number `i` in place of its own, as `AUTOINCREMENT` gives it. -/
def MetadataRow.withId (m : MetadataRow) (i : ℕ) : MetadataRow := { m with id := i }

/-- A row of the table `dentry`: the entry `name` of the directory `parentId`, which leads to the
inode `childId`. The type is stored with the entry. -/
structure DentryRow where
  parentId : ℕ
  childId : ℕ
  fileType : FileType
  name : Name
  deriving DecidableEq

/-- A row of the table `data`: the block `blockNum` of a file, counted from 1. -/
structure DataRow where
  fileId : ℕ
  blockNum : ℕ
  data : Bytes
  deriving DecidableEq

/-- The row with the bytes `b` in place of its own, which the update of a block stores or logs. -/
def DataRow.withData (r : DataRow) (b : Bytes) : DataRow := { r with data := b }

/-- A row of the table `xattr`: one extended attribute of an inode, which belongs to the inode and
not to a name of it. -/
structure XattrRow where
  fileId : ℕ
  name : Name
  value : Bytes
  deriving DecidableEq

/-- What the program takes from outside: the SQL functions of the extensions `compress` and
`fossildelta`, which fail on malformed input, and the row from which SQLite takes a bare column in
an aggregate query without `GROUP BY`. -/
structure Externals where
  compress : Bytes → Bytes
  uncompress : Bytes → Option Bytes
  deltaCreate : Bytes → Bytes → Bytes
  deltaApply : Bytes → Bytes → Option Bytes
  bareRow : List DataRow → ℕ

/-- What is documented of the extensions: each function is undone by its partner. Nothing is said of
input that the partner has not made. -/
structure Externals.Lawful (X : Externals) : Prop where
  uncompress_compress : ∀ x, X.uncompress (X.compress x) = some x
  deltaApply_create : ∀ x y, X.deltaApply x (X.deltaCreate x y) = some y

/-- Functions with the documented laws. They agree with the extensions on the overwriting of the
block `a` by `b`, whose difference is `1 1:b1Y0000;` with a line feed for the blank, and mark
everything else as copied. -/
def Externals.sample : Externals where
  compress x :=
    if x = [49, 10, 49, 58, 98, 49, 89, 48, 48, 48, 48, 59] then
      [140, 120, 156, 51, 228, 50, 180, 74, 50, 140, 52, 0, 2, 107, 0, 16, 18, 2, 142]
    else 0 :: x
  uncompress x :=
    if x = [140, 120, 156, 51, 228, 50, 180, 74, 50, 140, 52, 0, 2, 107, 0, 16, 18, 2, 142] then
      some [49, 10, 49, 58, 98, 49, 89, 48, 48, 48, 48, 59]
    else if x.head? = some 0 then some x.tail else none
  deltaCreate x y :=
    if x = [97] ∧ y = [98] then [49, 10, 49, 58, 98, 49, 89, 48, 48, 48, 48, 59] else 0 :: y
  deltaApply x d :=
    if x = [97] ∧ d = [49, 10, 49, 58, 98, 49, 89, 48, 48, 48, 48, 59] then some [98]
    else if d.head? = some 0 then some d.tail else none
  bareRow _ := 0

theorem Externals.sample_lawful : Externals.sample.Lawful where
  uncompress_compress x := by
    by_cases hx : x = [49, 10, 49, 58, 98, 49, 89, 48, 48, 48, 48, 59] <;> simp [sample, hx]
  deltaApply_create x y := by
    by_cases hx : x = [97] ∧ y = [98]
    · simp [sample, hx]
    · simp [sample, hx]

/-! ### The tables -/

/-- The table `metadata`, whose rows are found by the inode number. An update logs the new row. -/
def metadataSpec : TableSpec MetadataRow ℕ MetadataRow where
  key := MetadataRow.id
  logged := id
  loggedUpdate := fun _ new => new
  rekeys := false

/-- The table `dentry`, whose rows are found by the parent and the name. It is the only table whose
keys a statement changes: `rename` moves an entry. -/
def dentrySpec : TableSpec DentryRow (ℕ × Name) DentryRow where
  key := fun e => (e.parentId, e.name)
  logged := id
  loggedUpdate := fun _ new => new
  rekeys := true

/-- The update trigger of `data` logs the compressed difference of the old and the new block. -/
def dataSpec (X : Externals) : TableSpec DataRow (ℕ × ℕ) DataRow where
  key := fun r => (r.fileId, r.blockNum)
  logged := id
  loggedUpdate := fun old new => new.withData (X.compress (X.deltaCreate old.data new.data))
  rekeys := false

/-- The table `xattr`, whose rows are found by the inode and the name of the attribute. -/
def xattrSpec : TableSpec XattrRow (ℕ × Name) XattrRow where
  key := fun r => (r.fileId, r.name)
  logged := id
  loggedUpdate := fun _ new => new
  rekeys := false

@[simp] theorem metadataSpec_key (m : MetadataRow) : metadataSpec.key m = m.id := rfl

@[simp] theorem dentrySpec_key (e : DentryRow) : dentrySpec.key e = (e.parentId, e.name) := rfl

@[simp] theorem dataSpec_key (X : Externals) (r : DataRow) :
    (dataSpec X).key r = (r.fileId, r.blockNum) := rfl

@[simp] theorem xattrSpec_key (r : XattrRow) : xattrSpec.key r = (r.fileId, r.name) := rfl

theorem metadataSpec_key_withId (f : MetadataRow → MetadataRow) (m : MetadataRow) :
    metadataSpec.key ((f m).withId m.id) = metadataSpec.key m := rfl

theorem dataSpec_key_withData (X : Externals) (b : Bytes) (r : DataRow) :
    (dataSpec X).key (r.withData b) = (dataSpec X).key r := rfl

/-- The database between two statements: the tables with their logs, and what the foreign keys and
`AUTOINCREMENT` guarantee of their rows. The clock gives the stamp of an audit row by the number of
audit rows before it. -/
structure Db (X : Externals) where
  clock : ℕ → ℕ
  metadata : AuditedTable metadataSpec
  dentry : AuditedTable dentrySpec
  data : AuditedTable (dataSpec X)
  xattr : AuditedTable xattrSpec
  /-- The largest inode number ever used (`AUTOINCREMENT`). -/
  sqliteSequence : ℕ
  /-- The table `bdata`, once it has been created. -/
  bdata : Option (List DataRow)
  dentry_fk : ∀ k e, dentry.find k = some e →
    (metadata.find e.parentId).isSome ∧ (metadata.find e.childId).isSome
  data_fk : ∀ k r, data.find k = some r → (metadata.find r.fileId).isSome
  xattr_fk : ∀ k r, xattr.find k = some r → (metadata.find r.fileId).isSome
  sequence_bound : ∀ i, (metadata.find i).isSome → i ≤ sqliteSequence

namespace Db

variable {X : Externals}

/-- The database with its tables just created. No row is in them, not even that of the root, which
`init` adds. -/
def empty (X : Externals) (clock : ℕ → ℕ) : Db X where
  clock := clock
  metadata := .empty _
  dentry := .empty _
  data := .empty _
  xattr := .empty _
  sqliteSequence := 0
  bdata := none
  dentry_fk := by simp
  data_fk := by simp
  xattr_fk := by simp
  sequence_bound := by simp

/-- The number of audit rows written so far, over all four tables. -/
def tick (db : Db X) : ℕ :=
  db.metadata.history.length + db.dentry.history.length + db.data.history.length +
    db.xattr.history.length

/-- The stamp of the next audit row, which its trigger takes from the clock. -/
def now (db : Db X) : ℕ := db.clock db.tick

/-! ### Statements

Each statement is given for one row; a statement that concerns several rows runs through them. -/

/-- `INSERT INTO metadata`: the row gets the next inode number, which no inode has had before. -/
def insertMetadata (db : Db X) (m : MetadataRow) : Db X :=
  { db with
    metadata := db.metadata.put db.now (m.withId (db.sqliteSequence + 1))
    sqliteSequence := db.sqliteSequence + 1
    dentry_fk := by
      intro k e he
      have h := db.dentry_fk k e he
      simp only [AuditedTable.find_put]
      exact ⟨by split_ifs <;> simp [h.1], by split_ifs <;> simp [h.2]⟩
    data_fk := by
      intro k r hr
      have h := db.data_fk k r hr
      simp only [AuditedTable.find_put]
      split_ifs <;> simp [h]
    xattr_fk := by
      intro k r hr
      have h := db.xattr_fk k r hr
      simp only [AuditedTable.find_put]
      split_ifs <;> simp [h]
    sequence_bound := by
      intro i hi
      rw [AuditedTable.find_put] at hi
      by_cases h : metadataSpec.key (m.withId (db.sqliteSequence + 1)) = i
      · exact h ▸ le_refl _
      · rw [if_neg h] at hi
        exact (db.sequence_bound i hi).trans (Nat.le_succ _) }

/-- `UPDATE metadata SET … WHERE id=i`, which changes no inode number and passes over an inode that
is not there. -/
def updateMetadata (db : Db X) (i : ℕ) (f : MetadataRow → MetadataRow) : Db X :=
  { db with
    metadata := db.metadata.update db.now i (fun m => (f m).withId m.id) (metadataSpec_key_withId f)
    dentry_fk := by
      intro k e he
      have h := db.dentry_fk k e he
      simp only [AuditedTable.find_update]
      constructor
      · split_ifs with hi
        · simpa [← hi] using h.1
        · exact h.1
      · split_ifs with hi
        · simpa [← hi] using h.2
        · exact h.2
    data_fk := by
      intro k r hr
      have h := db.data_fk k r hr
      simp only [AuditedTable.find_update]
      split_ifs with hi
      · simpa [← hi] using h
      · exact h
    xattr_fk := by
      intro k r hr
      have h := db.xattr_fk k r hr
      simp only [AuditedTable.find_update]
      split_ifs with hi
      · simpa [← hi] using h
      · exact h
    sequence_bound := by
      intro j hj
      simp only [AuditedTable.find_update] at hj
      split_ifs at hj with hi
      · exact hi ▸ db.sequence_bound i (by simpa using hj)
      · exact db.sequence_bound j hj }

/-- `INSERT INTO dentry`, refused where the name is taken in its directory or one of the two inodes
is missing. -/
def insertDentry (db : Db X) (e : DentryRow) : Option (Db X) :=
  if h : db.dentry.find (e.parentId, e.name) = none ∧
      (db.metadata.find e.parentId).isSome ∧ (db.metadata.find e.childId).isSome then
    some { db with
      dentry := db.dentry.put db.now e
      dentry_fk := by
        intro k e' he'
        rw [AuditedTable.find_put] at he'
        split_ifs at he' with hk
        · exact Option.some.inj he' ▸ h.2
        · exact db.dentry_fk k e' he' }
  else none

/-- `UPDATE dentry SET … WHERE parent_id=p AND name=n`, refused where the new name is taken or an
inode is missing. Where no row has the name the statement does nothing. -/
def updateDentry (db : Db X) (p : ℕ) (n : Name) (f : DentryRow → DentryRow) : Option (Db X) :=
  match he : db.dentry.find (p, n) with
  | none => some db
  | some e =>
    match ht : db.dentry.rekey rfl db.now (p, n) f with
    | none => none
    | some t =>
      if h : (db.metadata.find (f e).parentId).isSome ∧
          (db.metadata.find (f e).childId).isSome then
        some { db with
          dentry := t
          dentry_fk := by
            intro k e' he'
            rw [AuditedTable.find_rekey he ht] at he'
            split_ifs at he' with h₁ h₂
            · exact Option.some.inj he' ▸ h
            · exact db.dentry_fk k e' he' }
      else none

/-- `DELETE FROM dentry WHERE parent_id=p AND name=n`. The inode is left alone, whether or not this
was its last entry. -/
def deleteDentryRow (db : Db X) (p : ℕ) (n : Name) : Db X :=
  { db with
    dentry := db.dentry.erase db.now (p, n)
    dentry_fk := by
      intro k e he
      rw [AuditedTable.find_erase] at he
      split_ifs at he with hk
      exact db.dentry_fk k e he }

/-- `REPLACE INTO data`, refused where the inode is missing. A row that it replaces is not logged as
deleted, since the triggers are not recursive. -/
def replaceData (db : Db X) (r : DataRow) : Option (Db X) :=
  if h : (db.metadata.find r.fileId).isSome then
    some { db with
      data := db.data.put db.now r
      data_fk := by
        intro k r' hr'
        rw [AuditedTable.find_put] at hr'
        split_ifs at hr' with hk
        · exact Option.some.inj hr' ▸ h
        · exact db.data_fk k r' hr' }
  else none

/-- `UPDATE data SET data=b WHERE file_id=i AND block_num=k`, whose trigger logs a difference. -/
def updateData (db : Db X) (i k : ℕ) (b : Bytes) : Db X :=
  { db with
    data := db.data.update db.now (i, k) (fun r => r.withData b) (dataSpec_key_withData X b)
    data_fk := by
      intro k' r hr
      rw [AuditedTable.find_update] at hr
      split_ifs at hr with hk
      · obtain ⟨r', hr', rfl⟩ := Option.map_eq_some_iff.1 hr
        exact db.data_fk _ r' hr'
      · exact db.data_fk k' r hr }

/-- `INSERT INTO data … ON CONFLICT (file_id, block_num) DO UPDATE SET data=excluded.data`. -/
def upsertData (db : Db X) (r : DataRow) : Option (Db X) :=
  match db.data.find (r.fileId, r.blockNum) with
  | some _ => some (db.updateData r.fileId r.blockNum r.data)
  | none => db.replaceData r

/-- `DELETE FROM data WHERE file_id=i AND block_num=k`, as one step of a deletion of several blocks.
-/
def deleteDataRow (db : Db X) (i k : ℕ) : Db X :=
  { db with
    data := db.data.erase db.now (i, k)
    data_fk := by
      intro k' r hr
      rw [AuditedTable.find_erase] at hr
      split_ifs at hr with hk
      exact db.data_fk k' r hr }

/-- `REPLACE INTO xattr`, refused where the inode is missing. As with `data`, a row that it replaces
is not logged as deleted. -/
def replaceXattr (db : Db X) (r : XattrRow) : Option (Db X) :=
  if h : (db.metadata.find r.fileId).isSome then
    some { db with
      xattr := db.xattr.put db.now r
      xattr_fk := by
        intro k r' hr'
        rw [AuditedTable.find_put] at hr'
        split_ifs at hr' with hk
        · exact Option.some.inj hr' ▸ h
        · exact db.xattr_fk k r' hr' }
  else none

/-- `DELETE FROM xattr WHERE file_id=i AND name=n`, which is no error where there is no such row. -/
def deleteXattrRow (db : Db X) (i : ℕ) (n : Name) : Db X :=
  { db with
    xattr := db.xattr.erase db.now (i, n)
    xattr_fk := by
      intro k r hr
      rw [AuditedTable.find_erase] at hr
      split_ifs at hr with hk
      exact db.xattr_fk k r hr }

/-- `DELETE FROM dentry` of the rows that satisfy `p`. -/
def deleteDentryWhere (db : Db X) (p : DentryRow → Bool) : Db X :=
  (db.dentry.rows.filter p).foldl (fun d e => d.deleteDentryRow e.parentId e.name) db

/-- `DELETE FROM data` of the rows that satisfy `p`. -/
def deleteDataWhere (db : Db X) (p : DataRow → Bool) : Db X :=
  (db.data.rows.filter p).foldl (fun d r => d.deleteDataRow r.fileId r.blockNum) db

/-- `DELETE FROM xattr` of the rows that satisfy `p`. -/
def deleteXattrWhere (db : Db X) (p : XattrRow → Bool) : Db X :=
  (db.xattr.rows.filter p).foldl (fun d r => d.deleteXattrRow r.fileId r.name) db

/-! ### What lookups find after a statement -/

section Find

variable (db : Db X)

@[simp] theorem metadata_find_insertMetadata (m : MetadataRow) (i : ℕ) :
    (db.insertMetadata m).metadata.find i =
      if i = db.sqliteSequence + 1 then some (m.withId (db.sqliteSequence + 1))
      else db.metadata.find i := by
  simp only [insertMetadata, AuditedTable.find_put, metadataSpec_key, MetadataRow.withId,
    eq_comm]

@[simp] theorem dentry_insertMetadata (m : MetadataRow) :
    (db.insertMetadata m).dentry = db.dentry := rfl

@[simp] theorem data_insertMetadata (m : MetadataRow) :
    (db.insertMetadata m).data = db.data := rfl

@[simp] theorem xattr_insertMetadata (m : MetadataRow) :
    (db.insertMetadata m).xattr = db.xattr := rfl

@[simp] theorem sqliteSequence_insertMetadata (m : MetadataRow) :
    (db.insertMetadata m).sqliteSequence = db.sqliteSequence + 1 := rfl

@[simp] theorem metadata_find_updateMetadata (i : ℕ) (f : MetadataRow → MetadataRow) (j : ℕ) :
    (db.updateMetadata i f).metadata.find j =
      if j = i then (db.metadata.find i).map fun m => (f m).withId m.id
      else db.metadata.find j :=
  db.metadata.find_update _ _ _ (metadataSpec_key_withId f) j

@[simp] theorem dentry_updateMetadata (i : ℕ) (f : MetadataRow → MetadataRow) :
    (db.updateMetadata i f).dentry = db.dentry := rfl

@[simp] theorem data_updateMetadata (i : ℕ) (f : MetadataRow → MetadataRow) :
    (db.updateMetadata i f).data = db.data := rfl

@[simp] theorem xattr_updateMetadata (i : ℕ) (f : MetadataRow → MetadataRow) :
    (db.updateMetadata i f).xattr = db.xattr := rfl

@[simp] theorem sqliteSequence_updateMetadata (i : ℕ) (f : MetadataRow → MetadataRow) :
    (db.updateMetadata i f).sqliteSequence = db.sqliteSequence := rfl

variable {db}

theorem insertDentry_eq_some {e : DentryRow} {db' : Db X} (h : db.insertDentry e = some db') :
    db.dentry.find (e.parentId, e.name) = none ∧ (db.metadata.find e.parentId).isSome ∧
      (db.metadata.find e.childId).isSome ∧ db'.metadata = db.metadata ∧
      db'.dentry = db.dentry.put db.now e ∧ db'.data = db.data ∧ db'.xattr = db.xattr ∧
      db'.sqliteSequence = db.sqliteSequence := by
  unfold insertDentry at h
  split_ifs at h with hc
  obtain rfl := Option.some.inj h
  exact ⟨hc.1, hc.2.1, hc.2.2, rfl, rfl, rfl, rfl, rfl⟩

theorem insertDentry_eq_none {e : DentryRow} (h : db.insertDentry e = none) :
    ¬ (db.dentry.find (e.parentId, e.name) = none ∧ (db.metadata.find e.parentId).isSome ∧
      (db.metadata.find e.childId).isSome) := by
  intro hc
  unfold insertDentry at h
  rw [dif_pos hc] at h
  exact absurd h (by simp)

theorem updateDentry_of_find_none {p : ℕ} {n : Name} (hf : db.dentry.find (p, n) = none)
    (f : DentryRow → DentryRow) : db.updateDentry p n f = some db := by
  unfold updateDentry
  split
  · rfl
  · rename_i heq
    rw [heq] at hf
    exact absurd hf (by simp)

theorem updateDentry_eq_some {p : ℕ} {n : Name} {f : DentryRow → DentryRow} {e : DentryRow}
    {db' : Db X} (he : db.dentry.find (p, n) = some e) (h : db.updateDentry p n f = some db') :
    (db.metadata.find (f e).parentId).isSome ∧ (db.metadata.find (f e).childId).isSome ∧
      db'.metadata = db.metadata ∧
      db.dentry.rekey rfl db.now (p, n) f = some db'.dentry ∧ db'.data = db.data ∧
      db'.xattr = db.xattr ∧ db'.sqliteSequence = db.sqliteSequence := by
  unfold updateDentry at h
  split at h
  · rename_i heq
    rw [heq] at he
    exact absurd he (by simp)
  · rename_i e' heq
    obtain rfl : e' = e := Option.some.inj (heq.symm.trans he)
    split at h
    · exact absurd h (by simp)
    · rename_i t ht
      split_ifs at h with hc
      obtain rfl := Option.some.inj h
      exact ⟨hc.1, hc.2, rfl, ht, rfl, rfl, rfl⟩

theorem updateDentry_isSome {p : ℕ} {n : Name} {f : DentryRow → DentryRow} {e : DentryRow}
    (he : db.dentry.find (p, n) = some e)
    (hfree : ((f e).parentId, (f e).name) = (p, n) ∨
      db.dentry.find ((f e).parentId, (f e).name) = none)
    (hp : (db.metadata.find (f e).parentId).isSome)
    (hc : (db.metadata.find (f e).childId).isSome) : ∃ db', db.updateDentry p n f = some db' := by
  unfold updateDentry
  split
  · exact ⟨db, rfl⟩
  · rename_i e' heq
    obtain rfl : e' = e := Option.some.inj (heq.symm.trans he)
    split
    · rename_i ht
      obtain ⟨t, ht'⟩ := AuditedTable.rekey_isSome (rfl : dentrySpec.rekeys = true) db.now he hfree
      rw [ht] at ht'
      exact absurd ht' (by simp)
    · exact ⟨_, dif_pos ⟨hp, hc⟩⟩

theorem replaceData_eq_some {r : DataRow} {db' : Db X} (h : db.replaceData r = some db') :
    (db.metadata.find r.fileId).isSome ∧ db'.metadata = db.metadata ∧
      db'.dentry = db.dentry ∧ db'.data = db.data.put db.now r ∧ db'.xattr = db.xattr ∧
      db'.sqliteSequence = db.sqliteSequence := by
  unfold replaceData at h
  split_ifs at h with hc
  obtain rfl := Option.some.inj h
  exact ⟨hc, rfl, rfl, rfl, rfl, rfl⟩

theorem replaceData_isSome {r : DataRow} (h : (db.metadata.find r.fileId).isSome) :
    (db.replaceData r).isSome := by
  unfold replaceData
  rw [dif_pos h]
  rfl

/-- An upsert fails only where the inode is missing; else the block holds the new bytes. -/
theorem upsertData_eq_some {r : DataRow} {db' : Db X} (h : db.upsertData r = some db') :
    (db.metadata.find r.fileId).isSome ∧ db'.metadata = db.metadata ∧
      db'.dentry = db.dentry ∧ db'.xattr = db.xattr ∧
      db'.sqliteSequence = db.sqliteSequence ∧
      ∀ k, db'.data.find k = if k = (r.fileId, r.blockNum) then some r else db.data.find k := by
  unfold upsertData at h
  split at h
  · rename_i r' hr'
    obtain rfl := Option.some.inj h
    have hkey := AuditedTable.key_of_find hr'
    simp only [dataSpec_key, Prod.mk.injEq] at hkey
    refine ⟨hkey.1 ▸ db.data_fk _ r' hr', rfl, rfl, rfl, rfl, fun k => ?_⟩
    refine (db.data.find_update _ _ _ (dataSpec_key_withData X r.data) k).trans ?_
    rw [hr', Option.map_some, DataRow.withData, hkey.1, hkey.2]
  · obtain ⟨hm, h₁, h₂, h₃, h₄, h₅⟩ := replaceData_eq_some h
    refine ⟨hm, h₁, h₂, h₄, h₅, fun k => ?_⟩
    rw [h₃, AuditedTable.find_put]
    simp only [dataSpec_key, eq_comm]

theorem upsertData_isSome {r : DataRow} (h : (db.metadata.find r.fileId).isSome) :
    (db.upsertData r).isSome := by
  unfold upsertData
  split
  · rfl
  · exact replaceData_isSome h

theorem replaceXattr_isSome {r : XattrRow} (h : (db.metadata.find r.fileId).isSome) :
    (db.replaceXattr r).isSome := by
  rw [replaceXattr, dif_pos h]
  rfl

theorem replaceXattr_eq_some {r : XattrRow} {db' : Db X} (h : db.replaceXattr r = some db') :
    (db.metadata.find r.fileId).isSome ∧ db'.metadata = db.metadata ∧
      db'.dentry = db.dentry ∧ db'.data = db.data ∧ db'.xattr = db.xattr.put db.now r ∧
      db'.sqliteSequence = db.sqliteSequence := by
  unfold replaceXattr at h
  split_ifs at h with hc
  obtain rfl := Option.some.inj h
  exact ⟨hc, rfl, rfl, rfl, rfl, rfl⟩

variable (db)

@[simp] theorem dentry_find_deleteDentryRow (p : ℕ) (n : Name) (k : ℕ × Name) :
    (db.deleteDentryRow p n).dentry.find k = if k = (p, n) then none else db.dentry.find k :=
  AuditedTable.find_erase ..

@[simp] theorem metadata_deleteDentryRow (p : ℕ) (n : Name) :
    (db.deleteDentryRow p n).metadata = db.metadata := rfl

@[simp] theorem data_deleteDentryRow (p : ℕ) (n : Name) :
    (db.deleteDentryRow p n).data = db.data := rfl

@[simp] theorem xattr_deleteDentryRow (p : ℕ) (n : Name) :
    (db.deleteDentryRow p n).xattr = db.xattr := rfl

@[simp] theorem sqliteSequence_deleteDentryRow (p : ℕ) (n : Name) :
    (db.deleteDentryRow p n).sqliteSequence = db.sqliteSequence := rfl

@[simp] theorem data_find_deleteDataRow (i b : ℕ) (k : ℕ × ℕ) :
    (db.deleteDataRow i b).data.find k = if k = (i, b) then none else db.data.find k :=
  AuditedTable.find_erase ..

@[simp] theorem xattr_find_deleteXattrRow (i : ℕ) (n : Name) (k : ℕ × Name) :
    (db.deleteXattrRow i n).xattr.find k = if k = (i, n) then none else db.xattr.find k :=
  AuditedTable.find_erase ..

end Find

/-! ### Statements that delete several rows -/

section Where

/-- A part of the state that no step of a fold changes is the same after it. -/
theorem foldl_eq_of_forall {σ ρ β : Type} (g : σ → β) (f : σ → ρ → σ)
    (h : ∀ s r, g (f s r) = g s) : (l : List ρ) → (s : σ) → g (l.foldl f s) = g s
  | [], _ => rfl
  | r :: l, s => (foldl_eq_of_forall g f h l (f s r)).trans (h s r)

variable (db : Db X)

@[simp] theorem metadata_deleteDentryWhere (p : DentryRow → Bool) :
    (db.deleteDentryWhere p).metadata = db.metadata :=
  foldl_eq_of_forall Db.metadata (fun d (e : DentryRow) => d.deleteDentryRow e.parentId e.name)
    (fun _ _ => rfl) _ db

@[simp] theorem data_deleteDentryWhere (p : DentryRow → Bool) :
    (db.deleteDentryWhere p).data = db.data :=
  foldl_eq_of_forall Db.data (fun d (e : DentryRow) => d.deleteDentryRow e.parentId e.name)
    (fun _ _ => rfl) _ db

@[simp] theorem xattr_deleteDentryWhere (p : DentryRow → Bool) :
    (db.deleteDentryWhere p).xattr = db.xattr :=
  foldl_eq_of_forall Db.xattr (fun d (e : DentryRow) => d.deleteDentryRow e.parentId e.name)
    (fun _ _ => rfl) _ db

@[simp] theorem sqliteSequence_deleteDentryWhere (p : DentryRow → Bool) :
    (db.deleteDentryWhere p).sqliteSequence = db.sqliteSequence :=
  foldl_eq_of_forall Db.sqliteSequence (fun d (e : DentryRow) =>
    d.deleteDentryRow e.parentId e.name)
    (fun _ _ => rfl) _ db

@[simp] theorem dentry_find_deleteDentryWhere (p : DentryRow → Bool) (k : ℕ × Name) :
    (db.deleteDentryWhere p).dentry.find k = (db.dentry.find k).filter (!p ·) :=
  AuditedTable.find_foldl_erase_filter Db.dentry _
    (fun d (e : DentryRow) k => dentry_find_deleteDentryRow d e.parentId e.name k) p db k

@[simp] theorem metadata_deleteDataWhere (p : DataRow → Bool) :
    (db.deleteDataWhere p).metadata = db.metadata :=
  foldl_eq_of_forall Db.metadata (fun d (r : DataRow) => d.deleteDataRow r.fileId r.blockNum)
    (fun _ _ => rfl) _ db

@[simp] theorem dentry_deleteDataWhere (p : DataRow → Bool) :
    (db.deleteDataWhere p).dentry = db.dentry :=
  foldl_eq_of_forall Db.dentry (fun d (r : DataRow) => d.deleteDataRow r.fileId r.blockNum)
    (fun _ _ => rfl) _ db

@[simp] theorem xattr_deleteDataWhere (p : DataRow → Bool) :
    (db.deleteDataWhere p).xattr = db.xattr :=
  foldl_eq_of_forall Db.xattr (fun d (r : DataRow) => d.deleteDataRow r.fileId r.blockNum)
    (fun _ _ => rfl) _ db

@[simp] theorem sqliteSequence_deleteDataWhere (p : DataRow → Bool) :
    (db.deleteDataWhere p).sqliteSequence = db.sqliteSequence :=
  foldl_eq_of_forall Db.sqliteSequence (fun d (r : DataRow) => d.deleteDataRow r.fileId r.blockNum)
    (fun _ _ => rfl) _ db

@[simp] theorem data_find_deleteDataWhere (p : DataRow → Bool) (k : ℕ × ℕ) :
    (db.deleteDataWhere p).data.find k = (db.data.find k).filter (!p ·) :=
  AuditedTable.find_foldl_erase_filter Db.data _
    (fun d (r : DataRow) k => data_find_deleteDataRow d r.fileId r.blockNum k) p db k

@[simp] theorem metadata_deleteXattrWhere (p : XattrRow → Bool) :
    (db.deleteXattrWhere p).metadata = db.metadata :=
  foldl_eq_of_forall Db.metadata (fun d (r : XattrRow) => d.deleteXattrRow r.fileId r.name)
    (fun _ _ => rfl) _ db

@[simp] theorem dentry_deleteXattrWhere (p : XattrRow → Bool) :
    (db.deleteXattrWhere p).dentry = db.dentry :=
  foldl_eq_of_forall Db.dentry (fun d (r : XattrRow) => d.deleteXattrRow r.fileId r.name)
    (fun _ _ => rfl) _ db

@[simp] theorem data_deleteXattrWhere (p : XattrRow → Bool) :
    (db.deleteXattrWhere p).data = db.data :=
  foldl_eq_of_forall Db.data (fun d (r : XattrRow) => d.deleteXattrRow r.fileId r.name)
    (fun _ _ => rfl) _ db

@[simp] theorem sqliteSequence_deleteXattrWhere (p : XattrRow → Bool) :
    (db.deleteXattrWhere p).sqliteSequence = db.sqliteSequence :=
  foldl_eq_of_forall Db.sqliteSequence (fun d (r : XattrRow) => d.deleteXattrRow r.fileId r.name)
    (fun _ _ => rfl) _ db

@[simp] theorem xattr_find_deleteXattrWhere (p : XattrRow → Bool) (k : ℕ × Name) :
    (db.deleteXattrWhere p).xattr.find k = (db.xattr.find k).filter (!p ·) :=
  AuditedTable.find_foldl_erase_filter Db.xattr _
    (fun d (r : XattrRow) k => xattr_find_deleteXattrRow d r.fileId r.name k) p db k

/-- The deletions that `ON DELETE CASCADE` adds to the deletion of inode `i`. -/
def cascade (i : ℕ) : Db X :=
  (((db.deleteXattrWhere fun r => r.fileId = i).deleteDataWhere fun r => r.fileId = i)
    |>.deleteDentryWhere fun e => e.childId = i)
    |>.deleteDentryWhere fun e => e.parentId = i

@[simp] theorem metadata_cascade (i : ℕ) : (db.cascade i).metadata = db.metadata := by
  simp [cascade]

@[simp] theorem sqliteSequence_cascade (i : ℕ) :
    (db.cascade i).sqliteSequence = db.sqliteSequence := by
  simp [cascade]

theorem dentry_find_cascade (i : ℕ) (k : ℕ × Name) (e : DentryRow) :
    (db.cascade i).dentry.find k = some e ↔
      db.dentry.find k = some e ∧ e.parentId ≠ i ∧ e.childId ≠ i := by
  simp only [cascade, dentry_find_deleteDentryWhere, dentry_deleteDataWhere,
    dentry_deleteXattrWhere, Option.filter_eq_some_iff, Bool.not_eq_true', decide_eq_false_iff_not]
  tauto

theorem data_find_cascade (i : ℕ) (k : ℕ × ℕ) :
    (db.cascade i).data.find k = if k.1 = i then none else db.data.find k := by
  simp only [cascade, data_deleteDentryWhere, data_find_deleteDataWhere, data_deleteXattrWhere]
  cases hr : db.data.find k with
  | none => simp
  | some r =>
    have hkey : r.fileId = k.1 := congrArg Prod.fst (AuditedTable.key_of_find hr)
    by_cases hi : k.1 = i <;> simp [Option.filter, hkey, hi]

theorem xattr_find_cascade (i : ℕ) (k : ℕ × Name) :
    (db.cascade i).xattr.find k = if k.1 = i then none else db.xattr.find k := by
  simp only [cascade, xattr_deleteDentryWhere, xattr_deleteDataWhere,
    xattr_find_deleteXattrWhere]
  cases hr : db.xattr.find k with
  | none => simp
  | some r =>
    have hkey : r.fileId = k.1 := congrArg Prod.fst (AuditedTable.key_of_find hr)
    by_cases hi : k.1 = i <;> simp [Option.filter, hkey, hi]

/-- The deletion of a row of `metadata` that no other table refers to. -/
def eraseMetadata (i : ℕ)
    (hd : ∀ k e, db.dentry.find k = some e → e.parentId ≠ i ∧ e.childId ≠ i)
    (hb : ∀ k r, db.data.find k = some r → r.fileId ≠ i)
    (hx : ∀ k r, db.xattr.find k = some r → r.fileId ≠ i) : Db X :=
  { db with
    metadata := db.metadata.erase db.now i
    dentry_fk := by
      intro k e he
      have h := db.dentry_fk k e he
      have hne := hd k e he
      simpa only [AuditedTable.find_erase, if_neg hne.1, if_neg hne.2] using h
    data_fk := by
      intro k r hr
      have h := db.data_fk k r hr
      simpa only [AuditedTable.find_erase, if_neg (hb k r hr)] using h
    xattr_fk := by
      intro k r hr
      have h := db.xattr_fk k r hr
      simpa only [AuditedTable.find_erase, if_neg (hx k r hr)] using h
    sequence_bound := by
      intro j hj
      rw [AuditedTable.find_erase] at hj
      split_ifs at hj
      · exact absurd hj (by simp)
      · exact db.sequence_bound j hj }

theorem fileId_ne_of_data_find_cascade (i : ℕ) (k : ℕ × ℕ) (r : DataRow)
    (hr : (db.cascade i).data.find k = some r) : r.fileId ≠ i := by
  have hkey : r.fileId = k.1 := congrArg Prod.fst (AuditedTable.key_of_find hr)
  rw [data_find_cascade] at hr
  split_ifs at hr with hi
  rwa [hkey]

theorem fileId_ne_of_xattr_find_cascade (i : ℕ) (k : ℕ × Name) (r : XattrRow)
    (hr : (db.cascade i).xattr.find k = some r) : r.fileId ≠ i := by
  have hkey : r.fileId = k.1 := congrArg Prod.fst (AuditedTable.key_of_find hr)
  rw [xattr_find_cascade] at hr
  split_ifs at hr with hi
  rwa [hkey]

/-- `DELETE FROM metadata WHERE id=i`, with its cascades. SQLite runs the cascades of a row before
its delete trigger. -/
def deleteMetadata (i : ℕ) : Db X :=
  match db.metadata.find i with
  | none => db
  | some _ => (db.cascade i).eraseMetadata i
      (fun k e he => ((db.dentry_find_cascade i k e).1 he).2)
      (db.fileId_ne_of_data_find_cascade i) (db.fileId_ne_of_xattr_find_cascade i)

theorem metadata_find_deleteMetadata (i j : ℕ) :
    (db.deleteMetadata i).metadata.find j = if j = i then none else db.metadata.find j := by
  unfold deleteMetadata
  split
  · rename_i hi
    split_ifs with hj
    · rw [hj, hi]
    · rfl
  · exact (AuditedTable.find_erase ..).trans (by rw [metadata_cascade])

theorem dentry_find_deleteMetadata (i : ℕ) (k : ℕ × Name) (e : DentryRow) :
    (db.deleteMetadata i).dentry.find k = some e ↔
      db.dentry.find k = some e ∧ e.parentId ≠ i ∧ e.childId ≠ i := by
  unfold deleteMetadata
  split
  · rename_i hi
    refine ⟨fun he => ⟨he, ?_⟩, And.left⟩
    have h := db.dentry_fk k e he
    constructor <;> rintro rfl <;> simp [hi] at h
  · exact db.dentry_find_cascade i k e

theorem data_find_deleteMetadata (i : ℕ) (k : ℕ × ℕ) :
    (db.deleteMetadata i).data.find k = if k.1 = i then none else db.data.find k := by
  unfold deleteMetadata
  split
  · rename_i hi
    split_ifs with hk
    · cases hr : db.data.find k with
      | none => rfl
      | some r =>
        have hkey : r.fileId = k.1 := congrArg Prod.fst (AuditedTable.key_of_find hr)
        have h := db.data_fk k r hr
        rw [hkey, hk, hi] at h
        exact absurd h (by simp)
    · rfl
  · exact db.data_find_cascade i k

theorem xattr_find_deleteMetadata (i : ℕ) (k : ℕ × Name) :
    (db.deleteMetadata i).xattr.find k = if k.1 = i then none else db.xattr.find k := by
  unfold deleteMetadata
  split
  · rename_i hi
    split_ifs with hk
    · cases hr : db.xattr.find k with
      | none => rfl
      | some r =>
        have hkey : r.fileId = k.1 := congrArg Prod.fst (AuditedTable.key_of_find hr)
        have h := db.xattr_fk k r hr
        rw [hkey, hk, hi] at h
        exact absurd h (by simp)
    · rfl
  · exact db.xattr_find_cascade i k

@[simp] theorem sqliteSequence_deleteMetadata (i : ℕ) :
    (db.deleteMetadata i).sqliteSequence = db.sqliteSequence := by
  unfold deleteMetadata
  split
  · rfl
  · exact db.sqliteSequence_cascade i

end Where

end Db

end TemporalFs
