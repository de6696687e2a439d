import Mathlib
import TemporalFs.Lib.Proc
import TemporalFs.Lib.Rewind
import TemporalFs.Db.Schema

/-!
# The methods of `Sqlite`

The functions of `src/db_module/sqlite.rs`. Those that take a `tx: &Connection` are programs over
the database (`Conn`); a method of `Sqlite` takes the connection's settings as `self`, the reading
of the clock it makes as `now`, and runs in a transaction where the source opens one.

An `Err` is a stop with the kind of its error; the descriptions are only logged and are left out.

## Main definitions

* `DBFileAttr`, `parseAttr`, `getInodeLocal`: attributes of an inode.
* `releaseData`, `applyDiffs`, `addInodeLocal`: the local functions.
* `Sqlite` and its methods `Sqlite.init`, `Sqlite.addInodeAndDentry`, `Sqlite.updateInode`,
  `Sqlite.moveDentry`, `Sqlite.writeData` and so on.
-/

namespace TemporalFs

/-- The kinds of `sqerror::Error`. -/
inductive ErrorKind
  | SqliteError
  | FsIsDir
  | FsIsNotDir
  | FsNoEnt
  | FsNotEmpty
  | FsFileExist
  | FsParm
  | Undefined
  deriving DecidableEq, Repr

/-- Why a method returns no value: an `Err` with the kind of its error, or a panic, which unwinds
through the caller. -/
inductive Stop
  | err (kind : ErrorKind)
  | panic
  deriving DecidableEq, Repr

/-- A program over the database behind a connection: the functions of the source that take a `tx:
&Connection`. It stops with an error or returns a value, and in both cases leaves a database. -/
abbrev Conn (X : Externals) (α : Type) := Proc (Db X) Stop α

variable {X : Externals}

/-- Run a statement that the constraints of its table may refuse. A refused statement changes
nothing and ends the method with the error of SQLite. -/
def execute (f : Db X → Option (Db X)) : Conn X Unit := Proc.step f (.err .SqliteError)

/-- Run a statement that no constraint can refuse, such as a deletion or an update that keeps the
keys. -/
def executeAll (f : Db X → Db X) : Conn X Unit := Proc.modify f

/-- `BLOCK_SIZE`: the contents of a file are stored in blocks of so many bytes. -/
def blockSize : ℕ := 4096

/-- `Vec::resize` with zeros: the first `n` bytes, filled up with zeros where there are fewer. -/
def resize (data : Bytes) (n : ℕ) : Bytes := data.take n ++ List.replicate (n - data.length) 0

/-! ### Times -/

/-- SQLite's `datetime()`, which is documented for the years 0 to 9999. It gives `NULL` for later
years; that it does so for earlier ones is an assumption, as SQLite carries some of them on. -/
def datetime (sec : ℤ) : Option ℤ :=
  if -62167219200 ≤ sec ∧ sec ≤ 253402300799 then some sec else none

/-- The seconds that a `chrono` date can represent, from the first second of the smallest year to
the last second of the largest. -/
def inChronoRange (sec : ℤ) : Prop := -8334632851200 ≤ sec ∧ sec ≤ 8210298412799

instance (sec : ℤ) : Decidable (inChronoRange sec) := inferInstanceAs (Decidable (_ ∧ _))

/-- A reading of the clock: from the epoch to the end of the year 9999. -/
def Now : Type := { t : SystemTime // 0 ≤ t.sec ∧ t.sec ≤ 253402300799 }

instance : DecidableEq Now := inferInstanceAs (DecidableEq { _t : SystemTime // _ })

/-- The clock at the epoch, for samples. -/
def epoch : Now := ⟨⟨0, 0⟩, by decide⟩

/-- The columns of a time that an `INSERT` stores as it is formatted. -/
def SystemTime.formatted (t : SystemTime) : TimeColumn := ⟨some t.sec, t.nsec⟩

/-- The columns of a time that an `UPDATE` passes through `datetime()`: the nanoseconds are stored
in any case, the text only where `datetime()` gives one. -/
def SystemTime.throughDatetime (t : SystemTime) : TimeColumn := ⟨datetime t.sec, t.nsec⟩

/-- `string_to_systemtime` on the columns of a row; a `NULL` text cannot be read. -/
def stringToSystemtime (c : TimeColumn) : Option SystemTime := c.text.map fun s => ⟨s, c.nsec⟩

/-- `DateTime::<Utc>::from`, which panics out of the range of dates and gives the same point in time
else. -/
def utcFrom (t : SystemTime) : Conn X SystemTime := do
  Proc.require (inChronoRange t.sec) .panic
  pure t

/-! ### Attributes -/

/-- The attributes of an inode as the methods return them. They join the row of `metadata` with the
number of links and the number of blocks. -/
structure DBFileAttr where
  ino : ℕ
  size : UInt32
  blocks : ℕ
  atime : SystemTime
  mtime : SystemTime
  ctime : SystemTime
  crtime : SystemTime
  kind : FileType
  perm : UInt16
  nlink : ℕ
  uid : UInt32
  gid : UInt32
  rdev : UInt32
  flags : UInt32
  deriving DecidableEq

/-- The attributes of a result row, where every column can be read: `nlink` comes from a left join
and is `NULL` without a match. -/
def MetadataRow.attr (m : MetadataRow) (nlink : Option ℕ) (blocks : ℕ) : Option DBFileAttr := do
  let atime ← stringToSystemtime m.atime
  let mtime ← stringToSystemtime m.mtime
  let ctime ← stringToSystemtime m.ctime
  let crtime ← stringToSystemtime m.crtime
  let nlink ← nlink
  pure ⟨m.id, m.size, blocks, atime, mtime, ctime, crtime, m.kind, m.mode, nlink, m.uid, m.gid,
    m.rdev, m.flags⟩

/-- The first result row, provided that every row can be read: `parse_attr` collects all rows before
it takes the first, so that one bad row makes it fail. -/
def parseAttr (rows : List (Option DBFileAttr)) : Except Stop (Option DBFileAttr) :=
  if none ∈ rows then .error (.err .SqliteError)
  else .ok (rows.head?.bind id)

/-- `SELECT COUNT(child_id) … WHERE child_id=inode GROUP BY child_id`, which has no row for a
count of zero. -/
def nlink (rows : List DentryRow) (inode : ℕ) : Option ℕ :=
  let n := rows.countP fun e => e.childId = inode
  if n = 0 then none else some n

/-- `SELECT count(block_num) … WHERE file_id=inode`: how many blocks of the inode are stored. -/
def countBlocks (rows : List DataRow) (inode : ℕ) : ℕ := rows.countP fun r => r.fileId = inode

/-- The result of a query as a program: the database is read and left as it is. -/
def query {α : Type} (f : Db X → Except Stop α) : Conn X α := do
  let db ← Proc.get
  match f db with
  | .ok a => pure a
  | .error e => Proc.stop e

/-- The result of the query of `get_inode_local`: the row of the inode, joined with the number of
its entries and of its blocks. -/
def inodeAttr (inode : ℕ) (db : Db X) : Except Stop (Option DBFileAttr) :=
  parseAttr ((db.metadata.find inode).toList.map fun m =>
    m.attr (nlink db.dentry.rows inode) (countBlocks db.data.rows inode))

/-- The attributes of an inode. The call fails where no entry leads to the inode, as the join then
leaves the column `nlink` `NULL` and the row cannot be read. -/
def getInodeLocal (inode : ℕ) : Conn X (Option DBFileAttr) := query (inodeAttr inode)

/-- A directory entry as the methods return it, with the names that the struct has in the source. -/
structure DEntry where
  parentIno : ℕ
  childIno : ℕ
  fileType : FileType
  filename : Name
  deriving DecidableEq

/-- The entry `name` of a directory, if there is one. Whether the parent is a directory is not
asked. -/
def getDentrySingle (parent : ℕ) (name : Name) : Conn X (Option DEntry) := do
  let db ← Proc.get
  pure ((db.dentry.find (parent, name)).map fun e => ⟨parent, e.childId, e.fileType, name⟩)

/-! ### Local functions -/

/-- Release all data in `inode`, after `offset` byte. Where the offset lies in the middle of a
block, that block is cut to the bytes before it and stored short; a block that is missing there is
stored as zeros. -/
def releaseData (inode : ℕ) (offset : UInt32) : Conn X Unit :=
  if offset = 0 then executeAll fun db => db.deleteDataWhere fun r => r.fileId = inode
  else if offset.toNat % blockSize = 0 then
    executeAll fun db => db.deleteDataWhere fun r =>
      r.fileId = inode ∧ r.blockNum > offset.toNat / blockSize
  else do
    let block := offset.toNat / blockSize + 1
    let db ← Proc.get
    let data := match db.data.find (inode, block) with
      | some r => r.data
      | none => List.replicate blockSize 0
    execute fun db =>
      db.replaceData ⟨inode, block, resize data (offset.toNat % blockSize)⟩
    executeAll fun db => db.deleteDataWhere fun r => r.fileId = inode ∧ r.blockNum > block

/-- Record an access. The time passes through `datetime()` in the statement, and an inode without a
row is passed over. -/
def updateAtime (inode : ℕ) (time : Now) : Conn X Unit :=
  executeAll fun db => db.updateMetadata inode fun m => { m with atime := time.1.throughDatetime }

/-- Record a change of the contents, in the same way as an access. -/
def updateMtime (inode : ℕ) (time : Now) : Conn X Unit :=
  executeAll fun db => db.updateMetadata inode fun m => { m with mtime := time.1.throughDatetime }

/-- Record a change of the attributes, in the same way as an access. -/
def updateCtime (inode : ℕ) (time : Now) : Conn X Unit :=
  executeAll fun db => db.updateMetadata inode fun m => { m with ctime := time.1.throughDatetime }

/-- Insert an entry. The statement is refused where the name is taken or an inode is missing. -/
def addDentry (entry : DEntry) : Conn X Unit :=
  execute fun db =>
    db.insertDentry ⟨entry.parentIno, entry.childIno, entry.fileType, entry.filename⟩

/-- Delete an entry, unless it is `.` or `..`, in which case nothing happens and no error is given.
-/
def deleteDentryLocal (parent : ℕ) (name : Name) : Conn X Unit :=
  Proc.when (¬ (name = dotdot ∨ name = dot)) (executeAll fun db => db.deleteDentryRow parent name)

/-- Delete all entries of a directory, among them its own. What the entries lead to is not looked
at. -/
def deleteSubDentry (id : ℕ) : Conn X Unit :=
  executeAll fun db => db.deleteDentryWhere fun e => e.parentId = id

/-- Whether a directory has no entries but its own, given the rows of `dentry`. -/
def directoryIsEmpty (rows : List DentryRow) (inode : ℕ) : Bool :=
  (rows.filter fun e => e.parentId = inode).all fun e => e.name = dot ∨ e.name = dotdot

/-- Whether a directory has no entries but its own. An inode without any entry counts as empty. -/
def checkDirectoryIsEmptyLocal (inode : ℕ) : Conn X Bool := do
  let db ← Proc.get
  pure (directoryIsEmpty db.dentry.rows inode)

/-- Insert the row of an inode, with the times as they are formatted. The inode number comes from
`last_insert_rowid()`, read as a `u32`, so that the call fails when the numbers have run out; the
number in `attr` is not used. -/
def addInodeLocal (attr : DBFileAttr) : Conn X ℕ := do
  let atime ← utcFrom attr.atime
  let mtime ← utcFrom attr.mtime
  let ctime ← utcFrom attr.ctime
  let crtime ← utcFrom attr.crtime
  executeAll fun db => db.insertMetadata
    ⟨0, attr.size, atime.formatted, mtime.formatted, ctime.formatted, crtime.formatted, attr.kind,
      attr.perm, attr.uid, attr.gid, attr.rdev, attr.flags⟩
  let db ← Proc.get
  Proc.require (db.sqliteSequence < 2 ^ 32) (.err .SqliteError)
  pure db.sqliteSequence

/-! ### Replaying the log of `data` -/

/-- A block with the number of the audit entry from which its differences are to be applied. -/
structure BlockRelevantFrom where
  fileId : ℕ
  blockNum : ℕ
  seq : ℕ
  deriving DecidableEq

/-- `max(seq)` over the entries of a block with the operation `op`, or `none` where there is no such
entry. -/
def maxSeq (log : List (AuditRow DataRow)) (op : TgOp) (k : ℕ × ℕ) : Option ℕ :=
  ((log.filter fun e => e.tgOp = op ∧ (e.payload.fileId, e.payload.blockNum) = k).map
    AuditRow.seq).max?

/-- `GROUP BY file_id, block_num`, which SQLite carries out by sorting, so that the groups come in
the order of their keys. -/
def blockKeys (log : List (AuditRow DataRow)) : List (ℕ × ℕ) :=
  (log.map fun e => (e.payload.fileId, e.payload.blockNum)).dedup.insertionSort
    fun k k' => k.1 < k'.1 ∨ (k.1 = k'.1 ∧ k.2 ≤ k'.2)

/-- The blocks whose latest insertion follows their latest deletion, with the number of that
insertion. -/
def maxCreationSeqs (log : List (AuditRow DataRow)) : List BlockRelevantFrom :=
  (blockKeys log).filterMap fun k =>
    match maxSeq log .INSERT k with
    | none => none
    | some cr_seq =>
      match maxSeq log .DELETE k with
      | none => some ⟨k.1, k.2, cr_seq⟩
      | some de_seq => if cr_seq > de_seq then some ⟨k.1, k.2, cr_seq⟩ else none

/-- The blocks to be rebuilt. Every column is read as a `u32`, so that the call fails on a number
beyond. -/
def getMaxCreationSeq : Conn X (List BlockRelevantFrom) := do
  let db ← Proc.get
  let brfs := maxCreationSeqs db.data.audit
  Proc.require (∀ b ∈ brfs, b.fileId < 2 ^ 32 ∧ b.blockNum < 2 ^ 32 ∧ b.seq < 2 ^ 32)
    (.err .SqliteError)
  pure brfs

/-- `SELECT delta_apply($1, uncompress($2))`. Where one of the functions fails the patch is skipped,
and the next one is applied to the block as it was. -/
def applyPatch (X : Externals) (data patch : Bytes) : Bytes :=
  ((X.uncompress patch).bind (X.deltaApply data)).getD data

/-- Rebuild one block: the data of its insertion with the later differences applied, in the order of
the log. The statement that applies a patch cannot be prepared without the extensions. -/
def applyBrf (extensions : Bool) (brf : BlockRelevantFrom) : Conn X Unit := do
  let db ← Proc.get
  let data_and_patches := (db.data.audit.filter fun e =>
    e.payload.fileId = brf.fileId ∧ e.payload.blockNum = brf.blockNum ∧ e.seq ≥ brf.seq).map
      fun e => e.payload.data
  match data_and_patches with
  | [] => Proc.stop (.err .Undefined)
  | data :: patches =>
    Proc.require (patches = [] ∨ extensions) (.err .SqliteError)
    executeAll fun db => { db with bdata := db.bdata.map fun rows =>
      rows ++ [⟨brf.fileId, brf.blockNum, patches.foldl (applyPatch X) data⟩] }

/-- Build the table `bdata` anew, block by block. This is not a transaction: what was built before
an error stays in the table. -/
def applyDiffs (extensions : Bool) : Conn X Unit := do
  executeAll fun db => { db with bdata := none }
  executeAll fun db => { db with bdata := some [] }
  let brfs ← getMaxCreationSeq
  Proc.each (applyBrf extensions) brfs

/-! ### The tables of a rewound connection -/

/-- The temporary tables that `newAtTime` fills. A connection of another kind has none of them. -/
structure TempTables where
  tdentry : List DentryRow
  tdata : List DataRow
  txattr : List XattrRow
  tmetadata : List MetadataRow

/-- A connection's settings. -/
structure Sqlite where
  readOnly : Bool
  timeRecording : Bool
  /-- Whether `load_extensions` has been called. -/
  extensions : Bool
  /-- The temporary tables, where they have been made. -/
  temp : Option TempTables

namespace Sqlite

/-- `Sqlite::new`, which loads the extensions and records times; the journal settings do not matter
here. -/
def new : Sqlite := ⟨false, true, true, none⟩

/-- `Sqlite::new_no_time_recording`: the methods record no times, whatever the request. -/
def newNoTimeRecording : Sqlite := ⟨false, false, true, none⟩

/-- The queries that fill the temporary tables with what the four logs say of a time. -/
def tempTables (db : Db X) (time : ℕ) : TempTables where
  tdentry := view (fun e => (e.parentId, e.childId, e.name)) db.dentry.audit time
  tdata := view (dataSpec X).key db.data.audit time
  txattr := view xattrSpec.key db.xattr.audit time
  tmetadata := view metadataSpec.key db.metadata.audit time

/-- `Sqlite::new_at_time`: read-only, with the temporary tables of the time. The extensions are not
loaded. -/
def newAtTime (db : Db X) (time : ℕ) : Sqlite := ⟨true, true, false, some (tempTables db time)⟩

/-- `Sqlite::new_read_only`, which neither records times nor loads the extensions. The connection
itself could still write. -/
def newReadOnly : Sqlite := ⟨true, false, false, none⟩

/-- `Sqlite::new_in_memory`, which does not load the extensions either, so that no block can be
written. -/
def newInMemory : Sqlite := ⟨false, true, false, none⟩

/-- Read from a temporary table; without it the statement cannot be prepared. -/
def queryTemp {α : Type} (self : Sqlite) (f : TempTables → Except Stop α) : Conn X α := do
  let t ← Proc.ofOption self.temp (.err .SqliteError)
  match f t with
  | .ok a => pure a
  | .error e => Proc.stop e

/-- The root directory and its entries, each added if it is missing, and the table `bdata`. -/
def init (self : Sqlite) (now : Now) : Conn X Unit := do
  let db ← Proc.get
  Proc.when (db.metadata.find 1 = none) do
    let _ ← addInodeLocal
      ⟨1, 0, 0, now.1, now.1, now.1, now.1, .Directory, UInt16.ofNat 0o40777, 0, 0, 0, 0, 0⟩
    pure ()
  let db ← Proc.get
  Proc.when (db.dentry.find (1, dot) = none) (addDentry ⟨1, 1, .Directory, dot⟩)
  let db ← Proc.get
  Proc.when (db.dentry.find (1, dotdot) = none) (addDentry ⟨1, 1, .Directory, dotdot⟩)
  -- the result of `applyDiffs` is thrown away
  executeAll fun db => (applyDiffs self.extensions db).1

/-- A database just initialised, with a clock that counts audit rows, so that no two rows have the
same stamp. -/
def sampleDb : Db .sample := (Sqlite.new.init epoch (Db.empty .sample id)).1

/-- The attributes of an empty inode made at the epoch. -/
def sampleAttr (kind : FileType) : DBFileAttr :=
  ⟨0, 0, 0, epoch.1, epoch.1, epoch.1, epoch.1, kind, 0, 0, 0, 0, 0, 0⟩

/-- The attributes of an inode. A connection with a rewound time reads the present tables here. -/
def getInode (_self : Sqlite) (inode : ℕ) : Conn X (Option DBFileAttr) := getInodeLocal inode

/-- The rows of `tmetadata` with the id, where `tdentry` has an entry for the inode. -/
def inodeAttrAtTime (inode : ℕ) (t : TempTables) : Except Stop (Option DBFileAttr) :=
  parseAttr ((t.tmetadata.filter fun m =>
    m.id = inode ∧ (TemporalFs.nlink t.tdentry inode).isSome).map fun m =>
      m.attr (TemporalFs.nlink t.tdentry inode) (countBlocks t.tdata inode))

/-- The attributes that an inode had at the rewound time, from the temporary tables alone. -/
def getInodeAtTime (self : Sqlite) (inode : ℕ) : Conn X (Option DBFileAttr) :=
  self.queryTemp (inodeAttrAtTime inode)

/-- Add an inode with an entry for it in `parent`. A directory gets its own entries `.` and `..`. -/
def addInodeAndDentry (self : Sqlite) (now : Now) (parent : ℕ) (name : Name)
    (attr : DBFileAttr) : Conn X ℕ := Proc.atomically do
  let child ← addInodeLocal attr
  addDentry ⟨parent, child, attr.kind, name⟩
  Proc.when (attr.kind = .Directory) do
    addDentry ⟨child, parent, attr.kind, dotdot⟩
    addDentry ⟨child, child, attr.kind, dot⟩
  Proc.when self.timeRecording do
    updateMtime parent now
    updateCtime parent now
  pure child

/-- The statement of `updateInode`, which sets all columns but `id` and `kind`. -/
def setInode (attr : DBFileAttr) (atime mtime ctime crtime : SystemTime) (m : MetadataRow) :
    MetadataRow :=
  { m with
    size := attr.size, atime := atime.throughDatetime, mtime := mtime.throughDatetime
    ctime := ctime.throughDatetime, crtime := crtime.throughDatetime, mode := attr.perm
    uid := attr.uid, gid := attr.gid, rdev := attr.rdev, flags := attr.flags }

/-- Store all attributes of an inode but its kind, and release the data behind its new end if
`truncate` is set. The change time is that of the clock, and so is the modification time where the
size changes. -/
def updateInode (_self : Sqlite) (now : Now) (attr : DBFileAttr) (truncate : Bool) :
    Conn X Unit := Proc.atomically do
  let oldattr ← getInodeLocal attr.ino
  let oldattr ← Proc.ofOption oldattr (.err .FsNoEnt)
  let atime ← utcFrom attr.atime
  let mtime ← (if oldattr.size ≠ attr.size then pure now.1 else utcFrom attr.mtime)
  let crtime ← utcFrom attr.crtime
  executeAll fun db => db.updateMetadata attr.ino (setInode attr atime mtime now.1 crtime)
  Proc.when truncate (TemporalFs.releaseData attr.ino attr.size)

/-- Delete an inode that no entry leads to, and with it, by cascade, all that belongs to it.
Otherwise nothing happens. -/
def deleteInodeIfNoref (_self : Sqlite) (inode : ℕ) : Conn X Unit := Proc.atomically do
  let db ← Proc.get
  Proc.when (TemporalFs.nlink db.dentry.rows inode = none)
    (executeAll fun db => db.deleteMetadata inode)

/-- `SELECT child_id, file_type, name FROM … WHERE parent_id=inode ORDER BY name`, with names
compared byte by byte. -/
def dentryList (rows : List DentryRow) (inode : ℕ) : List DEntry :=
  ((rows.filter fun e => e.parentId = inode).insertionSort fun a b => a.name ≤ b.name).map
    fun e => ⟨inode, e.childId, e.fileType, e.name⟩

/-- The entries of a directory, ordered by name. An inode that is no directory has an empty list. -/
def getDentry (_self : Sqlite) (inode : ℕ) : Conn X (List DEntry) := do
  let db ← Proc.get
  pure (dentryList db.dentry.rows inode)

/-- The entries that a directory had at the rewound time. -/
def getDentryAtTime (self : Sqlite) (inode : ℕ) : Conn X (List DEntry) :=
  self.queryTemp fun t => .ok (dentryList t.tdentry inode)

/-- Give a regular file another name. The modification time of the file is recorded, not its change
time. -/
def linkDentry (self : Sqlite) (now : Now) (inode parent : ℕ) (name : Name) :
    Conn X DBFileAttr := Proc.atomically do
  let attr ← getInodeLocal inode
  let attr ← Proc.ofOption attr (.err .FsNoEnt)
  Proc.require (attr.kind = .RegularFile) (.err .FsParm)
  let new_inode ← getDentrySingle parent name
  Proc.require (new_inode = none) (.err .FsFileExist)
  addDentry ⟨parent, inode, .RegularFile, name⟩
  Proc.when self.timeRecording do
    updateMtime inode now
    updateMtime parent now
    updateCtime parent now
  pure attr

/-- Remove an entry, and with it all entries of the inode that it leads to. Returns that inode. -/
def deleteDentry (self : Sqlite) (now : Now) (parent : ℕ) (name : Name) : Conn X ℕ :=
  Proc.atomically do
    let db ← Proc.get
    let row ← Proc.ofOption (db.dentry.find (parent, name)) (.err .SqliteError)
    deleteDentryLocal parent name
    deleteSubDentry row.childId
    Proc.when self.timeRecording do
      updateCtime row.childId now
      updateMtime parent now
      updateCtime parent now
    pure row.childId

/-- The error for a target of another type than the source. It goes by the type of the target. -/
def typeMismatch : FileType → ErrorKind
  | .Directory => .FsIsDir
  | .RegularFile => .FsIsNotDir
  | _ => .Undefined

/-- The part of `moveDentry` that checks and removes an existing target. Of a directory only the
name is removed; its own entries stay. -/
def overwriteDentry (fileType : FileType) (new_parent : ℕ) (new_name : Name) :
    Option DEntry → Conn X (Option ℕ)
  | none => pure none
  | some v => do
    Proc.require (fileType = v.fileType) (.err (typeMismatch v.fileType))
    Proc.when (v.fileType = .Directory) do
      let empty ← checkDirectoryIsEmptyLocal v.childIno
      Proc.require (empty = true) (.err .FsNotEmpty)
    deleteDentryLocal new_parent new_name
    pure (some v.childIno)

/-- Move an entry to another place, where it replaces what was there; returns the inode that was
replaced. A directory that gets another parent has its entry `..` changed. -/
def moveDentry (self : Sqlite) (now : Now) (parent : ℕ) (name : Name) (new_parent : ℕ)
    (new_name : Name) : Conn X (Option ℕ) := Proc.atomically do
  let dentry ← getDentrySingle parent name
  let dentry ← Proc.ofOption dentry (.err .FsNoEnt)
  let exist_entry ← getDentrySingle new_parent new_name
  let res ← overwriteDentry dentry.fileType new_parent new_name exist_entry
  execute fun db => db.updateDentry parent name fun e =>
    { e with parentId := new_parent, name := new_name }
  Proc.when (parent ≠ new_parent ∧ dentry.fileType = .Directory)
    (execute fun db => db.updateDentry dentry.childIno dotdot fun e =>
      { e with childId := new_parent })
  Proc.when self.timeRecording do
    updateCtime dentry.childIno now
    updateMtime parent now
    updateCtime parent now
    Proc.when (parent ≠ new_parent) do
      updateMtime new_parent now
      updateCtime new_parent now
  pure res

/-- Whether a directory has no entries but its own, as a method. -/
def checkDirectoryIsEmpty (_self : Sqlite) (inode : ℕ) : Conn X Bool :=
  checkDirectoryIsEmptyLocal inode

/-- The number of blocks that `lookup` joins. The joined query counts all rows of the table and
takes `file_id`, a bare column, from one of them; without a match the column is `NULL`, read as
0. -/
def lookupBlocks (bareRow : List DataRow → ℕ) (rows : List DataRow) (inode : ℕ) : ℕ :=
  match rows[bareRow rows % rows.length]? with
  | some r => if r.fileId = inode then rows.length else 0
  | none => 0

/-- The result of the joined query of `lookup`: the entry, the row of the inode, the number of its
entries, and a number of blocks. -/
def lookupAttr (parent : ℕ) (name : Name) (db : Db X) : Except Stop (Option DBFileAttr) :=
  parseAttr (((db.dentry.find (parent, name)).bind fun e => db.metadata.find e.childId).toList.map
    fun m => m.attr (TemporalFs.nlink db.dentry.rows m.id)
      (lookupBlocks X.bareRow db.data.rows m.id))

/-- The result is kept while the access time is recorded and committed, and returned last. -/
def lookup (self : Sqlite) (now : Now) (parent : ℕ) (name : Name) :
    Conn X (Option DBFileAttr) := do
  let db ← Proc.get
  Proc.when self.timeRecording (updateAtime parent now)
  query fun _ => lookupAttr parent name db

/-- The result of the joined query of `lookup_at_time` on the temporary tables. -/
def lookupAttrAtTime (X : Externals) (parent : ℕ) (name : Name) (t : TempTables) :
    Except Stop (Option DBFileAttr) :=
  parseAttr ((t.tdentry.filter fun e => e.parentId = parent ∧ e.name = name).flatMap fun e =>
    (t.tmetadata.filter fun m => m.id = e.childId).map fun m =>
      m.attr (TemporalFs.nlink t.tdentry m.id) (lookupBlocks X.bareRow t.tdata m.id))

/-- The attributes that a name led to at the rewound time, from the temporary tables alone. No
access is recorded. -/
def lookupAtTime (self : Sqlite) (parent : ℕ) (name : Name) : Conn X (Option DBFileAttr) :=
  self.queryTemp (lookupAttrAtTime X parent name)

/-- The bytes of a block, or zeros if it is not stored. A connection that records times notes the
access. -/
def getData (self : Sqlite) (now : Now) (inode block : ℕ) (length : ℕ) : Conn X Bytes :=
  Proc.atomically do
    let db ← Proc.get
    let row := match db.data.find (inode, block) with
      | some r => r.data
      | none => List.replicate length 0
    Proc.when (¬ self.readOnly ∧ self.timeRecording) (updateAtime inode now)
    pure row

/-- The block in the temporary table `tdata`, or zeros. `query_row` takes the first row where there
are several. -/
def dataAtTime (inode block length : ℕ) (t : TempTables) : Bytes :=
  match t.tdata.find? fun r => r.fileId = inode ∧ r.blockNum = block with
  | some r => r.data
  | none => List.replicate length 0

/-- The bytes of a block in the temporary table, or zeros. The access is recorded in the present
table of inodes, also on a read-only mount. -/
def getDataAtTime (self : Sqlite) (now : Now) (inode block : ℕ) (length : ℕ) :
    Conn X Bytes := Proc.atomically do
  let row ← self.queryTemp fun t => .ok (dataAtTime inode block length t)
  Proc.when self.timeRecording (updateAtime inode now)
  pure row

/-- The update trigger is compiled with the upsert, so the statement needs the extensions whether
the block exists or not. -/
def writeData (self : Sqlite) (now : Now) (inode block : ℕ) (data : Bytes) (size : UInt32) :
    Conn X Unit := Proc.atomically do
  let db ← Proc.get
  let row ← Proc.ofOption (db.metadata.find inode) (.err .SqliteError)
  Proc.require (self.extensions = true) (.err .SqliteError)
  execute fun db => db.upsertData ⟨inode, block, data⟩
  Proc.when (size > row.size)
    (executeAll fun db => db.updateMetadata inode fun m => { m with size := size })
  Proc.when self.timeRecording do
    updateMtime inode now
    updateCtime inode now

/-- Delete all blocks of an inode. -/
def releaseData (_self : Sqlite) (inode : ℕ) : Conn X Unit :=
  executeAll fun db => db.deleteDataWhere fun r => r.fileId = inode

/-- Delete all inodes that no entry leads to. They are found before the first is deleted, so that
those which lose their last entry in between stay. -/
def deleteAllNorefInode (_self : Sqlite) : Conn X Unit :=
  executeAll fun db =>
    (db.metadata.rows.filter fun m => TemporalFs.nlink db.dentry.rows m.id = none).foldl
      (fun db m => db.deleteMetadata m.id) db

/-- The block size, which is the same for all databases. -/
def getDbBlockSize (_self : Sqlite) : ℕ := blockSize

/-- Set an extended attribute, whether it was there or not. The statement is a `REPLACE`, which the
foreign key refuses for an inode without a row. -/
def setXattr (self : Sqlite) (now : Now) (inode : ℕ) (key : Name) (value : Bytes) :
    Conn X Unit := Proc.atomically do
  execute fun db => db.replaceXattr ⟨inode, key, value⟩
  Proc.when self.timeRecording (updateCtime inode now)

/-- The value of an extended attribute, or the error for one that is not there. -/
def getXattr (_self : Sqlite) (inode : ℕ) (key : Name) : Conn X Bytes := do
  let db ← Proc.get
  let row ← Proc.ofOption (db.xattr.find (inode, key)) (.err .FsNoEnt)
  pure row.value

/-- The value that an extended attribute had at the rewound time. -/
def getXattrAtTime (self : Sqlite) (inode : ℕ) (key : Name) : Conn X Bytes :=
  self.queryTemp fun t =>
    match t.txattr.find? fun r => r.fileId = inode ∧ r.name = key with
    | some r => .ok r.value
    | none => .error (.err .FsNoEnt)

/-- `SELECT name FROM … WHERE file_id=inode ORDER BY name`, with names compared byte by byte. -/
def xattrList (rows : List XattrRow) (inode : ℕ) : List Name :=
  ((rows.filter fun r => r.fileId = inode).map XattrRow.name).insertionSort fun a b => a ≤ b

/-- The names of the extended attributes of an inode, in order. -/
def listXattr (_self : Sqlite) (inode : ℕ) : Conn X (List Name) := do
  let db ← Proc.get
  pure (xattrList db.xattr.rows inode)

/-- The names of the extended attributes that an inode had at the rewound time. -/
def listXattrAtTime (self : Sqlite) (inode : ℕ) : Conn X (List Name) :=
  self.queryTemp fun t => .ok (xattrList t.txattr inode)

/-- Remove an extended attribute, if it is there. The change time is recorded in any case. -/
def deleteXattr (self : Sqlite) (now : Now) (inode : ℕ) (key : Name) : Conn X Unit :=
  Proc.atomically do
    executeAll fun db => db.deleteXattrRow inode key
    Proc.when self.timeRecording (updateCtime inode now)

end Sqlite

end TemporalFs
