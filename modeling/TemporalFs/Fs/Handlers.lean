import Mathlib
import TemporalFs.Db.Sqlite

/-!
# The request handlers of `SqliteFs`

The handlers of `src/filesystem.rs`, for Linux. A handler is a program over the state of the file
system that returns its reply; an early `return` is a stop with a reply, and a panic a stop with
what was replied before it. The environment of a request (`Env`) gives the readings of the clock,
the caller, whether arithmetic overflow is checked, and which calls of the methods of `Sqlite`
fail. A failing call has rolled back and reports an `Err`.

Arguments of type `u64` and `i64` are numbers that a handler casts to `u32` where the source does.

## Main definitions

* `SqliteFs`: the state; `Env`: the surroundings of one request.
* `Reply`, `Exit`: how a handler ends.
* `SqliteFs.lookup`, `SqliteFs.forget`, `SqliteFs.write` and so on: the handlers.
-/

namespace TemporalFs

/-- The error numbers that the handlers reply. -/
inductive Errno
  | ENOENT
  | EPERM
  | EINVAL
  | EISDIR
  | ENOTDIR
  | ENOTEMPTY
  | EEXIST
  | ENAMETOOLONG
  | ENODATA
  | ERANGE
  | ENOSYS
  deriving DecidableEq, Repr

/-- A time of a reply or an argument. A handler may be given nanoseconds out of range. -/
structure Timespec where
  sec : ℤ
  nsec : ℤ
  deriving DecidableEq

/-- `ONE_SEC`: how long the kernel may keep what it is told. -/
def oneSec : Timespec := ⟨1, 0⟩

/-- The attributes in a reply, as `fuser` has them. The times are those that the kernel gets to see.
-/
structure FileAttr where
  ino : ℕ
  size : ℕ
  blocks : ℕ
  atime : Timespec
  mtime : Timespec
  ctime : Timespec
  crtime : Timespec
  kind : FileType
  perm : UInt16
  nlink : ℕ
  uid : UInt32
  gid : UInt32
  rdev : UInt32
  flags : UInt32
  deriving DecidableEq

/-- A time before the epoch is given as the epoch. -/
def timespecFrom (st : SystemTime) : Timespec := if 0 ≤ st.sec then ⟨st.sec, st.nsec⟩ else ⟨0, 0⟩

/-- `none` where `NaiveDateTime::from_timestamp` panics. From 10⁹ nanoseconds on, which stand for
a leap second, the conversion to `SystemTime` carries into the seconds. -/
def datetimeFrom (ts : Timespec) : Option SystemTime :=
  let nsec : ℕ := (ts.nsec % 2 ^ 32).toNat
  if inChronoRange ts.sec ∧ nsec < 2000000000 then
    some ⟨ts.sec + (nsec / 1000000000 : ℕ), Fin.ofNat 1000000000 nsec⟩
  else none

/-- `DBFileAttr::get_file_attr`, which replies the attributes. Only times before the epoch are
changed. -/
def DBFileAttr.getFileAttr (a : DBFileAttr) : FileAttr where
  ino := a.ino
  size := a.size.toNat
  blocks := a.blocks
  atime := timespecFrom a.atime
  mtime := timespecFrom a.mtime
  ctime := timespecFrom a.ctime
  crtime := timespecFrom a.crtime
  kind := a.kind
  perm := a.perm
  nlink := a.nlink
  uid := a.uid
  gid := a.gid
  rdev := a.rdev
  flags := a.flags

/-- The figures of `statvfs` that `statfs` passes on as they are. -/
structure Statfs where
  blocks : ℕ
  bfree : ℕ
  bavail : ℕ
  files : ℕ
  ffree : ℕ
  bsize : ℕ
  namelen : ℕ
  frsize : ℕ
  deriving DecidableEq

/-- An entry of a directory reply. The offset is the one to go on from after this entry. -/
structure Dirent where
  ino : ℕ
  off : ℕ
  kind : FileType
  name : Name
  deriving DecidableEq

/-- What a handler replies: an error, or what it was asked for. -/
inductive Reply
  | error (e : Errno)
  | ok
  | entry (ttl : Timespec) (attr : FileAttr) (generation : ℕ)
  | attr (ttl : Timespec) (attr : FileAttr)
  | data (bytes : Bytes)
  | opened (fh : ℕ) (flags : ℕ)
  | written (size : ℕ)
  | created (ttl : Timespec) (attr : FileAttr) (generation : ℕ) (fh : ℕ) (flags : ℕ)
  | statfs (stat : Statfs)
  | size (size : ℕ)
  | directory (entries : List Dirent)
  deriving DecidableEq

/-- The calls of methods of `Sqlite` that handlers make, each at most once in a request. A call on a
rewound mount goes to the method `…_at_time` of the same name. -/
inductive Call
  | lookup
  | getInode
  | addInodeAndDentry
  | updateInode
  | deleteInodeIfNoref (inode : ℕ)
  | deleteAllNorefInode
  | getDentry
  | linkDentry
  | deleteDentry
  | moveDentry
  | checkDirectoryIsEmpty
  | getData (block : ℕ)
  | writeData (block : ℕ)
  | setXattr
  | getXattr
  | listXattr
  | deleteXattr
  deriving DecidableEq, Repr

/-- The surroundings of one request: the readings of the clock, the user, and what happens outside
the program. They are any, one for each request of a run. -/
structure Env where
  /-- The handler's own reading of the clock. -/
  start : Now
  /-- The reading of the clock that a call makes. -/
  now : Call → Now
  /-- The calls that fail. -/
  fails : Call → Bool
  uid : UInt32
  gid : UInt32
  /-- Whether the build checks arithmetic overflow. -/
  checked : Bool
  /-- What `statvfs("/")` gives. -/
  statvfs : Option Statfs
  /-- The order in which a `HashMap` gives its keys. -/
  order : List ℕ → List ℕ
  order_perm : ∀ l, (order l).Perm l

/-- The flags of an open file. They are stored and never read. -/
structure OpenFileStat where
  readonly : Bool
  append : Bool
  noatime : Bool
  deriving DecidableEq

/-- The open files of an inode, with the number of the next handle, which only ever grows. -/
structure OpenFileHandler where
  count : ℕ
  list : AList fun _ : ℕ => OpenFileStat

/-- The open directories of an inode, with the number of the next handle. Each has the entries that
were there when it was opened. -/
structure OpenDirHandler where
  count : ℕ
  list : AList fun _ : ℕ => List DEntry

/-- The file system, with the database behind the connection of `db`. The counts of lookups and the
handles live in memory and are lost with the mount. -/
structure SqliteFs (X : Externals) where
  db : Sqlite
  conn : Db X
  lookupCount : AList fun _ : ℕ => ℕ
  openFileHandler : AList fun _ : ℕ => OpenFileHandler
  openDirHandler : AList fun _ : ℕ => OpenDirHandler
  readOnly : Bool
  rewind : Bool

/-- How a handler ends other than by its last reply: with an early reply, or with a panic after
what it has sent. -/
inductive Exit
  | reply (r : Reply)
  | panic (sent : Option Reply)
  deriving DecidableEq

/-- A program of a handler: it goes on, or exits early with a reply or a panic, and leaves a state
of the file system in each case. -/
abbrev Handler (X : Externals) (α : Type) := Proc (SqliteFs X) Exit α

variable {X : Externals}

/-! ### Parts of handlers -/

/-- `as u32` of a `u64`: the low 32 bits, with no check. -/
def asU32 (n : ℕ) : ℕ := n % 2 ^ 32

/-- `as u32` of an `i64`: the low 32 bits of its two's complement, with no check. -/
def i64AsU32 (n : ℤ) : ℕ := (n % 2 ^ 32).toNat

/-- Addition of `u32`; where it overflows, a checked build panics and another wraps. -/
def u32Add (env : Env) (sent : Option Reply) (a b : ℕ) : Handler X ℕ :=
  if a + b < 2 ^ 32 then pure (a + b)
  else if env.checked then Proc.stop (.panic sent)
  else pure ((a + b) % 2 ^ 32)

/-- Subtraction of `u32`; where it underflows, a checked build panics and another wraps. -/
def u32Sub (env : Env) (a b : ℕ) : Handler X ℕ :=
  if b ≤ a then pure (a - b)
  else if env.checked then Proc.stop (.panic none)
  else pure (a + 2 ^ 32 - b)

/-- `&data[lo..hi]`, which panics out of range. -/
def slice (data : Bytes) (lo hi : ℕ) : Handler X Bytes := do
  Proc.require (lo ≤ hi ∧ hi ≤ data.length) (.panic none)
  pure ((data.take hi).drop lo)

/-- The continuation bytes of a character that starts with the byte `b`: how many there are, and
the range of the first of them. `none` where no character starts with `b`. -/
def utf8Tail (b : UInt8) : Option (ℕ × UInt8 × UInt8) :=
  if b < 0x80 then some (0, 0, 0)
  else if b < 0xC2 then none
  else if b < 0xE0 then some (1, 0x80, 0xBF)
  else if b = 0xE0 then some (2, 0xA0, 0xBF)
  else if b = 0xED then some (2, 0x80, 0x9F)
  else if b < 0xF0 then some (2, 0x80, 0xBF)
  else if b = 0xF0 then some (3, 0x90, 0xBF)
  else if b < 0xF4 then some (3, 0x80, 0xBF)
  else if b = 0xF4 then some (3, 0x80, 0x8F)
  else none

/-- Whether the bytes are UTF-8, where the next `n` bytes continue a character and the first of
them lies between `lo` and `hi`. -/
def isUtf8Aux : ℕ → UInt8 → UInt8 → List UInt8 → Bool
  | 0, _, _, [] => true
  | _ + 1, _, _, [] => false
  | 0, _, _, b :: l =>
    match utf8Tail b with
    | some (n, lo, hi) => isUtf8Aux n lo hi l
    | none => false
  | n + 1, lo, hi, b :: l => lo ≤ b && b ≤ hi && isUtf8Aux n 0x80 0xBF l

/-- Bytes below 128 are UTF-8. -/
theorem isUtf8_of_ascii (l : Bytes) (h : ∀ b ∈ l, b < 0x80) : isUtf8Aux 0 0 0 l = true := by
  have haux : ∀ lo hi, isUtf8Aux 0 lo hi l = true := by
    induction l with
    | nil => exact fun _ _ => rfl
    | cons b l ih =>
      intro lo hi
      rw [isUtf8Aux, utf8Tail, if_pos (h b List.mem_cons_self)]
      exact ih (fun b' hb' => h b' (List.mem_cons_of_mem _ hb')) _ _
  exact haux 0 0

/-- `OsStr::to_str().unwrap()`, which panics unless the bytes are UTF-8. -/
def toStr (name : Bytes) : Handler X Name := do
  Proc.require (isUtf8Aux 0 0 0 name = true) (.panic none)
  pure name

namespace SqliteFs

/-- Call a method of `self.db`. A call that is to fail returns an error of SQLite without having
changed anything, and a panic of the method is one of the handler. -/
def call {α : Type} (env : Env) (c : Call) (m : Sqlite → Conn X α) :
    Handler X (Except ErrorKind α) := fun self =>
  if env.fails c then (self, .ok (.error .SqliteError))
  else
    match m self.db self.conn with
    | (conn, .ok a) => ({ self with conn := conn }, .ok (.ok a))
    | (conn, .error (.err kind)) => ({ self with conn := conn }, .ok (.error kind))
    | (conn, .error .panic) => ({ self with conn := conn }, .error (.panic none))

/-- Call a method and reply with an error if it fails, which depends on the kind of the error. -/
def callOr {α : Type} (env : Env) (c : Call) (m : Sqlite → Conn X α)
    (onErr : ErrorKind → Errno) : Handler X α := do
  match ← call env c m with
  | .ok a => pure a
  | .error kind => Proc.stop (.reply (.error (onErr kind)))

/-- Call a method and reply `ENOENT` if it fails, whatever the kind of the error. Most handlers do
so. -/
def callOrNoEnt {α : Type} (env : Env) (c : Call) (m : Sqlite → Conn X α) : Handler X α :=
  callOr env c m fun _ => .ENOENT

/-- Call a method and pass over its error, which is only logged. -/
def callIgnoring (env : Env) (c : Call) (m : Sqlite → Conn X Unit) : Handler X Unit := do
  let _ ← call env c m
  pure ()

/-- A value that was found, or the reply `ENOENT`. A method may succeed without finding anything. -/
def foundOrNoEnt {α : Type} (o : Option α) : Handler X α :=
  Proc.ofOption o (.reply (.error .ENOENT))

/-- Refuse with `EPERM` on a read-only mount, before anything else is looked at. -/
def writable : Handler X Unit := do
  let self ← Proc.get
  Proc.require (self.readOnly = false) (.reply (.error .EPERM))

/-- `*lookup_count.entry(ino).or_insert(0) += 1`, after the reply `sent`. The addition overflows
after `2 ^ 32 - 1` lookups. -/
def countLookup (env : Env) (sent : Option Reply) (ino : ℕ) : Handler X Unit := do
  let self ← Proc.get
  let lc ← u32Add env sent ((self.lookupCount.lookup ino).getD 0) 1
  Proc.modify fun self => { self with lookupCount := self.lookupCount.insert ino lc }

/-- The end of `unlink`, `rmdir` and `rename`: delete an inode that nobody has looked up. -/
def deleteUnlessLookedUp (env : Env) (ino : ℕ) : Handler X Unit := do
  let self ← Proc.get
  Proc.when (ino ∉ self.lookupCount)
    (callOrNoEnt env (.deleteInodeIfNoref ino) fun db => db.deleteInodeIfNoref ino)

/-! ### The handlers -/

/-- At the start of a session the inodes without an entry are deleted, unless the mount is rewound.
A read-only mount deletes them too. -/
def init (env : Env) : Handler X Unit := do
  let self ← Proc.get
  Proc.when (self.rewind = false)
    (callIgnoring env .deleteAllNorefInode fun db => db.deleteAllNorefInode)

/-- At the end of a session the inodes that are still looked up are deleted if no entry leads to
them. -/
def destroy (env : Env) : Handler X Unit := do
  let self ← Proc.get
  Proc.when (self.readOnly = false)
    (Proc.each (fun key =>
      callIgnoring env (.deleteInodeIfNoref key) fun db => db.deleteInodeIfNoref key)
      (env.order self.lookupCount.keys))

/-- Find a name and count the lookup. The count is made after the reply. -/
def lookup (env : Env) (parent : ℕ) (name : Bytes) : Handler X Reply := do
  let self ← Proc.get
  let name ← toStr name
  let found ← callOrNoEnt env .lookup fun db =>
    if self.rewind then db.lookupAtTime (asU32 parent) name
    else db.lookup (env.now .lookup) (asU32 parent) name
  let v ← foundOrNoEnt found
  let reply := Reply.entry oneSec v.getFileAttr 0
  countLookup env (some reply) v.ino
  pure reply

/-- Take lookups back. When none is left the inode is deleted if no entry leads to it. -/
def forget (env : Env) (ino nlookup : ℕ) : Handler X Unit := do
  let self ← Proc.get
  Proc.when (self.readOnly = false) do
    let ino := asU32 ino
    let lc := (self.lookupCount.lookup ino).getD 0
    Proc.modify fun self => { self with lookupCount := self.lookupCount.insert ino lc }
    let lc ← u32Sub env lc (asU32 nlookup)
    if lc = 0 then do
      Proc.modify fun self => { self with lookupCount := self.lookupCount.erase ino }
      callIgnoring env (.deleteInodeIfNoref ino) fun db => db.deleteInodeIfNoref ino
    else
      Proc.modify fun self => { self with lookupCount := self.lookupCount.insert ino lc }

/-- The attributes that a request reads: the present ones, or those of the rewound time. -/
def readInode (env : Env) (ino : ℕ) : Handler X DBFileAttr := do
  let self ← Proc.get
  let found ← callOrNoEnt env .getInode fun db =>
    if self.rewind then db.getInodeAtTime ino else db.getInode ino
  foundOrNoEnt found

/-- The block that a request reads: the present one, or that of the rewound time. -/
def readBlock (env : Env) (ino block length : ℕ) : Handler X Bytes := do
  let self ← Proc.get
  callOrNoEnt env (.getData block) fun db =>
    if self.rewind then db.getDataAtTime (env.now (.getData block)) ino block length
    else db.getData (env.now (.getData block)) ino block length

/-- The attributes of an inode. On an inode without a name the query fails, and the reply is
`ENOENT`. -/
def getattr (env : Env) (ino : ℕ) : Handler X Reply := do
  let v ← readInode env (asU32 ino)
  pure (.attr oneSec v.getFileAttr)

/-- The attributes that a `setattr` request names, each of which may be missing. What the kernel
gives besides is not used. -/
structure SetAttr where
  mode : Option ℕ
  uid : Option UInt32
  gid : Option UInt32
  size : Option ℕ
  atime : Option Timespec
  mtime : Option Timespec
  crtime : Option Timespec
  flags : Option UInt32

/-- A time that the request names, in place of the present one. A time that is no date panics. -/
def setTime (present : SystemTime) : Option Timespec → Handler X SystemTime
  | none => pure present
  | some ts => Proc.ofOption (datetimeFrom ts) (.panic none)

/-- Change the attributes that the request names. The reply has the attributes as they were passed
to `updateInode`, with the old change time. -/
def setattr (env : Env) (ino : ℕ) (req : SetAttr) : Handler X Reply := do
  writable
  let found ← callOrNoEnt env .getInode fun db => db.getInode (asU32 ino)
  let old ← foundOrNoEnt found
  let atime ← setTime old.atime req.atime
  let mtime ← setTime old.mtime req.mtime
  let crtime ← setTime old.crtime req.crtime
  let attr : DBFileAttr := { old with
    perm := (req.mode.map UInt16.ofNat).getD old.perm
    uid := req.uid.getD old.uid
    gid := req.gid.getD old.gid
    size := (req.size.map UInt32.ofNat).getD old.size
    atime := atime, mtime := mtime, crtime := crtime
    flags := req.flags.getD old.flags }
  callOrNoEnt env .updateInode fun db =>
    db.updateInode (env.now .updateInode) attr (old.size > attr.size)
  pure (.attr oneSec attr.getFileAttr)

/-- The target of a symbolic link, which is its first block, cut to its size. -/
def readlink (env : Env) (ino : ℕ) : Handler X Reply := do
  let ino := asU32 ino
  let attr ← readInode env ino
  Proc.require (attr.kind = .Symlink) (.reply (.error .EINVAL))
  let data ← readBlock env ino 1 attr.size.toNat
  pure (.data (resize data attr.size.toNat))

/-- The attributes of an inode about to be made: empty, owned by the user of the request, and with
the reading of the clock as all of its times. -/
def newAttr (env : Env) (kind : FileType) (perm : UInt16) (gid : UInt32) : DBFileAttr where
  ino := 0
  size := 0
  blocks := 0
  atime := env.start.1
  mtime := env.start.1
  ctime := env.start.1
  crtime := env.start.1
  kind := kind
  perm := perm
  nlink := 0
  uid := env.uid
  gid := gid
  rdev := 0
  flags := 0

/-- `S_ISGID`: new inodes inherit the group of the directory, and new directories this bit. -/
def sIsgid : UInt16 := UInt16.ofNat 0o2000

/-- `S_ISVTX`, which new directories inherit. -/
def sIsvtx : UInt16 := UInt16.ofNat 0o1000

/-- Make a directory. Its mode is the one of the request, with the bits inherited from the
parent. -/
def mkdir (env : Env) (parent : ℕ) (name : Bytes) (mode : ℕ) : Handler X Reply := do
  writable
  let parent := asU32 parent
  let found ← callOrNoEnt env .getInode fun db => db.getInode parent
  let parent_attr ← foundOrNoEnt found
  let setgid := parent_attr.perm &&& sIsgid > 0
  let perm := if setgid then UInt16.ofNat mode ||| sIsgid else UInt16.ofNat mode
  let perm := if parent_attr.perm &&& sIsvtx > 0 then perm ||| sIsvtx else perm
  let attr := newAttr env .Directory perm (if setgid then parent_attr.gid else env.gid)
  let name ← toStr name
  let ino ← callOrNoEnt env .addInodeAndDentry fun db =>
    db.addInodeAndDentry (env.now .addInodeAndDentry) parent name attr
  let reply := Reply.entry oneSec { attr with ino := ino }.getFileAttr 0
  countLookup env (some reply) ino
  pure reply

/-- Remove the name of a file. The inode stays while it has other names or lookups. -/
def unlink (env : Env) (parent : ℕ) (name : Bytes) : Handler X Reply := do
  writable
  let name ← toStr name
  let ino ← callOrNoEnt env .deleteDentry fun db =>
    db.deleteDentry (env.now .deleteDentry) (asU32 parent) name
  deleteUnlessLookedUp env ino
  pure .ok

/-- Remove a directory that is empty. That the name leads to a directory is not asked: an inode
without entries counts as empty. -/
def rmdir (env : Env) (parent : ℕ) (name : Bytes) : Handler X Reply := do
  writable
  let parent := asU32 parent
  let name ← toStr name
  let found ← callOrNoEnt env .lookup fun db => db.lookup (env.now .lookup) parent name
  let attr ← foundOrNoEnt found
  let empty ← callOrNoEnt env .checkDirectoryIsEmpty fun db =>
    db.checkDirectoryIsEmpty attr.ino
  Proc.require (empty = true) (.reply (.error .ENOTEMPTY))
  let ino ← callOrNoEnt env .deleteDentry fun db =>
    db.deleteDentry (env.now .deleteDentry) parent name
  deleteUnlessLookedUp env ino
  pure .ok

/-- Make a symbolic link. Its inode and its name are stored before its target is checked and
written. -/
def symlink (env : Env) (parent : ℕ) (name link : Bytes) : Handler X Reply := do
  writable
  let attr := newAttr env .Symlink (UInt16.ofNat 0o777) env.gid
  let name ← toStr name
  let ino ← callOrNoEnt env .addInodeAndDentry fun db =>
    db.addInodeAndDentry (env.now .addInodeAndDentry) (asU32 parent) name attr
  let data ← toStr link
  Proc.require (data.length ≤ blockSize) (.reply (.error .ENAMETOOLONG))
  callOrNoEnt env (.writeData 1) fun db =>
    db.writeData (env.now (.writeData 1)) ino 1 data (UInt32.ofNat data.length)
  let reply := Reply.entry oneSec { attr with ino := ino }.getFileAttr 0
  countLookup env (some reply) ino
  pure reply

/-- What becomes of the inode whose name a rename has overwritten: it is deleted like that of an
unlinked name. -/
def deleteOverwritten (env : Env) : Option ℕ → Handler X Unit
  | some ino => deleteUnlessLookedUp env ino
  | none => pure ()

/-- The reply to an error of `moveDentry`, by its kind. -/
def renameErrno : ErrorKind → Errno
  | .FsNotEmpty => .ENOTEMPTY
  | .FsIsDir => .EISDIR
  | .FsIsNotDir => .ENOTDIR
  | _ => .ENOENT

/-- Move a name to another place. What it replaced is deleted unless it has other names or
lookups. -/
def rename (env : Env) (parent : ℕ) (name : Bytes) (newparent : ℕ) (newname : Bytes) :
    Handler X Reply := do
  writable
  let name ← toStr name
  let newname ← toStr newname
  let entry ← callOr env .moveDentry (fun db =>
    db.moveDentry (env.now .moveDentry) (asU32 parent) name (asU32 newparent) newname)
    renameErrno
  deleteOverwritten env entry
  pure .ok

/-- The reply to an error of `linkDentry`, by its kind. -/
def linkErrno : ErrorKind → Errno
  | .FsParm => .EPERM
  | .FsFileExist => .EEXIST
  | _ => .ENOENT

/-- Give a file another name and count a lookup. The reply has the attributes from before. -/
def link (env : Env) (ino newparent : ℕ) (newname : Bytes) : Handler X Reply := do
  writable
  let newname ← toStr newname
  let attr ← callOr env .linkDentry (fun db =>
    db.linkDentry (env.now .linkDentry) (asU32 ino) (asU32 newparent) newname) linkErrno
  let reply := Reply.entry oneSec attr.getFileAttr 0
  countLookup env (some reply) (asU32 ino)
  pure reply

/-- `O_RDONLY`. -/
def oRdonly : ℕ := 0

/-- `O_WRONLY`. -/
def oWronly : ℕ := 1

/-- `O_RDWR`. -/
def oRdwr : ℕ := 2

/-- `O_CREAT`. -/
def oCreat : ℕ := 64

/-- `O_APPEND`. -/
def oAppend : ℕ := 1024

/-- `O_NOATIME`. -/
def oNoatime : ℕ := 262144

/-- `flags & flag > 0`, which is never true of the flag 0. -/
def hasFlag (flags flag : ℕ) : Bool := 0 < flags &&& flag

/-- Open a file. The handle is the number of handles that the inode has had. -/
def «open» (_env : Env) (ino flags : ℕ) : Handler X Reply := do
  let self ← Proc.get
  let ino := asU32 ino
  let stat : OpenFileStat :=
    ⟨hasFlag flags oRdonly, hasFlag flags oAppend, hasFlag flags oNoatime⟩
  Proc.require (¬ (self.readOnly = true ∧ (hasFlag flags oRdwr ∨ hasFlag flags oWronly ∨
    hasFlag flags oAppend ∨ hasFlag flags oCreat))) (.reply (.error .EPERM))
  let handle_list := (self.openFileHandler.lookup ino).getD ⟨0, ∅⟩
  let fh := handle_list.count
  Proc.modify fun self => { self with
    openFileHandler := self.openFileHandler.insert ino
      ⟨handle_list.count + 1, handle_list.list.insert fh stat⟩ }
  pure (.opened fh 0)

/-- The loop of `read`. Each round reads at least one byte, so that as many rounds as bytes are
wanted suffice. -/
def readLoop (env : Env) (ino : ℕ) : ℕ → ℕ → ℕ → Bytes → Handler X Bytes
  | 0, _, _, data => pure data
  | fuel + 1, size, offset, data =>
    if size = 0 then pure data
    else do
      let b_num := offset / blockSize + 1
      let block_data ← readBlock env (asU32 ino) b_num blockSize
      let b_offset := offset % blockSize
      let wanted ← u32Add env none size b_offset
      let b_end := if wanted / blockSize ≥ 1 then blockSize else wanted
      let block_data := if block_data.length < b_end then resize block_data b_end else block_data
      let part ← slice block_data b_offset b_end
      let offset ← u32Add env none offset (b_end - b_offset)
      readLoop env ino fuel (size - (b_end - b_offset)) offset (data ++ part)

/-- Read from a file, block by block. The reply has `size` bytes, also behind the end of the
file. -/
def read (env : Env) (ino : ℕ) (offset : ℤ) (size : ℕ) : Handler X Reply := do
  let data ← readLoop env ino size size (i64AsU32 offset) []
  pure (.data data)

/-- `(offset + size - 1)`, computed with `u32`, so that both steps may panic or wrap. -/
def lastByte (env : Env) (offset size : ℕ) : Handler X ℕ := do
  let e ← u32Add env none offset size
  u32Sub env e 1

/-- One round of the loop of `write`, for block `i`. A block that is written in part is read first,
and filled up with zeros where it is short; the size that goes with it is the end of what has been
written so far. -/
def writeBlock (env : Env) (ino : ℕ) (offset size : ℕ) (data : Bytes)
    (start_block end_block i : ℕ) : Handler X Unit := do
  let b_start_index := if i = start_block then offset % blockSize else 0
  let b_end_index ← (if i = end_block then do
      let last ← lastByte env offset size
      pure (last % blockSize + 1)
    else pure blockSize)
  -- at most 2^32 - 4096, so that this does not overflow
  let data_offset := if i > start_block then
    (i - start_block - 1) * blockSize + blockSize - offset % blockSize else 0
  let block_data ←
    (if b_start_index ≠ 0 ∨ b_end_index ≠ blockSize then do
      let data_pre ← callOrNoEnt env (.getData i) fun db =>
        db.getData (env.now (.getData i)) ino i blockSize
      let data_pre := if data_pre.length < blockSize then resize data_pre blockSize else data_pre
      let before ← slice data_pre 0 b_start_index
      let data_end ← u32Add env none data_offset b_end_index
      let data_end ← u32Sub env data_end b_start_index
      let written ← slice data data_offset data_end
      let after ← slice data_pre b_end_index blockSize
      pure (before ++ written ++ after)
    else do
      let data_end ← u32Add env none data_offset blockSize
      slice data data_offset data_end)
  let new_size ← u32Add env none ((i - 1) * blockSize) b_end_index
  callOrNoEnt env (.writeData i) fun db =>
    db.writeData (env.now (.writeData i)) ino i block_data (UInt32.ofNat new_size)

/-- Write to a file, block by block. The reply comes when the last block is stored. -/
def write (env : Env) (ino : ℕ) (offset : ℤ) (data : Bytes) : Handler X Reply := do
  writable
  let ino := asU32 ino
  let size := asU32 data.length
  let offset := i64AsU32 offset
  let start_block := offset / blockSize + 1
  let last ← lastByte env offset size
  let end_block := last / blockSize + 1
  Proc.each (writeBlock env ino offset size data start_block end_block)
    (List.range' start_block (end_block + 1 - start_block))
  pure (.written size)

/-- Close a file. The number of handles that the inode has had is kept. -/
def release (_env : Env) (ino fh : ℕ) : Handler X Reply := do
  let self ← Proc.get
  let ino := asU32 ino
  let handle_list := (self.openFileHandler.lookup ino).getD ⟨0, ∅⟩
  Proc.modify fun self => { self with
    openFileHandler :=
      if handle_list.count = 0 then self.openFileHandler.erase ino
      else self.openFileHandler.insert ino ⟨handle_list.count, handle_list.list.erase fh⟩ }
  pure .ok

/-- Open a directory, whose entries are read now. What changes in the directory later does not
change the pages of this handle. -/
def opendir (env : Env) (ino : ℕ) : Handler X Reply := do
  let self ← Proc.get
  let ino := asU32 ino
  let dentries ← callOrNoEnt env .getDentry fun db =>
    if self.rewind then db.getDentryAtTime ino else db.getDentry ino
  let handle_list := (self.openDirHandler.lookup ino).getD ⟨0, ∅⟩
  let fh := handle_list.count
  Proc.modify fun self => { self with
    openDirHandler := self.openDirHandler.insert ino
      ⟨handle_list.count + 1, handle_list.list.insert fh dentries⟩ }
  pure (.opened fh 0)

/-- The size of an entry in a directory reply: a head of 24 bytes and the name, padded. -/
def direntSize (name : Name) : ℕ := (24 + name.length + 7) / 8 * 8

/-- `ReplyDirectory::add` for one entry after the other, until one does not fit. The entries after
it are left for the next request. -/
def addDirents (capacity : ℕ) : List (DEntry × ℕ) → ℕ → List Dirent
  | [], _ => []
  | (entry, i) :: l, used =>
    if used + direntSize entry.filename > capacity then []
    else ⟨entry.childIno, i + 1, entry.fileType, entry.filename⟩ ::
      addDirents capacity l (used + direntSize entry.filename)

/-- The entries of an open directory from the index `offset` on, as many as the reply has room
for. -/
def readdir (_env : Env) (ino fh : ℕ) (offset : ℤ) (size : ℕ) : Handler X Reply := do
  let self ← Proc.get
  let db_entries ← foundOrNoEnt ((self.openDirHandler.lookup (asU32 ino)).bind fun n =>
    n.list.lookup fh)
  pure (.directory (addDirents size (db_entries.zipIdx.drop (offset % 2 ^ 64).toNat) 0))

/-- Close a directory. As with files, the number of handles that the inode has had is kept. -/
def releasedir (_env : Env) (ino fh : ℕ) : Handler X Reply := do
  let self ← Proc.get
  let ino := asU32 ino
  let handle_list := (self.openDirHandler.lookup ino).getD ⟨0, ∅⟩
  Proc.modify fun self => { self with
    openDirHandler :=
      if handle_list.count = 0 then self.openDirHandler.erase ino
      else self.openDirHandler.insert ino ⟨handle_list.count, handle_list.list.erase fh⟩ }
  pure .ok

/-- The figures of the file system that holds `/`, not of the database; an error of `statvfs`
panics. -/
def statfs (env : Env) : Handler X Reply := do
  let stat ← Proc.ofOption env.statvfs (.panic none)
  pure (.statfs stat)

/-- `XATTR_CREATE`: the attribute must not be there. -/
def xattrCreate : ℕ := 1

/-- `XATTR_REPLACE`: the attribute must be there. -/
def xattrReplace : ℕ := 2

/-- The check of the flags of `setxattr` against what `getXattr` has found, in the order of the
source. -/
def checkXattrFlags (flags : ℕ) : Except ErrorKind Bytes → Handler X Unit
  | .ok _ => Proc.require (hasFlag flags xattrCreate = false) (.reply (.error .EEXIST))
  | .error .FsNoEnt =>
    Proc.require (hasFlag flags xattrReplace = false) (.reply (.error .ENODATA))
  | .error _ => Proc.stop (.reply (.error .ENOENT))

/-- Set an extended attribute. The flags are checked in a call of its own. -/
def setxattr (env : Env) (ino : ℕ) (name value : Bytes) (flags : ℕ) : Handler X Reply := do
  writable
  let ino := asU32 ino
  let name ← toStr name
  Proc.when (hasFlag flags xattrCreate ∨ hasFlag flags xattrReplace) do
    let found ← call env .getXattr fun db => db.getXattr ino name
    checkXattrFlags flags found
  callOrNoEnt env .setXattr fun db => db.setXattr (env.now .setXattr) ino name value
  pure .ok

/-- The reply to a read of extended attributes: their size, or all of them. -/
def xattrReply (size : ℕ) (data : Bytes) : Reply :=
  if size = 0 then .size (asU32 data.length)
  else if size < asU32 data.length then .error .ERANGE
  else .data data

/-- The value of an extended attribute, or its size. Every error is replied as `ENODATA`. -/
def getxattr (env : Env) (ino : ℕ) (name : Bytes) (size : ℕ) : Handler X Reply := do
  let self ← Proc.get
  let ino := asU32 ino
  let name ← toStr name
  let value ← callOr env .getXattr (fun db =>
    if self.rewind then db.getXattrAtTime ino name else db.getXattr ino name) fun _ => .ENODATA
  pure (xattrReply size value)

/-- The names of the extended attributes, each with a NUL, or their size. -/
def listxattr (env : Env) (ino size : ℕ) : Handler X Reply := do
  let self ← Proc.get
  let ino := asU32 ino
  let names ← callOr env .listXattr (fun db =>
    if self.rewind then db.listXattrAtTime ino else db.listXattr ino) fun _ => .ENODATA
  pure (xattrReply size (names.flatMap fun v => v ++ [0]))

/-- Remove an extended attribute. One that is not there is no error. -/
def removexattr (env : Env) (ino : ℕ) (name : Bytes) : Handler X Reply := do
  writable
  let name ← toStr name
  callOrNoEnt env .deleteXattr fun db =>
    db.deleteXattr (env.now .deleteXattr) (asU32 ino) name
  pure .ok

/-- The attributes of the file that `create` opens: the one found, or a new one. -/
def createInode (env : Env) (parent : ℕ) (name : Name) (mode : ℕ) :
    Option DBFileAttr → Handler X DBFileAttr
  | some attr => pure attr
  | none => do
    let found ← callOrNoEnt env .getInode fun db => db.getInode parent
    let parent_attr ← foundOrNoEnt found
    let gid := if parent_attr.perm &&& sIsgid > 0 then parent_attr.gid else env.gid
    let attr := newAttr env .RegularFile (UInt16.ofNat mode) gid
    let ino ← callOrNoEnt env .addInodeAndDentry fun db =>
      db.addInodeAndDentry (env.now .addInodeAndDentry) parent name attr
    pure { attr with ino := ino }

/-- Make a file unless the name leads to an inode already. The reply names the handle 0, which was
not opened. -/
def create (env : Env) (parent : ℕ) (name : Bytes) (mode : ℕ) : Handler X Reply := do
  writable
  let parent := asU32 parent
  let name ← toStr name
  let lookup_result ← callOrNoEnt env .lookup fun db => db.lookup (env.now .lookup) parent name
  let attr ← createInode env parent name mode lookup_result
  countLookup env none attr.ino
  pure (.created oneSec attr.getFileAttr 0 0 0)

end SqliteFs

end TemporalFs
