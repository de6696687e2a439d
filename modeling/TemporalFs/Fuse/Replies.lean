import Mathlib
import TemporalFs.Lib.Codec
import TemporalFs.Fs.Requests

/-!
# Replies as bytes

The structures of `fuse/patches/kernel.rs` and the replies of `fuse/patches/reply.rs`, for Linux on
a machine that keeps the lowest byte first. A reply goes to the kernel as one message: a header
with the length of the message, the error and the request that it answers, and then a body. The
kernel knows which body to await from the request.

## Main definitions

* `FuseAttr`, `FuseEntryOut` and so on: the structures, each with its codec.
* `ReplyDirectory.add`: an entry at the end of a directory reply.
* `Reply.message`: the message of a reply.
* `receive`: what the kernel takes from a message.

## Main results

* `ReplyDirectory.fill_data`: the buffer of a directory reply.
* `readAll_dirents`: the entries are read back from the buffer.
* `receive_message`: what was replied is received.
-/

namespace TemporalFs

/-! ### The structures of the kernel interface -/

/-- An unsigned number of four bytes. -/
def u32 : Codec ℕ := .unsigned 4

/-- An unsigned number of eight bytes. -/
def u64 : Codec ℕ := .unsigned 8

/-- A signed number of four bytes. -/
def i32 : Codec ℤ := .signed 4

/-- A signed number of eight bytes. -/
def i64 : Codec ℤ := .signed 8

/-- `fuse_out_header`, with which every message to the kernel begins. -/
structure FuseOutHeader where
  len : ℕ
  error : ℤ
  unique : ℕ
  deriving DecidableEq

/-- The layout of `fuse_out_header`. -/
def FuseOutHeader.codec : Codec FuseOutHeader :=
  (u32.seq <| i32.seq u64).imap (fun (len, error, unique) => ⟨len, error, unique⟩)
    fun h => (h.len, h.error, h.unique)

/-- `fuse_attr`, as Linux has it. -/
structure FuseAttr where
  ino : ℕ
  size : ℕ
  blocks : ℕ
  atime : ℤ
  mtime : ℤ
  ctime : ℤ
  atimensec : ℤ
  mtimensec : ℤ
  ctimensec : ℤ
  mode : ℕ
  nlink : ℕ
  uid : ℕ
  gid : ℕ
  rdev : ℕ
  deriving DecidableEq

/-- The layout of `fuse_attr`. -/
def FuseAttr.codec : Codec FuseAttr :=
  (u64.seq <| u64.seq <| u64.seq <| i64.seq <| i64.seq <| i64.seq <| i32.seq <| i32.seq <|
    i32.seq <| u32.seq <| u32.seq <| u32.seq <| u32.seq u32).imap
    (fun (ino, size, blocks, atime, mtime, ctime, atimensec, mtimensec, ctimensec, mode, nlink, uid,
        gid, rdev) =>
      ⟨ino, size, blocks, atime, mtime, ctime, atimensec, mtimensec, ctimensec, mode, nlink, uid,
        gid, rdev⟩)
    fun a => (a.ino, a.size, a.blocks, a.atime, a.mtime, a.ctime, a.atimensec, a.mtimensec,
      a.ctimensec, a.mode, a.nlink, a.uid, a.gid, a.rdev)

/-- `fuse_entry_out`: an inode with its attributes, and how long they may be kept. -/
structure FuseEntryOut where
  nodeid : ℕ
  generation : ℕ
  entryValid : ℤ
  attrValid : ℤ
  entryValidNsec : ℤ
  attrValidNsec : ℤ
  attr : FuseAttr
  deriving DecidableEq

/-- The layout of `fuse_entry_out`. -/
def FuseEntryOut.codec : Codec FuseEntryOut :=
  (u64.seq <| u64.seq <| i64.seq <| i64.seq <| i32.seq <| i32.seq FuseAttr.codec).imap
    (fun (nodeid, generation, entryValid, attrValid, entryValidNsec, attrValidNsec, attr) =>
      ⟨nodeid, generation, entryValid, attrValid, entryValidNsec, attrValidNsec, attr⟩)
    fun o => (o.nodeid, o.generation, o.entryValid, o.attrValid, o.entryValidNsec,
      o.attrValidNsec, o.attr)

/-- `fuse_attr_out`: attributes, and how long they may be kept. -/
structure FuseAttrOut where
  attrValid : ℤ
  attrValidNsec : ℤ
  dummy : ℕ
  attr : FuseAttr
  deriving DecidableEq

/-- The layout of `fuse_attr_out`. -/
def FuseAttrOut.codec : Codec FuseAttrOut :=
  (i64.seq <| i32.seq <| u32.seq FuseAttr.codec).imap
    (fun (attrValid, attrValidNsec, dummy, attr) => ⟨attrValid, attrValidNsec, dummy, attr⟩)
    fun o => (o.attrValid, o.attrValidNsec, o.dummy, o.attr)

/-- `fuse_open_out`: a handle. -/
structure FuseOpenOut where
  fh : ℕ
  openFlags : ℕ
  padding : ℕ
  deriving DecidableEq

/-- The layout of `fuse_open_out`. -/
def FuseOpenOut.codec : Codec FuseOpenOut :=
  (u64.seq <| u32.seq u32).imap (fun (fh, openFlags, padding) => ⟨fh, openFlags, padding⟩)
    fun o => (o.fh, o.openFlags, o.padding)

/-- `fuse_write_out` and `fuse_getxattr_out`. -/
structure FuseSizeOut where
  size : ℕ
  padding : ℕ
  deriving DecidableEq

/-- The layout of `fuse_write_out` and `fuse_getxattr_out`. -/
def FuseSizeOut.codec : Codec FuseSizeOut :=
  (u32.seq u32).imap (fun (size, padding) => ⟨size, padding⟩) fun o => (o.size, o.padding)

/-- `fuse_kstatfs`, with its spare words as bytes. -/
structure FuseKstatfs where
  blocks : ℕ
  bfree : ℕ
  bavail : ℕ
  files : ℕ
  ffree : ℕ
  bsize : ℕ
  namelen : ℕ
  frsize : ℕ
  padding : ℕ
  spare : Bytes
  deriving DecidableEq

/-- The layout of `fuse_kstatfs`. -/
def FuseKstatfs.codec : Codec FuseKstatfs :=
  (u64.seq <| u64.seq <| u64.seq <| u64.seq <| u64.seq <| u32.seq <| u32.seq <| u32.seq <|
    u32.seq (.block 24)).imap
    (fun (blocks, bfree, bavail, files, ffree, bsize, namelen, frsize, padding, spare) =>
      ⟨blocks, bfree, bavail, files, ffree, bsize, namelen, frsize, padding, spare⟩)
    fun o => (o.blocks, o.bfree, o.bavail, o.files, o.ffree, o.bsize, o.namelen, o.frsize,
      o.padding, o.spare)

/-- `fuse_init_out`, the answer to the first packet. -/
structure FuseInitOut where
  major : ℕ
  minor : ℕ
  maxReadahead : ℕ
  flags : ℕ
  unused : ℕ
  maxWrite : ℕ
  deriving DecidableEq

/-- The layout of `fuse_init_out`. -/
def FuseInitOut.codec : Codec FuseInitOut :=
  (u32.seq <| u32.seq <| u32.seq <| u32.seq <| u32.seq u32).imap
    (fun (major, minor, maxReadahead, flags, unused, maxWrite) =>
      ⟨major, minor, maxReadahead, flags, unused, maxWrite⟩)
    fun o => (o.major, o.minor, o.maxReadahead, o.flags, o.unused, o.maxWrite)

/-- `S_IFIFO` and so on. -/
def FileType.mode : FileType → ℕ
  | .NamedPipe => 0o010000
  | .CharDevice => 0o020000
  | .BlockDevice => 0o060000
  | .Directory => 0o040000
  | .RegularFile => 0o100000
  | .Symlink => 0o120000
  | .Socket => 0o140000

/-- `mode_from_kind_and_perm`: the bits of the type and of the permissions. -/
def modeFromKindAndPerm (kind : FileType) (perm : UInt16) : ℕ := kind.mode ||| perm.toNat

/-- `fuse_attr_from_attr`: the attributes of a reply as they are sent. -/
def fuseAttrFromAttr (a : FileAttr) : FuseAttr where
  ino := a.ino
  size := a.size
  blocks := a.blocks
  atime := a.atime.sec
  mtime := a.mtime.sec
  ctime := a.ctime.sec
  atimensec := a.atime.nsec
  mtimensec := a.mtime.nsec
  ctimensec := a.ctime.nsec
  mode := modeFromKindAndPerm a.kind a.perm
  nlink := a.nlink
  uid := a.uid.toNat
  gid := a.gid.toNat
  rdev := a.rdev.toNat

/-! ### Directories -/

/-- The size of `fuse_dirent`, which the name follows. -/
def sizeofFuseDirent : ℕ := 24

/-- The buffer of a directory reply. -/
structure ReplyDirectory where
  data : Bytes
  capacity : ℕ

namespace ReplyDirectory

/-- A reply with room for `size` bytes. -/
def new (size : ℕ) : ReplyDirectory := ⟨[], size⟩

/-- Add an entry; `true` where there is no room for it. -/
def add (r : ReplyDirectory) (ino : ℕ) (offset : ℤ) (kind : FileType) (name : Name) :
    ReplyDirectory × Bool :=
  let entlen := sizeofFuseDirent + name.length
  let entsize := (entlen + 8 - 1) / 8 * 8
  let padlen := entsize - entlen
  if r.data.length + entsize > r.capacity then (r, true)
  else
    ({ r with data := r.data ++ (u64.write ino ++ i64.write offset ++ u32.write name.length ++
        u32.write (modeFromKindAndPerm kind 0 / 2 ^ 12) ++ name ++ List.replicate padlen 0) },
      false)

/-- The loop of `readdir`, which ends with the first entry that has no room. -/
def fill (r : ReplyDirectory) : List (DEntry × ℕ) → ReplyDirectory
  | [] => r
  | (entry, i) :: l =>
    let added := r.add entry.childIno (i + 1 : ℕ) entry.fileType entry.filename
    if added.2 then added.1 else added.1.fill l

end ReplyDirectory

/-- The type of an entry, as its number in the buffer. -/
def FileType.typ (kind : FileType) : ℕ := kind.mode / 2 ^ 12

/-- The type of an entry with this number. -/
def FileType.ofTyp : ℕ → FileType
  | 1 => .NamedPipe
  | 2 => .CharDevice
  | 6 => .BlockDevice
  | 4 => .Directory
  | 10 => .Symlink
  | 12 => .Socket
  | _ => .RegularFile

@[simp] theorem FileType.ofTyp_typ (kind : FileType) : ofTyp kind.typ = kind := by
  cases kind <;> rfl

/-- An entry as the kernel reads it: the fixed part says how long the name is, and the padding
ends at a multiple of eight bytes. -/
def Dirent.codec : Codec Dirent :=
  (Codec.dep (u64.seq <| i64.seq <| u32.seq u32) fun (_, _, namelen, _) =>
    (Codec.block namelen).seq
      (.block ((sizeofFuseDirent + namelen + 8 - 1) / 8 * 8 - (sizeofFuseDirent + namelen)))).imap
    (fun ((ino, off, _, typ), name, _) => ⟨ino, off.toNat, .ofTyp typ, name⟩)
    fun d => ((d.ino, d.off, d.name.length, d.kind.typ), d.name,
      List.replicate ((sizeofFuseDirent + d.name.length + 8 - 1) / 8 * 8 -
        (sizeofFuseDirent + d.name.length)) 0)

theorem Dirent.length_write (d : Dirent) :
    (Dirent.codec.write d).length = SqliteFs.direntSize d.name := by
  have hwrite : (Dirent.codec.write d).length =
      (8 + (8 + (4 + 4))) + (d.name.length + ((24 + d.name.length + 8 - 1) / 8 * 8 -
        (24 + d.name.length))) := by
    simp only [codec, Codec.imap, Codec.dep, Codec.seq, u64, i64, u32, Codec.unsigned, Codec.signed,
      Codec.block, List.length_append, length_leBytes, List.length_replicate, sizeofFuseDirent]
  rw [hwrite, SqliteFs.direntSize]
  omega

/-- The numbers of an entry are in the range of their types. -/
structure Dirent.InRange (d : Dirent) : Prop where
  ino : d.ino < 2 ^ 64
  off : d.off < 2 ^ 63
  namelen : d.name.length < 2 ^ 32

theorem Dirent.InRange.fits {d : Dirent} (h : d.InRange) : Dirent.codec.Fits d := by
  have htyp : d.kind.typ < 2 ^ 32 := by
    cases d.kind <;> decide
  refine ⟨⟨⟨h.ino, Codec.signed_fits ?_ ?_, h.namelen, htyp⟩, rfl, List.length_replicate⟩, ?_⟩
  · have := Int.natCast_nonneg d.off
    norm_num
    omega
  · have := h.off
    norm_num
    omega
  · simp only [Int.toNat_natCast, FileType.ofTyp_typ]

/-- The entries of a directory are read back from a buffer. -/
theorem readAll_dirents {entries : List Dirent} (h : ∀ d ∈ entries, d.InRange) :
    Dirent.codec.readAll (entries.flatMap Dirent.codec.write) = some entries := by
  refine Codec.readAll_writeAll _ (fun d hd => (h d hd).fits) fun d _ hnil => ?_
  have hlen := d.length_write
  rw [hnil, List.length_nil, SqliteFs.direntSize] at hlen
  omega

namespace ReplyDirectory

theorem add_entry (r : ReplyDirectory) (entry : DEntry) (i : ℕ) :
    r.add entry.childIno (i + 1 : ℕ) entry.fileType entry.filename =
      if r.data.length + SqliteFs.direntSize entry.filename > r.capacity then (r, true)
      else (⟨r.data ++ Dirent.codec.write
        ⟨entry.childIno, i + 1, entry.fileType, entry.filename⟩, r.capacity⟩, false) := by
  have htyp : modeFromKindAndPerm entry.fileType 0 / 2 ^ 12 = entry.fileType.typ := by
    cases entry.fileType <;> rfl
  have hbytes : Dirent.codec.write ⟨entry.childIno, i + 1, entry.fileType, entry.filename⟩ =
      u64.write entry.childIno ++ i64.write (i + 1 : ℕ) ++ u32.write entry.filename.length ++
        u32.write (modeFromKindAndPerm entry.fileType 0 / 2 ^ 12) ++ entry.filename ++
        List.replicate (SqliteFs.direntSize entry.filename -
          (sizeofFuseDirent + entry.filename.length)) 0 := by
    rw [htyp]
    simp only [List.append_assoc]
    exact List.append_assoc (u64.write entry.childIno) _ _
  rw [hbytes]
  rfl

theorem fill_cons (r : ReplyDirectory) (entry : DEntry) (i : ℕ) (l : List (DEntry × ℕ)) :
    r.fill ((entry, i) :: l) =
      if r.data.length + SqliteFs.direntSize entry.filename > r.capacity then r
      else fill ⟨r.data ++ Dirent.codec.write
        ⟨entry.childIno, i + 1, entry.fileType, entry.filename⟩, r.capacity⟩ l := by
  rw [fill, add_entry]
  by_cases hfull : r.data.length + SqliteFs.direntSize entry.filename > r.capacity
  · rw [if_pos hfull, if_pos hfull]
    exact if_pos rfl
  · rw [if_neg hfull, if_neg hfull]
    exact if_neg Bool.false_ne_true

/-- **The buffer of a directory reply** holds the entries that have room, one behind the other. -/
theorem fill_data (r : ReplyDirectory) (l : List (DEntry × ℕ)) :
    (r.fill l).data =
      r.data ++ (SqliteFs.addDirents r.capacity l r.data.length).flatMap Dirent.codec.write := by
  induction l generalizing r with
  | nil => exact (List.append_nil _).symm
  | cons x l ih =>
    obtain ⟨entry, i⟩ := x
    rw [SqliteFs.addDirents, fill_cons]
    by_cases hfull : r.data.length + SqliteFs.direntSize entry.filename > r.capacity
    · rw [if_pos hfull, if_pos hfull, List.flatMap_nil, List.append_nil]
    · rw [if_neg hfull, if_neg hfull, List.flatMap_cons, ← List.append_assoc, ih,
        List.length_append, Dirent.length_write]

/-- A directory reply does not outgrow its buffer. -/
theorem length_fill_le (r : ReplyDirectory) (l : List (DEntry × ℕ))
    (h : r.data.length ≤ r.capacity) : (r.fill l).data.length ≤ r.capacity := by
  induction l generalizing r with
  | nil => exact h
  | cons x l ih =>
    obtain ⟨entry, i⟩ := x
    rw [fill_cons]
    by_cases hfull : r.data.length + SqliteFs.direntSize entry.filename > r.capacity
    · rw [if_pos hfull]
      exact h
    · rw [if_neg hfull]
      refine ih _ ?_
      rw [List.length_append, Dirent.length_write]
      exact not_lt.1 hfull

end ReplyDirectory

/-! ### Messages -/

/-- The error numbers of Linux. -/
def Errno.code : Errno → ℕ
  | .EPERM => 1
  | .ENOENT => 2
  | .EEXIST => 17
  | .ENOTDIR => 20
  | .EISDIR => 21
  | .EINVAL => 22
  | .ERANGE => 34
  | .ENAMETOOLONG => 36
  | .ENOSYS => 38
  | .ENOTEMPTY => 39
  | .ENODATA => 61

/-- The size of `fuse_out_header`. -/
def sizeofFuseOutHeader : ℕ := 16

/-- `ReplyRaw::send`. -/
def ReplyRaw.send (unique err : ℕ) (body : Bytes) : Bytes :=
  FuseOutHeader.codec.write ⟨sizeofFuseOutHeader + body.length, -err, unique⟩ ++ body

/-- `ReplyEntry::entry`. -/
def fuseEntryOut (ttl : Timespec) (attr : FileAttr) (generation : ℕ) : FuseEntryOut where
  nodeid := attr.ino
  generation := generation
  entryValid := ttl.sec
  attrValid := ttl.sec
  entryValidNsec := ttl.nsec
  attrValidNsec := ttl.nsec
  attr := fuseAttrFromAttr attr

/-- `ReplyStatfs::statfs`. -/
def fuseStatfsOut (stat : Statfs) : FuseKstatfs where
  blocks := stat.blocks
  bfree := stat.bfree
  bavail := stat.bavail
  files := stat.files
  ffree := stat.ffree
  bsize := stat.bsize
  namelen := stat.namelen
  frsize := stat.frsize
  padding := 0
  spare := List.replicate 24 0

/-- What the kernel receives in answer to a request. -/
inductive Received
  | error (code : ℤ)
  | nothing
  | entry (o : FuseEntryOut)
  | attr (o : FuseAttrOut)
  | data (bytes : Bytes)
  | opened (o : FuseOpenOut)
  | size (o : FuseSizeOut)
  | created (e : FuseEntryOut) (o : FuseOpenOut)
  | statfs (o : FuseKstatfs)
  | directory (entries : List Dirent)
  | init (o : FuseInitOut)
  deriving DecidableEq

/-- What a reply says, as the structure that goes into the body of its message. -/
def Reply.received : Reply → Received
  | .error e => .error e.code
  | .ok => .nothing
  | .entry ttl a generation => .entry (fuseEntryOut ttl a generation)
  | .attr ttl a => .attr ⟨ttl.sec, ttl.nsec, 0, fuseAttrFromAttr a⟩
  | .data bytes => .data bytes
  | .opened fh flags => .opened ⟨fh, flags, 0⟩
  | .written n => .size ⟨n, 0⟩
  | .created ttl a generation fh flags => .created (fuseEntryOut ttl a generation) ⟨fh, flags, 0⟩
  | .statfs stat => .statfs (fuseStatfsOut stat)
  | .size n => .size ⟨n, 0⟩
  | .directory entries => .directory entries

/-- The body of a message, in memory order. -/
def Received.body : Received → Bytes
  | .error _ => []
  | .nothing => []
  | .entry o => FuseEntryOut.codec.write o
  | .attr o => FuseAttrOut.codec.write o
  | .data bytes => bytes
  | .opened o => FuseOpenOut.codec.write o
  | .size o => FuseSizeOut.codec.write o
  | .created e o => (FuseEntryOut.codec.seq FuseOpenOut.codec).write (e, o)
  | .statfs o => FuseKstatfs.codec.write o
  | .directory entries => entries.flatMap Dirent.codec.write
  | .init o => FuseInitOut.codec.write o

/-- The message of a reply. -/
def Reply.message (unique : ℕ) (r : Reply) : Bytes :=
  match r with
  | .error e => ReplyRaw.send unique e.code []
  | r => ReplyRaw.send unique 0 r.received.body

/-- The bodies that the kernel tells apart. -/
inductive Awaits
  | nothing
  | entry
  | attr
  | data
  | opened
  | size
  | created
  | statfs
  | directory
  | init
  deriving DecidableEq

/-- What a body says where the kernel awaits one of this kind. -/
def Awaits.read : Awaits → Bytes → Option Received
  | .nothing, body => if body = [] then some .nothing else none
  | .entry, body => (FuseEntryOut.codec.readOne body).map .entry
  | .attr, body => (FuseAttrOut.codec.readOne body).map .attr
  | .data, body => some (.data body)
  | .opened, body => (FuseOpenOut.codec.readOne body).map .opened
  | .size, body => (FuseSizeOut.codec.readOne body).map .size
  | .created, body =>
    ((FuseEntryOut.codec.seq FuseOpenOut.codec).readOne body).map fun p => .created p.1 p.2
  | .statfs, body => (FuseKstatfs.codec.readOne body).map .statfs
  | .directory, body => (Dirent.codec.readAll body).map .directory
  | .init, body => (FuseInitOut.codec.readOne body).map .init

/-- What the kernel takes from a message: the request that it answers, and an error or a body. -/
def receive (k : Awaits) (message : Bytes) : Option (ℕ × Received) :=
  (FuseOutHeader.codec.read message).bind fun p =>
    if p.1.len ≠ message.length then none
    else if p.1.error = 0 then (k.read p.2).map (p.1.unique, ·)
    else if p.2 = [] then some (p.1.unique, .error (-p.1.error))
    else none

/-- The kind of body that a reply has; an error has none. -/
def Reply.awaited : Reply → Option Awaits
  | .error _ => none
  | .ok => some .nothing
  | .entry _ _ _ => some .entry
  | .attr _ _ => some .attr
  | .data _ => some .data
  | .opened _ _ => some .opened
  | .written _ => some .size
  | .created _ _ _ _ _ => some .created
  | .statfs _ => some .statfs
  | .size _ => some .size
  | .directory _ => some .directory

/-- A reply that the kernel can take where it awaits a body of kind `k`. -/
def Reply.Answers (k : Awaits) (r : Reply) : Prop := ∀ k' ∈ r.awaited, k' = k

/-! ### What the source's types hold -/

/-- The seconds are an `i64` and the nanoseconds an `i32`. -/
structure Timespec.InRange (t : Timespec) : Prop where
  sec : -2 ^ 63 ≤ t.sec ∧ t.sec < 2 ^ 63
  nsec : -2 ^ 31 ≤ t.nsec ∧ t.nsec < 2 ^ 31

/-- The numbers of the attributes that are not fixed-width in the model fit into their types. -/
structure FileAttr.InRange (a : FileAttr) : Prop where
  ino : a.ino < 2 ^ 64
  size : a.size < 2 ^ 64
  blocks : a.blocks < 2 ^ 64
  atime : a.atime.InRange
  mtime : a.mtime.InRange
  ctime : a.ctime.InRange
  nlink : a.nlink < 2 ^ 32

/-- The figures fit into their types. -/
structure Statfs.InRange (stat : Statfs) : Prop where
  blocks : stat.blocks < 2 ^ 64
  bfree : stat.bfree < 2 ^ 64
  bavail : stat.bavail < 2 ^ 64
  files : stat.files < 2 ^ 64
  ffree : stat.ffree < 2 ^ 64
  bsize : stat.bsize < 2 ^ 32
  namelen : stat.namelen < 2 ^ 32
  frsize : stat.frsize < 2 ^ 32

/-- The numbers of a reply are in the range of their types. -/
def Reply.InRange : Reply → Prop
  | .error _ => True
  | .ok => True
  | .entry ttl a generation => ttl.InRange ∧ a.InRange ∧ generation < 2 ^ 64
  | .attr ttl a => ttl.InRange ∧ a.InRange
  | .data _ => True
  | .opened fh flags => fh < 2 ^ 64 ∧ flags < 2 ^ 32
  | .written n => n < 2 ^ 32
  | .created ttl a generation fh flags =>
    ttl.InRange ∧ a.InRange ∧ generation < 2 ^ 64 ∧ fh < 2 ^ 64 ∧ flags < 2 ^ 32
  | .statfs stat => stat.InRange
  | .size n => n < 2 ^ 32
  | .directory entries => ∀ d ∈ entries, d.InRange

theorem i64_fits {v : ℤ} (h : -2 ^ 63 ≤ v ∧ v < 2 ^ 63) : i64.Fits v := by
  refine Codec.signed_fits ?_ ?_ <;> norm_num <;> omega

theorem i32_fits {v : ℤ} (h : -2 ^ 31 ≤ v ∧ v < 2 ^ 31) : i32.Fits v := by
  refine Codec.signed_fits ?_ ?_ <;> norm_num <;> omega

theorem modeFromKindAndPerm_lt (kind : FileType) (perm : UInt16) :
    modeFromKindAndPerm kind perm < 2 ^ 32 := by
  have hkind : kind.mode < 2 ^ 16 := by
    cases kind <;> decide
  have hor : kind.mode ||| perm.toNat < 2 ^ 16 := Nat.or_lt_two_pow hkind perm.toNat_lt
  exact hor.trans (by norm_num)

theorem FileAttr.InRange.fits {a : FileAttr} (h : a.InRange) :
    FuseAttr.codec.Fits (fuseAttrFromAttr a) :=
  ⟨⟨h.ino, h.size, h.blocks, i64_fits h.atime.sec, i64_fits h.mtime.sec, i64_fits h.ctime.sec,
    i32_fits h.atime.nsec, i32_fits h.mtime.nsec, i32_fits h.ctime.nsec,
    modeFromKindAndPerm_lt _ _, h.nlink, a.uid.toNat_lt, a.gid.toNat_lt, a.rdev.toNat_lt⟩, rfl⟩

theorem fuseEntryOut_fits {ttl : Timespec} {a : FileAttr} {generation : ℕ} (httl : ttl.InRange)
    (ha : a.InRange) (hgeneration : generation < 2 ^ 64) :
    FuseEntryOut.codec.Fits (fuseEntryOut ttl a generation) :=
  ⟨⟨ha.ino, hgeneration, i64_fits httl.sec, i64_fits httl.sec, i32_fits httl.nsec,
    i32_fits httl.nsec, ha.fits⟩, rfl⟩

theorem fuse_open_out_fits {fh flags : ℕ} (hfh : fh < 2 ^ 64) (hflags : flags < 2 ^ 32) :
    FuseOpenOut.codec.Fits ⟨fh, flags, 0⟩ :=
  ⟨⟨hfh, hflags, Nat.two_pow_pos 32⟩, rfl⟩

theorem fuse_size_out_fits {n : ℕ} (hn : n < 2 ^ 32) : FuseSizeOut.codec.Fits ⟨n, 0⟩ :=
  ⟨⟨hn, Nat.two_pow_pos 32⟩, rfl⟩

/-- The body of a reply is read back where the kernel awaits one of its kind. -/
theorem read_body {r : Reply} (hrange : r.InRange) {k : Awaits} (hk : r.awaited = some k) :
    k.read r.received.body = some r.received := by
  cases r with
  | error e => exact absurd hk (Option.some_ne_none k).symm
  | ok =>
    obtain rfl := Option.some.inj hk
    rfl
  | entry ttl a generation =>
    obtain rfl := Option.some.inj hk
    have hfits := fuseEntryOut_fits hrange.1 hrange.2.1 hrange.2.2
    rw [Reply.received, Received.body, Awaits.read, Codec.readOne_write _ hfits, Option.map_some]
  | attr ttl a =>
    obtain rfl := Option.some.inj hk
    have hfits : FuseAttrOut.codec.Fits ⟨ttl.sec, ttl.nsec, 0, fuseAttrFromAttr a⟩ :=
      ⟨⟨i64_fits hrange.1.sec, i32_fits hrange.1.nsec, Nat.two_pow_pos 32, hrange.2.fits⟩, rfl⟩
    rw [Reply.received, Received.body, Awaits.read, Codec.readOne_write _ hfits, Option.map_some]
  | data bytes =>
    obtain rfl := Option.some.inj hk
    rfl
  | opened fh flags =>
    obtain rfl := Option.some.inj hk
    have hfits := fuse_open_out_fits hrange.1 hrange.2
    rw [Reply.received, Received.body, Awaits.read, Codec.readOne_write _ hfits, Option.map_some]
  | written n =>
    obtain rfl := Option.some.inj hk
    have hfits := fuse_size_out_fits hrange
    rw [Reply.received, Received.body, Awaits.read, Codec.readOne_write _ hfits, Option.map_some]
  | created ttl a generation fh flags =>
    obtain rfl := Option.some.inj hk
    obtain ⟨httl, ha, hgeneration, hfh, hflags⟩ := hrange
    have hfits : (FuseEntryOut.codec.seq FuseOpenOut.codec).Fits
        (fuseEntryOut ttl a generation, ⟨fh, flags, 0⟩) :=
      ⟨fuseEntryOut_fits httl ha hgeneration, fuse_open_out_fits hfh hflags⟩
    rw [Reply.received, Received.body, Awaits.read, Codec.readOne_write _ hfits, Option.map_some]
  | statfs stat =>
    obtain rfl := Option.some.inj hk
    have hfits : FuseKstatfs.codec.Fits (fuseStatfsOut stat) :=
      ⟨⟨hrange.blocks, hrange.bfree, hrange.bavail, hrange.files, hrange.ffree, hrange.bsize,
        hrange.namelen, hrange.frsize, Nat.two_pow_pos 32, rfl⟩, rfl⟩
    rw [Reply.received, Received.body, Awaits.read, Codec.readOne_write _ hfits, Option.map_some]
  | size n =>
    obtain rfl := Option.some.inj hk
    have hfits := fuse_size_out_fits hrange
    rw [Reply.received, Received.body, Awaits.read, Codec.readOne_write _ hfits, Option.map_some]
  | directory entries =>
    obtain rfl := Option.some.inj hk
    rw [Reply.received, Received.body, Awaits.read, readAll_dirents hrange, Option.map_some]

theorem Errno.code_pos (e : Errno) : 0 < e.code := by
  cases e <;> decide

theorem Errno.code_lt (e : Errno) : e.code < 2 ^ 31 := by
  cases e <;> decide

/-- What the kernel takes from a message of `ReplyRaw::send`. -/
theorem receive_send (k : Awaits) {unique err : ℕ} (hunique : unique < 2 ^ 64) (herr : err < 2 ^ 31)
    {body : Bytes} (hlen : (ReplyRaw.send unique err body).length < 2 ^ 32) :
    receive k (ReplyRaw.send unique err body) =
      if err = 0 then (k.read body).map (unique, ·)
      else if body = [] then some (unique, .error err) else none := by
  have hhead : (ReplyRaw.send unique err body).length = sizeofFuseOutHeader + body.length := by
    simp only [ReplyRaw.send, FuseOutHeader.codec, Codec.imap, Codec.seq, Codec.dep, u32, i32, u64,
      Codec.unsigned, Codec.signed, List.length_append, length_leBytes, sizeofFuseOutHeader]
  have herror : -2 ^ 31 ≤ (-err : ℤ) ∧ (-err : ℤ) < 2 ^ 31 := by
    omega
  have hfits : FuseOutHeader.codec.Fits ⟨sizeofFuseOutHeader + body.length, -err, unique⟩ :=
    ⟨⟨hhead ▸ hlen, i32_fits herror, hunique⟩, rfl⟩
  have hread := FuseOutHeader.codec.read_write _ hfits body
  rw [receive, hhead, ReplyRaw.send, hread, Option.bind_some, if_neg (not_not.2 rfl)]
  simp only [neg_eq_zero, Nat.cast_eq_zero, neg_neg]

/-- **What was replied is received.** -/
theorem receive_message {r : Reply} (hrange : r.InRange) {k : Awaits} (hk : r.Answers k)
    {unique : ℕ} (hunique : unique < 2 ^ 64) (hlen : (r.message unique).length < 2 ^ 32) :
    receive k (r.message unique) = some (unique, r.received) := by
  by_cases hr : ∃ e, r = .error e
  · obtain ⟨e, rfl⟩ := hr
    have hsend := receive_send k hunique e.code_lt hlen
    rw [if_neg e.code_pos.ne', if_pos rfl] at hsend
    exact hsend
  · have hmessage : r.message unique = ReplyRaw.send unique 0 r.received.body := by
      cases r <;> first | rfl | exact absurd ⟨_, rfl⟩ hr
    obtain ⟨k', hk'⟩ : ∃ k', r.awaited = some k' := by
      cases r <;> first | exact ⟨_, rfl⟩ | exact absurd ⟨_, rfl⟩ hr
    obtain rfl := hk k' hk'
    rw [hmessage] at hlen ⊢
    rw [receive_send k' hunique (by decide) hlen, if_pos rfl, read_body hrange hk']
    rfl

end TemporalFs
