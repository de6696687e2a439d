import Mathlib
import TemporalFs.Lib.HandleTable
import TemporalFs.Fs.Effects
import TemporalFs.Fs.Invariants

/-!
# Open files and directories

The handles of open files and of open directories are kept in two tables of the same make. `open`,
`release`, `opendir` and `releasedir` are operations on these tables, and no other request touches
them.

In the source each table maps an inode to a counter and to the records under their numbers. A row is
made where the inode has none yet, and `release` drops a row whose counter is still zero. Read as an
instance of `Lib.HandleTable`, an inode without a row is one with the counter zero and no records,
so that neither makes a difference, and what holds of numbered handles holds of both tables.

## Main definitions

* `SqliteFs.fileHandles`, `SqliteFs.dirHandles`: the two tables.

## Main results

* `SqliteFs.handle_open`, `SqliteFs.handle_opendir` and so on: what opening and closing does to
  them.
* `SqliteFs.handle_steady`: no other request touches them.
-/

namespace TemporalFs

variable {X : Externals}

namespace SqliteFs

open Proc

/-- The records of open files. -/
def fileHandles (s : SqliteFs X) : HandleTable ℕ OpenFileStat :=
  .ofLists OpenFileHandler.count OpenFileHandler.list s.openFileHandler

/-- The snapshots of open directories. -/
def dirHandles (s : SqliteFs X) : HandleTable ℕ (List DEntry) :=
  .ofLists OpenDirHandler.count OpenDirHandler.list s.openDirHandler

/-- The tables of open files and directories are `F` and `D`. -/
def HandlesAre (F : AList fun _ : ℕ => OpenFileHandler) (D : AList fun _ : ℕ => OpenDirHandler)
    (s : SqliteFs X) : Prop :=
  s.openFileHandler = F ∧ s.openDirHandler = D

section Steady

variable {α : Type} {env : Env} {F : AList fun _ : ℕ => OpenFileHandler}
  {D : AList fun _ : ℕ => OpenDirHandler}

/-- The program does not touch the tables of open files and directories. -/
abbrev Steady (F : AList fun _ : ℕ => OpenFileHandler) (D : AList fun _ : ℕ => OpenDirHandler)
    (x : Handler X α) : Prop :=
  x.Keeps (HandlesAre F D)

theorem handlerInvariant_handlesAre : HandlerInvariant env (HandlesAre (X := X) F D) :=
  ⟨fun _ _ h => h, fun _ _ h => h⟩

theorem steady_call (c : Call) (m : Sqlite → Conn X α) : Steady F D (call env c m) := by
  refine keeps_of_fst fun s hs => ?_
  unfold call
  split_ifs
  · exact hs
  · rcases m s.db s.conn with ⟨db, (kind | _) | a⟩ <;> exact hs

theorem steady_callOr (c : Call) (m : Sqlite → Conn X α) (onErr : ErrorKind → Errno) :
    Steady F D (callOr env c m onErr) :=
  keeps_bind (steady_call c m) fun r => by
    cases r with
    | ok a => exact keeps_pure a
    | error kind => exact keeps_stop _

theorem steady_setTime (t : SystemTime) (o : Option Timespec) :
    Steady F D (setTime t o : Handler X SystemTime) := by
  cases o with
  | none => exact keeps_pure t
  | some ts => exact keeps_ofOption

theorem steady_setattr (ino : ℕ) (req : SetAttr) :
    Steady F D (setattr env ino req : Handler X Reply) :=
  keeps_bind keeps_writable fun _ => keeps_getInode handlerInvariant_handlesAre _ fun _ =>
    keeps_bind (steady_setTime _ _) fun _ => keeps_bind (steady_setTime _ _) fun _ =>
      keeps_bind (steady_setTime _ _) fun _ => keeps_bind (steady_callOr _ _ _) fun _ =>
        keeps_pure _

end Steady

variable {env : Env} {s : SqliteFs X}

/-- No other request touches the tables of open files and directories. -/
theorem handle_steady {r : Request} (hr : r.opensOrCloses = false) :
    HandlesAre s.openFileHandler s.openDirHandler (handle env r s).1 := by
  have hs : HandlesAre s.openFileHandler s.openDirHandler s := ⟨rfl, rfl⟩
  by_cases hset : r.isSetattr = true
  · cases r with
    | setattr ino req => exact outcome_keeps (steady_setattr ino req) hs
    | _ => exact absurd hset (by simp [Request.isSetattr])
  · exact handlerInvariant_handlesAre.handle hr (by simpa using hset) hs

theorem fileHandles_congr {s' : SqliteFs X} (h : s'.openFileHandler = s.openFileHandler) :
    s'.fileHandles = s.fileHandles := by
  unfold fileHandles
  rw [h]

theorem dirHandles_congr {s' : SqliteFs X} (h : s'.openDirHandler = s.openDirHandler) :
    s'.dirHandles = s.dirHandles := by
  unfold dirHandles
  rw [h]

/-! ### Opening and closing -/

/-- The record of a file opened with `flags`. -/
def openFileStat (flags : ℕ) : OpenFileStat :=
  ⟨hasFlag flags oRdonly, hasFlag flags oAppend, hasFlag flags oNoatime⟩

/-- What `open` does to the handles. -/
inductive Opened (s : SqliteFs X) (ino flags : ℕ) (s' : SqliteFs X) : Outcome → Prop
  | refused (e : Errno) (h : s' = s) : Opened s ino flags s' (.replied (.error e))
  | opened {fh : ℕ} (hfh : s.fileHandles.next (asU32 ino) = fh)
      (hfiles : s'.fileHandles = s.fileHandles.opened (asU32 ino) (openFileStat flags))
      (hdirs : s'.openDirHandler = s.openDirHandler) :
      Opened s ino flags s' (.replied (.opened fh 0))

/-- What `opendir` does to the handles, where the directory has the entries `l`. -/
inductive OpenedDir (s : SqliteFs X) (ino : ℕ) (l : List DEntry) (s' : SqliteFs X) : Outcome → Prop
  | refused {out : Outcome} (hfail : out.Failed)
      (h : HandlesAre s.openFileHandler s.openDirHandler s') : OpenedDir s ino l s' out
  | opened {fh : ℕ} (hfh : s.dirHandles.next (asU32 ino) = fh)
      (hdirs : s'.dirHandles = s.dirHandles.opened (asU32 ino) l)
      (hfiles : s'.openFileHandler = s.openFileHandler) :
      OpenedDir s ino l s' (.replied (.opened fh 0))

theorem fileRecord (s : SqliteFs X) (i : ℕ) :
    HandleTable.RecordOf OpenFileHandler.count OpenFileHandler.list s.openFileHandler i
      ((s.openFileHandler.lookup i).getD ⟨0, ∅⟩) :=
  HandleTable.recordOf_getD _ _ _ i rfl rfl

theorem dirRecord (s : SqliteFs X) (i : ℕ) :
    HandleTable.RecordOf OpenDirHandler.count OpenDirHandler.list s.openDirHandler i
      ((s.openDirHandler.lookup i).getD ⟨0, ∅⟩) :=
  HandleTable.recordOf_getD _ _ _ i rfl rfl

variable (env s)

theorem handle_open (ino flags : ℕ) :
    s.Opened ino flags (handle env (.open ino flags) s).1 (handle env (.open ino flags) s).2 := by
  refine outcome_of_ensures (P := s.Opened ino flags) ?_
  unfold «open»
  simp only [ensures_bind, ensures_get, ensures_require, ensures_modify, ensures_pure]
  have hrec := s.fileRecord (asU32 ino)
  refine ⟨fun _ => ?_, fun _ => .refused .EPERM rfl⟩
  exact .opened hrec.next (hrec.opened rfl rfl) rfl

variable {s} in
theorem handle_release (hfresh : s.fileHandles.Fresh) (ino fh : ℕ) :
    (handle env (.release ino fh) s).1.fileHandles = s.fileHandles.released (asU32 ino) fh ∧
      (handle env (.release ino fh) s).1.openDirHandler = s.openDirHandler := by
  have hrec := s.fileRecord (asU32 ino)
  refine ⟨?_, rfl⟩
  change HandleTable.ofLists _ _ (if _ then _ else _) = _
  split_ifs with hzero
  · exact hrec.dropped hfresh hzero fh
  · exact hrec.released rfl rfl

/-- The entries of all directories, as the mount shows them. -/
def shownEntries (s : SqliteFs X) : List DentryRow :=
  if s.rewind then (s.db.temp.map TempTables.tdentry).getD [] else s.conn.dentry.rows

theorem handle_opendir (ino : ℕ) :
    s.OpenedDir ino (Sqlite.dentryList s.shownEntries (asU32 ino))
      (handle env (.opendir ino) s).1 (handle env (.opendir ino) s).2 := by
  refine outcome_of_ensures (P := s.OpenedDir ino _) ?_
  have hsame : HandlesAre s.openFileHandler s.openDirHandler s := ⟨rfl, rfl⟩
  have hrec := s.dirRecord (asU32 ino)
  generalize hr : (s.openDirHandler.lookup (asU32 ino)).getD ⟨0, ∅⟩ = r at hrec
  have hopened : ∀ (l : List DEntry) (db : Db X), s.OpenedDir ino l
      { s.withConn db with
        openDirHandler :=
          s.openDirHandler.insert (asU32 ino) ⟨r.count + 1, r.list.insert r.count l⟩ }
      (.replied (.opened r.count 0)) :=
    fun l db => .opened hrec.next (hrec.opened rfl rfl) rfl
  unfold opendir
  simp only [ensures_bind, ensures_get, ensures_callOrNoEnt, ensures_modify, ensures_pure]
  refine ⟨fun _ => .refused trivial hsame, fun _ => ?_⟩
  unfold shownEntries
  cases hre : s.rewind with
  | false =>
    simp only [Bool.false_eq_true, ↓reduceIte, Sqlite.getDentry, ensures_bind, ensures_get,
      ensures_pure, hr]
    exact hopened _ s.conn
  | true =>
    simp only [↓reduceIte, Sqlite.getDentryAtTime, Sqlite.queryTemp, ensures_bind,
      ensures_ofOption]
    refine ⟨fun t ht => ?_, fun _ => .refused trivial hsame⟩
    simp only [ht, Option.map_some, Option.getD_some, hr]
    exact hopened _ s.conn

variable {s} in
theorem handle_releasedir (hfresh : s.dirHandles.Fresh) (ino fh : ℕ) :
    (handle env (.releasedir ino fh) s).1.dirHandles = s.dirHandles.released (asU32 ino) fh ∧
      (handle env (.releasedir ino fh) s).1.openFileHandler = s.openFileHandler := by
  have hrec := s.dirRecord (asU32 ino)
  refine ⟨?_, rfl⟩
  change HandleTable.ofLists _ _ (if _ then _ else _) = _
  split_ifs with hzero
  · exact hrec.dropped hfresh hzero fh
  · exact hrec.released rfl rfl

end SqliteFs

end TemporalFs
