import Mathlib
import TemporalFs.Db.Steps

/-!
# Runs of methods

A run calls methods of `Sqlite` one after the other, each on a connection of its own settings. A
method that fails has rolled back, and the run goes on with the state it left.

What a run keeps is shown once, for all methods, from what the single statements keep (`Db.Steps`):
a property that the insertions, updates and deletions of rows keep is kept by every list of calls. A
rename is set apart, because it is the one method that changes the key of an entry, and its trigger
logs such a change in its own way.

## Main definitions

* `Method`, `Method.run`: the methods and the database after a call.
* `runMethods`: the database after a list of calls; `Db.initialised`: a database just initialised.

## Main results

* `Method.run_keeps`, `runMethods_keeps`: what row changes keep, every run keeps.
-/

namespace TemporalFs

variable {X : Externals}

/-- The methods of `Sqlite` with their arguments. Those that read the clock have its reading as an
argument. -/
inductive Method
  | init (now : Now)
  | getInode (inode : ℕ)
  | getInodeAtTime (inode : ℕ)
  | addInodeAndDentry (now : Now) (parent : ℕ) (name : Name) (attr : DBFileAttr)
  | updateInode (now : Now) (attr : DBFileAttr) (truncate : Bool)
  | deleteInodeIfNoref (inode : ℕ)
  | getDentry (inode : ℕ)
  | getDentryAtTime (inode : ℕ)
  | linkDentry (now : Now) (inode parent : ℕ) (name : Name)
  | deleteDentry (now : Now) (parent : ℕ) (name : Name)
  | moveDentry (now : Now) (parent : ℕ) (name : Name) (new_parent : ℕ) (new_name : Name)
  | checkDirectoryIsEmpty (inode : ℕ)
  | lookup (now : Now) (parent : ℕ) (name : Name)
  | lookupAtTime (parent : ℕ) (name : Name)
  | getData (now : Now) (inode block length : ℕ)
  | getDataAtTime (now : Now) (inode block length : ℕ)
  | writeData (now : Now) (inode block : ℕ) (data : Bytes) (size : UInt32)
  | releaseData (inode : ℕ)
  | deleteAllNorefInode
  | setXattr (now : Now) (inode : ℕ) (key : Name) (value : Bytes)
  | getXattr (inode : ℕ) (key : Name)
  | getXattrAtTime (inode : ℕ) (key : Name)
  | listXattr (inode : ℕ)
  | listXattrAtTime (inode : ℕ)
  | deleteXattr (now : Now) (inode : ℕ) (key : Name)

/-- The database after a call, whether it succeeds or not; what it returns is left out. -/
def Method.run (self : Sqlite) (db : Db X) : Method → Db X
  | .init now => (self.init now db).1
  | .getInode inode => (self.getInode inode db).1
  | .getInodeAtTime inode => (self.getInodeAtTime inode db).1
  | .addInodeAndDentry now parent name attr =>
    (self.addInodeAndDentry now parent name attr db).1
  | .updateInode now attr truncate => (self.updateInode now attr truncate db).1
  | .deleteInodeIfNoref inode => (self.deleteInodeIfNoref inode db).1
  | .getDentry inode => (self.getDentry inode db).1
  | .getDentryAtTime inode => (self.getDentryAtTime inode db).1
  | .linkDentry now inode parent name => (self.linkDentry now inode parent name db).1
  | .deleteDentry now parent name => (self.deleteDentry now parent name db).1
  | .moveDentry now parent name new_parent new_name =>
    (self.moveDentry now parent name new_parent new_name db).1
  | .checkDirectoryIsEmpty inode => (self.checkDirectoryIsEmpty inode db).1
  | .lookup now parent name => (self.lookup now parent name db).1
  | .lookupAtTime parent name => (self.lookupAtTime parent name db).1
  | .getData now inode block length => (self.getData now inode block length db).1
  | .getDataAtTime now inode block length => (self.getDataAtTime now inode block length db).1
  | .writeData now inode block data size => (self.writeData now inode block data size db).1
  | .releaseData inode => (self.releaseData inode db).1
  | .deleteAllNorefInode => (self.deleteAllNorefInode db).1
  | .setXattr now inode key value => (self.setXattr now inode key value db).1
  | .getXattr inode key => (self.getXattr inode key db).1
  | .getXattrAtTime inode key => (self.getXattrAtTime inode key db).1
  | .listXattr inode => (self.listXattr inode db).1
  | .listXattrAtTime inode => (self.listXattrAtTime inode db).1
  | .deleteXattr now inode key => (self.deleteXattr now inode key db).1

/-- The database after a list of calls, each on a connection with settings of its own. -/
def runMethods (db : Db X) (ms : List (Sqlite × Method)) : Db X :=
  ms.foldl (fun db m => m.2.run m.1 db) db

/-- A new database after `init`, which every run of methods starts from. -/
def Db.initialised (X : Externals) (clock : ℕ → ℕ) (self : Sqlite) (now : Now) : Db X :=
  (self.init now (Db.empty X clock)).1

@[simp] theorem runMethods_nil (db : Db X) : runMethods db [] = db := rfl

@[simp] theorem runMethods_cons (db : Db X) (m : Sqlite × Method) (ms : List (Sqlite × Method)) :
    runMethods db (m :: ms) = runMethods (m.2.run m.1 db) ms := rfl

open Proc in
/-- What row changes keep that do not change keys, every method keeps, provided that `moveDentry`
keeps it. -/
theorem Method.run_keeps_of_move {I : Db X → Prop} (hI : Db.Closed false true I) (self : Sqlite)
    {db : Db X} (h : I db) (m : Method) (hmove : ∀ now p n p' n',
      m = .moveDentry now p n p' n' → I (self.moveDentry now p n p' n' db).1) :
    I (m.run self db) := by
  cases m with
  | init now => exact (self.keeps_init hI now).fst h
  | getInode i => exact (keeps_getInodeLocal i).fst h
  | getInodeAtTime i => exact (self.keeps_queryTemp _).fst h
  | addInodeAndDentry now p n attr => exact (self.keeps_addInodeAndDentry hI now p n attr).fst h
  | updateInode now attr t => exact (self.keeps_updateInode hI now attr t).fst h
  | deleteInodeIfNoref i => exact (self.keeps_deleteInodeIfNoref hI i).fst h
  | getDentry i => exact h
  | getDentryAtTime i => exact (self.keeps_queryTemp _).fst h
  | linkDentry now i p n => exact (self.keeps_linkDentry hI now i p n).fst h
  | deleteDentry now p n => exact (self.keeps_deleteDentry hI now p n).fst h
  | moveDentry now p n p' n' => exact hmove now p n p' n' rfl
  | checkDirectoryIsEmpty i => exact h
  | lookup now p n => exact (self.keeps_lookup hI now p n).fst h
  | lookupAtTime p n => exact (self.keeps_queryTemp _).fst h
  | getData now i k len => exact (self.keeps_getData hI now i k len).fst h
  | getDataAtTime now i k len => exact (self.keeps_getDataAtTime hI now i k len).fst h
  | writeData now i k data size => exact (self.keeps_writeData hI now i k data size).fst h
  | releaseData i => exact (self.keeps_releaseData hI i).fst h
  | deleteAllNorefInode => exact (self.keeps_deleteAllNorefInode hI).fst h
  | setXattr now i key value => exact (self.keeps_setXattr hI now i key value).fst h
  | getXattr i key =>
    exact (keeps_bind keeps_get fun _ => keeps_bind keeps_ofOption fun _ => keeps_pure _).fst h
  | getXattrAtTime i key => exact (self.keeps_queryTemp _).fst h
  | listXattr i => exact h
  | listXattrAtTime i => exact (self.keeps_queryTemp _).fst h
  | deleteXattr now i key => exact (self.keeps_deleteXattr hI now i key).fst h

/-- **What row changes keep, every method keeps.** -/
theorem Method.run_keeps {I : Db X → Prop} (hI : Db.Closed true true I) (self : Sqlite) {db : Db X}
    (h : I db) (m : Method) : I (m.run self db) :=
  m.run_keeps_of_move (.of_any hI) self h fun now p n p' n' _ =>
    (self.keeps_moveDentry hI now p n p' n').fst h

theorem runMethods_keeps {I : Db X → Prop} (hI : Db.Closed true true I)
    (ms : List (Sqlite × Method)) {db : Db X} (h : I db) : I (runMethods db ms) := by
  induction ms generalizing db with
  | nil => exact h
  | cons m ms ih => exact ih (m.2.run_keeps hI m.1 h)

end TemporalFs
