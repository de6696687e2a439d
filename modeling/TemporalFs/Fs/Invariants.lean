import Mathlib
import TemporalFs.Fs.Rules

/-!
# What all handlers keep

The handlers change the state of the file system by calls of methods of the database, by counting
lookups, and by opening and closing. What the methods keep, and what does not depend on the counts,
every handler keeps. `setattr`, the only handler that calls `updateInode`, is not among them, and
neither are the handlers that open and close.

## Main definitions

* `SqliteFs.HandlerCall`: the calls of methods that the handlers make.
* `SqliteFs.HandlerInvariant`: a property that the methods keep.

## Main results

* `SqliteFs.HandlerInvariant.handle`: what the handlers make of it; `SqliteFs.opens_keeps`: opening
  and closing.
-/

namespace TemporalFs

variable {X : Externals}

/-- The requests that open or close a file or a directory. -/
def Request.opensOrCloses : Request → Bool
  | .open .. | .release .. | .opendir .. | .releasedir .. => true
  | _ => false

/-- The request is a `setattr`. -/
def Request.isSetattr : Request → Bool
  | .setattr .. => true
  | _ => false

namespace SqliteFs

open Proc

/-- The calls of methods in all handlers but `setattr`. A call that has a variant for a rewound
mount is given with the choice between the two. -/
inductive HandlerCall (env : Env) : {α : Type} → Call → (Sqlite → Conn X α) → Prop
  | deleteAllNorefInode :
      HandlerCall env .deleteAllNorefInode fun db => db.deleteAllNorefInode
  | deleteInodeIfNoref (i : ℕ) :
      HandlerCall env (.deleteInodeIfNoref i) fun db => db.deleteInodeIfNoref i
  | lookup (rewind : Bool) (p : ℕ) (n : Name) : HandlerCall env .lookup fun db =>
      if rewind then db.lookupAtTime p n else db.lookup (env.now .lookup) p n
  | getInode (rewind : Bool) (i : ℕ) : HandlerCall env .getInode fun db =>
      if rewind then db.getInodeAtTime i else db.getInode i
  | getData (rewind : Bool) (i k length : ℕ) : HandlerCall env (.getData k) fun db =>
      if rewind then db.getDataAtTime (env.now (.getData k)) i k length
      else db.getData (env.now (.getData k)) i k length
  | addInodeAndDentry (p : ℕ) (n : Name) (attr : DBFileAttr) :
      HandlerCall env .addInodeAndDentry fun db =>
        db.addInodeAndDentry (env.now .addInodeAndDentry) p n attr
  | deleteDentry (p : ℕ) (n : Name) :
      HandlerCall env .deleteDentry fun db => db.deleteDentry (env.now .deleteDentry) p n
  | checkDirectoryIsEmpty (i : ℕ) :
      HandlerCall env .checkDirectoryIsEmpty fun db => db.checkDirectoryIsEmpty i
  | writeData (i k : ℕ) (data : Bytes) (size : UInt32) : HandlerCall env (.writeData k) fun db =>
      db.writeData (env.now (.writeData k)) i k data size
  | moveDentry (p : ℕ) (n : Name) (p' : ℕ) (n' : Name) :
      HandlerCall env .moveDentry fun db => db.moveDentry (env.now .moveDentry) p n p' n'
  | linkDentry (i p : ℕ) (n : Name) :
      HandlerCall env .linkDentry fun db => db.linkDentry (env.now .linkDentry) i p n
  | getDentry (rewind : Bool) (i : ℕ) : HandlerCall env .getDentry fun db =>
      if rewind then db.getDentryAtTime i else db.getDentry i
  | setXattr (i : ℕ) (key : Name) (value : Bytes) :
      HandlerCall env .setXattr fun db => db.setXattr (env.now .setXattr) i key value
  | getXattr (rewind : Bool) (i : ℕ) (key : Name) : HandlerCall env .getXattr fun db =>
      if rewind then db.getXattrAtTime i key else db.getXattr i key
  | listXattr (rewind : Bool) (i : ℕ) : HandlerCall env .listXattr fun db =>
      if rewind then db.listXattrAtTime i else db.listXattr i
  | deleteXattr (i : ℕ) (key : Name) :
      HandlerCall env .deleteXattr fun db => db.deleteXattr (env.now .deleteXattr) i key

/-- A property of states that the methods keep and that does not depend on the counts of lookups. -/
structure HandlerInvariant (env : Env) (I : SqliteFs X → Prop) : Prop where
  counts : ∀ s lookupCount, I s → I { s with lookupCount := lookupCount }
  called : ∀ {α : Type} {c : Call} {m : Sqlite → Conn X α}, HandlerCall env c m →
    ∀ s, I s → I (s.withConn (m s.db s.conn).1)

section Parts

variable {α : Type} {I : SqliteFs X → Prop} {env : Env}

theorem keeps_writable : (writable : Handler X Unit).Keeps I :=
  keeps_bind keeps_get fun _ => keeps_require

theorem keeps_toStr (name : Bytes) : (toStr name : Handler X Name).Keeps I :=
  keeps_bind keeps_require fun _ => keeps_pure _

theorem keeps_u32Add (sent : Option Reply) (a b : ℕ) :
    (u32Add env sent a b : Handler X ℕ).Keeps I :=
  keeps_ite (keeps_pure _) (keeps_ite (keeps_stop _) (keeps_pure _))

theorem keeps_u32Sub (a b : ℕ) : (u32Sub env a b : Handler X ℕ).Keeps I :=
  keeps_ite (keeps_pure _) (keeps_ite (keeps_stop _) (keeps_pure _))

theorem keeps_slice (data : Bytes) (lo hi : ℕ) : (slice data lo hi : Handler X Bytes).Keeps I :=
  keeps_bind keeps_require fun _ => keeps_pure _

theorem keeps_lastByte (offset size : ℕ) : (lastByte env offset size : Handler X ℕ).Keeps I :=
  keeps_bind (keeps_u32Add _ _ _) fun _ => keeps_u32Sub _ _

/-- The blocks of a write are read and written by calls on the one inode. -/
theorem keeps_writeBlock {ino i : ℕ}
    (hget : (callOrNoEnt env (.getData i) fun db =>
      db.getData (env.now (.getData i)) ino i blockSize).Keeps I)
    (hput : ∀ data size, (callOrNoEnt env (.writeData i) fun db =>
      db.writeData (env.now (.writeData i)) ino i data size).Keeps I)
    (offset size : ℕ) (data : Bytes) (start_block end_block : ℕ) :
    (writeBlock env ino offset size data start_block end_block i : Handler X Unit).Keeps I := by
  unfold writeBlock
  generalize blockSize = B at hget ⊢
  refine keeps_bind (keeps_ite (keeps_bind (keeps_lastByte _ _) fun _ => keeps_pure _)
    (keeps_pure _)) fun b_end => ?_
  refine keeps_bind (keeps_ite ?_ ?_) fun block_data => ?_
  · exact keeps_bind hget fun _ => keeps_bind (keeps_slice _ _ _) fun _ =>
      keeps_bind (keeps_u32Add _ _ _) fun _ => keeps_bind (keeps_u32Sub _ _) fun _ =>
        keeps_bind (keeps_slice _ _ _) fun _ => keeps_bind (keeps_slice _ _ _) fun _ => keeps_pure _
  · exact keeps_bind (keeps_u32Add _ _ _) fun _ => keeps_slice _ _ _
  · exact keeps_bind (keeps_u32Add _ _ _) fun _ => hput _ _

theorem keeps_write (ino : ℕ)
    (hget : ∀ i, (callOrNoEnt env (.getData i) fun db =>
      db.getData (env.now (.getData i)) (asU32 ino) i blockSize).Keeps I)
    (hput : ∀ i data size, (callOrNoEnt env (.writeData i) fun db =>
      db.writeData (env.now (.writeData i)) (asU32 ino) i data size).Keeps I)
    (offset : ℤ) (data : Bytes) : (write env ino offset data : Handler X Reply).Keeps I :=
  keeps_bind keeps_writable fun _ => keeps_bind (keeps_lastByte _ _) fun _ =>
    keeps_bind (keeps_each (fun i => keeps_writeBlock (hget i) (hput i) _ _ _ _ _) _) fun _ =>
      keeps_pure _

namespace HandlerInvariant

variable (hI : HandlerInvariant env I) {c : Call} {m : Sqlite → Conn X α}

include hI

theorem call (h : HandlerCall env c m) : (call env c m).Keeps I := by
  refine keeps_of_fst fun s hs => ?_
  have hcalled := hI.called h s hs
  unfold SqliteFs.call
  split_ifs
  · exact hs
  · rcases hm : m s.db s.conn with ⟨db, (kind | _) | a⟩ <;> rw [hm] at hcalled <;> exact hcalled

theorem callOr (h : HandlerCall env c m) (onErr : ErrorKind → Errno) :
    (callOr env c m onErr).Keeps I :=
  keeps_bind (hI.call h) fun r => by
    cases r with
    | ok a => exact keeps_pure a
    | error kind => exact keeps_stop _

theorem callOrNoEnt (h : HandlerCall env c m) : (callOrNoEnt env c m).Keeps I := hI.callOr h _

theorem callIgnoring {m : Sqlite → Conn X Unit} (h : HandlerCall env c m) :
    (callIgnoring env c m).Keeps I :=
  keeps_bind (hI.call h) fun _ => keeps_pure ()

end HandlerInvariant

end Parts

/-! ### The handlers -/

section Handlers

variable {α : Type} {I : SqliteFs X → Prop} {env : Env} (hI : HandlerInvariant env I)

include hI

theorem keeps_countLookup (sent : Option Reply) (i : ℕ) :
    (countLookup env sent i : Handler X Unit).Keeps I :=
  keeps_bind keeps_get fun _ => keeps_bind (keeps_u32Add _ _ _) fun _ =>
    keeps_modify fun s h => hI.counts s _ h

theorem keeps_deleteUnlessLookedUp (i : ℕ) :
    (deleteUnlessLookedUp env i : Handler X Unit).Keeps I :=
  keeps_bind keeps_get fun _ => keeps_when (hI.callOrNoEnt (.deleteInodeIfNoref i))

theorem keeps_readInode (i : ℕ) : (readInode env i : Handler X DBFileAttr).Keeps I :=
  keeps_bind keeps_get fun s => keeps_bind (hI.callOrNoEnt (.getInode s.rewind i)) fun _ =>
    keeps_ofOption

theorem keeps_readBlock (i k n : ℕ) : (readBlock env i k n : Handler X Bytes).Keeps I :=
  keeps_bind keeps_get fun s => hI.callOrNoEnt (.getData s.rewind i k n)

theorem keeps_getInode (i : ℕ) {f : DBFileAttr → Handler X α} (hf : ∀ a, (f a).Keeps I) :
    (do
      let found ← callOrNoEnt env .getInode fun db => db.getInode i
      let a ← foundOrNoEnt found
      f a).Keeps I :=
  keeps_bind (hI.callOrNoEnt (.getInode false i)) fun _ => keeps_bind keeps_ofOption hf

theorem keeps_init : (init env : Handler X Unit).Keeps I :=
  keeps_bind keeps_get fun _ => keeps_when (hI.callIgnoring .deleteAllNorefInode)

theorem keeps_destroy : (destroy env : Handler X Unit).Keeps I :=
  keeps_bind keeps_get fun _ =>
    keeps_when (keeps_each (fun i => hI.callIgnoring (.deleteInodeIfNoref i)) _)

theorem keeps_lookup (parent : ℕ) (name : Bytes) :
    (lookup env parent name : Handler X Reply).Keeps I :=
  keeps_bind keeps_get fun s => keeps_bind (keeps_toStr _) fun n =>
    keeps_bind (hI.callOrNoEnt (.lookup s.rewind _ n)) fun _ => keeps_bind keeps_ofOption fun _ =>
      keeps_bind (keeps_countLookup hI _ _) fun _ => keeps_pure _

theorem keeps_forget (ino nlookup : ℕ) : (forget env ino nlookup : Handler X Unit).Keeps I := by
  have hcount : ∀ f : SqliteFs X → AList fun _ : ℕ => ℕ,
      (modify fun s => { s with lookupCount := f s } : Handler X Unit).Keeps I :=
    fun f => keeps_modify fun s h => hI.counts s (f s) h
  refine keeps_bind keeps_get fun _ => keeps_when (keeps_bind (hcount _) fun _ =>
    keeps_bind (keeps_u32Sub _ _) fun lc => keeps_ite ?_ (hcount _))
  exact keeps_bind (hcount _) fun _ => hI.callIgnoring (.deleteInodeIfNoref _)

theorem keeps_getattr (ino : ℕ) : (getattr env ino : Handler X Reply).Keeps I :=
  keeps_bind (keeps_readInode hI _) fun _ => keeps_pure _

theorem keeps_readlink (ino : ℕ) : (readlink env ino : Handler X Reply).Keeps I :=
  keeps_bind (keeps_readInode hI _) fun _ => keeps_bind keeps_require fun _ =>
    keeps_bind (keeps_readBlock hI _ _ _) fun _ => keeps_pure _

theorem keeps_mkdir (parent : ℕ) (name : Bytes) (mode : ℕ) :
    (mkdir env parent name mode : Handler X Reply).Keeps I :=
  keeps_bind keeps_writable fun _ => keeps_getInode hI _ fun _ =>
    keeps_bind (keeps_toStr _) fun _ =>
      keeps_bind (hI.callOrNoEnt (.addInodeAndDentry _ _ _)) fun _ =>
        keeps_bind (keeps_countLookup hI _ _) fun _ => keeps_pure _

theorem keeps_unlink (parent : ℕ) (name : Bytes) :
    (unlink env parent name : Handler X Reply).Keeps I :=
  keeps_bind keeps_writable fun _ => keeps_bind (keeps_toStr _) fun _ =>
    keeps_bind (hI.callOrNoEnt (.deleteDentry _ _)) fun _ =>
      keeps_bind (keeps_deleteUnlessLookedUp hI _) fun _ => keeps_pure _

theorem keeps_rmdir (parent : ℕ) (name : Bytes) :
    (rmdir env parent name : Handler X Reply).Keeps I :=
  keeps_bind keeps_writable fun _ => keeps_bind (keeps_toStr _) fun _ =>
    keeps_bind (hI.callOrNoEnt (.lookup false _ _)) fun _ => keeps_bind keeps_ofOption fun _ =>
      keeps_bind (hI.callOrNoEnt (.checkDirectoryIsEmpty _)) fun _ =>
        keeps_bind keeps_require fun _ =>
          keeps_bind (hI.callOrNoEnt (.deleteDentry _ _)) fun _ =>
            keeps_bind (keeps_deleteUnlessLookedUp hI _) fun _ => keeps_pure _

theorem keeps_symlink (parent : ℕ) (name link : Bytes) :
    (symlink env parent name link : Handler X Reply).Keeps I :=
  keeps_bind keeps_writable fun _ => keeps_bind (keeps_toStr _) fun _ =>
    keeps_bind (hI.callOrNoEnt (.addInodeAndDentry _ _ _)) fun _ =>
      keeps_bind (keeps_toStr _) fun _ => keeps_bind keeps_require fun _ =>
        keeps_bind (hI.callOrNoEnt (.writeData _ _ _ _)) fun _ =>
          keeps_bind (keeps_countLookup hI _ _) fun _ => keeps_pure _

theorem keeps_rename (parent : ℕ) (name : Bytes) (newparent : ℕ) (newname : Bytes) :
    (rename env parent name newparent newname : Handler X Reply).Keeps I := by
  refine keeps_bind keeps_writable fun _ => keeps_bind (keeps_toStr _) fun _ =>
    keeps_bind (keeps_toStr _) fun _ => keeps_bind (hI.callOr (.moveDentry _ _ _ _) _) fun entry =>
      keeps_bind ?_ fun _ => keeps_pure _
  cases entry with
  | none => exact keeps_pure ()
  | some i => exact keeps_deleteUnlessLookedUp hI i

theorem keeps_link (ino newparent : ℕ) (newname : Bytes) :
    (link env ino newparent newname : Handler X Reply).Keeps I :=
  keeps_bind keeps_writable fun _ => keeps_bind (keeps_toStr _) fun _ =>
    keeps_bind (hI.callOr (.linkDentry _ _ _) _) fun _ =>
      keeps_bind (keeps_countLookup hI _ _) fun _ => keeps_pure _

theorem keeps_readLoop (ino fuel size offset : ℕ) (data : Bytes) :
    (readLoop env ino fuel size offset data : Handler X Bytes).Keeps I := by
  induction fuel generalizing size offset data with
  | zero => exact keeps_pure data
  | succ fuel ih =>
    exact keeps_ite (keeps_pure _) (keeps_bind (keeps_readBlock hI _ _ _) fun _ =>
      keeps_bind (keeps_u32Add _ _ _) fun _ => keeps_bind (keeps_slice _ _ _) fun _ =>
        keeps_bind (keeps_u32Add _ _ _) fun _ => ih _ _ _)

theorem keeps_read (ino : ℕ) (offset : ℤ) (size : ℕ) :
    (read env ino offset size : Handler X Reply).Keeps I :=
  keeps_bind (keeps_readLoop hI _ _ _ _ _) fun _ => keeps_pure _

theorem keeps_setxattr (ino : ℕ) (name value : Bytes) (flags : ℕ) :
    (setxattr env ino name value flags : Handler X Reply).Keeps I := by
  refine keeps_bind keeps_writable fun _ => keeps_bind (keeps_toStr _) fun _ =>
    keeps_bind (keeps_when (keeps_bind (hI.call (.getXattr false _ _)) fun found => ?_)) fun _ =>
      keeps_bind (hI.callOrNoEnt (.setXattr _ _ _)) fun _ => keeps_pure _
  unfold checkXattrFlags
  split
  · exact keeps_require
  · exact keeps_require
  · exact keeps_stop _

theorem keeps_getxattr (ino : ℕ) (name : Bytes) (size : ℕ) :
    (getxattr env ino name size : Handler X Reply).Keeps I :=
  keeps_bind keeps_get fun s => keeps_bind (keeps_toStr _) fun n =>
    keeps_bind (hI.callOr (.getXattr s.rewind _ n) _) fun _ => keeps_pure _

theorem keeps_listxattr (ino size : ℕ) : (listxattr env ino size : Handler X Reply).Keeps I :=
  keeps_bind keeps_get fun s => keeps_bind (hI.callOr (.listXattr s.rewind _) _) fun _ =>
    keeps_pure _

theorem keeps_removexattr (ino : ℕ) (name : Bytes) :
    (removexattr env ino name : Handler X Reply).Keeps I :=
  keeps_bind keeps_writable fun _ => keeps_bind (keeps_toStr _) fun _ =>
    keeps_bind (hI.callOrNoEnt (.deleteXattr _ _)) fun _ => keeps_pure _

theorem keeps_create (parent : ℕ) (name : Bytes) (mode : ℕ) :
    (create env parent name mode : Handler X Reply).Keeps I := by
  refine keeps_bind keeps_writable fun _ => keeps_bind (keeps_toStr _) fun n =>
    keeps_bind (hI.callOrNoEnt (.lookup false _ n)) fun found => keeps_bind ?_ fun _ =>
      keeps_bind (keeps_countLookup hI _ _) fun _ => keeps_pure _
  cases found with
  | some a => exact keeps_pure a
  | none =>
    exact keeps_getInode hI _ fun _ =>
      keeps_bind (hI.callOrNoEnt (.addInodeAndDentry _ _ _)) fun _ => keeps_pure _

end Handlers

section Requests

variable {I : SqliteFs X → Prop} {env : Env} {s : SqliteFs X}

theorem outcome_keeps {h : Handler X Reply} (hh : h.Keeps I) (hs : I s) : I (outcome h s).1 := by
  rw [outcome_fst]
  exact hh.fst hs

theorem silently_keeps {h : Handler X Unit} (hh : h.Keeps I) (hs : I s) : I (silently h s).1 := by
  rw [silently_fst]
  exact hh.fst hs

/-- A property that does not depend on the handles either is kept by opening and closing. -/
theorem opens_keeps (hI : HandlerInvariant env I) (hhandles : ∀ s F D, I s →
      I { s with openFileHandler := F, openDirHandler := D })
    {r : Request} (hr : r.opensOrCloses = true) (hs : I s) : I (handle env r s).1 := by
  have hfiles : ∀ f : SqliteFs X → AList fun _ : ℕ => OpenFileHandler,
      (modify fun s => { s with openFileHandler := f s } : Handler X Unit).Keeps I :=
    fun f => keeps_modify fun s h => hhandles s (f s) s.openDirHandler h
  have hdirs : ∀ f : SqliteFs X → AList fun _ : ℕ => OpenDirHandler,
      (modify fun s => { s with openDirHandler := f s } : Handler X Unit).Keeps I :=
    fun f => keeps_modify fun s h => hhandles s s.openFileHandler (f s) h
  cases r with
  | «open» ino flags =>
    exact outcome_keeps (keeps_bind keeps_get fun _ => keeps_bind keeps_require fun _ =>
      keeps_bind (hfiles _) fun _ => keeps_pure _) hs
  | release ino fh =>
    exact outcome_keeps (keeps_bind keeps_get fun _ => keeps_bind (hfiles _) fun _ =>
      keeps_pure _) hs
  | opendir ino =>
    exact outcome_keeps (keeps_bind keeps_get fun s =>
      keeps_bind (hI.callOrNoEnt (.getDentry s.rewind _)) fun _ => keeps_bind (hdirs _) fun _ =>
        keeps_pure _) hs
  | releasedir ino fh =>
    exact outcome_keeps (keeps_bind keeps_get fun _ => keeps_bind (hdirs _) fun _ =>
      keeps_pure _) hs
  | _ => exact absurd hr (by simp [Request.opensOrCloses])

/-- The requests that neither open nor close nor set attributes keep an invariant of handlers. -/
theorem HandlerInvariant.handle (hI : HandlerInvariant env I) {r : Request}
    (hr : r.opensOrCloses = false) (hset : r.isSetattr = false) (hs : I s) :
    I (handle env r s).1 := by
  cases r with
  | init => exact silently_keeps (keeps_init hI) hs
  | destroy => exact silently_keeps (keeps_destroy hI) hs
  | lookup parent name => exact outcome_keeps (keeps_lookup hI parent name) hs
  | forget ino nlookup => exact silently_keeps (keeps_forget hI ino nlookup) hs
  | getattr ino => exact outcome_keeps (keeps_getattr hI ino) hs
  | setattr => exact absurd hset (by simp [Request.isSetattr])
  | readlink ino => exact outcome_keeps (keeps_readlink hI ino) hs
  | mkdir parent name mode => exact outcome_keeps (keeps_mkdir hI parent name mode) hs
  | unlink parent name => exact outcome_keeps (keeps_unlink hI parent name) hs
  | rmdir parent name => exact outcome_keeps (keeps_rmdir hI parent name) hs
  | symlink parent name link => exact outcome_keeps (keeps_symlink hI parent name link) hs
  | rename p n p' n' => exact outcome_keeps (keeps_rename hI p n p' n') hs
  | link ino parent name => exact outcome_keeps (keeps_link hI ino parent name) hs
  | «open» => exact absurd hr (by simp [Request.opensOrCloses])
  | read ino fh offset size => exact outcome_keeps (keeps_read hI ino offset size) hs
  | write ino fh offset data =>
    exact outcome_keeps (keeps_write ino (fun i => hI.callOrNoEnt (.getData false _ i _))
      (fun i _ _ => hI.callOrNoEnt (.writeData _ i _ _)) offset data) hs
  | release => exact absurd hr (by simp [Request.opensOrCloses])
  | opendir => exact absurd hr (by simp [Request.opensOrCloses])
  | readdir ino fh offset size =>
    exact outcome_keeps (keeps_bind keeps_get fun _ => keeps_bind keeps_ofOption fun _ =>
      keeps_pure _) hs
  | releasedir => exact absurd hr (by simp [Request.opensOrCloses])
  | statfs ino => exact outcome_keeps (keeps_bind keeps_ofOption fun _ => keeps_pure _) hs
  | setxattr ino name value flags => exact outcome_keeps (keeps_setxattr hI ino name value flags) hs
  | getxattr ino name size => exact outcome_keeps (keeps_getxattr hI ino name size) hs
  | listxattr ino size => exact outcome_keeps (keeps_listxattr hI ino size) hs
  | removexattr ino name => exact outcome_keeps (keeps_removexattr hI ino name) hs
  | create parent name mode => exact outcome_keeps (keeps_create hI parent name mode) hs
  | unimplemented => exact hs

end Requests

end SqliteFs

end TemporalFs
