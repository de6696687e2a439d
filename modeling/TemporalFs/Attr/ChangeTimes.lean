import Mathlib
import TemporalFs.Attr.Frames
import TemporalFs.Attr.Unrecorded

/-!
# Times of change

With time recording on, a request sets the time of the change of the inodes that it changes to its
reading of the clock. It misses the file that gets one more name by `link`, the inode whose name
`rename` takes, where that stays, and the inodes with a name in a directory that `unlink` removes.

## Main definitions

* `Db.CtimesSet`: the times of change after a request.
* `SqliteFs.RecordsChanges`: every inode that the request changes has the time of the request.
* `SqliteFs.MissesNone`: the inodes that it changes without setting their time have it already.

## Main results

* `SqliteFs.unlink_ctimes`, `SqliteFs.rename_ctimes` and so on: what the handlers record.
* `SqliteFs.records_changes_iff`: the condition is the right one.
-/

namespace TemporalFs

variable {X : Externals}

/-- A reply other than an error. -/
def Outcome.Succeeded : Outcome → Prop
  | .replied (.error _) => False
  | .replied _ => True
  | _ => False

theorem Outcome.Failed.not_succeeded {out : Outcome} (h : out.Failed) : ¬ out.Succeeded := by
  cases out with
  | replied r => cases r <;> first | exact id | exact h.elim
  | silent => exact id
  | crashed sent => exact id

theorem Stop.exit_not_succeeded (onErr : ErrorKind → Errno) :
    (e : Stop) → ¬ (e.exit onErr).outcome.Succeeded
  | .err _ => id
  | .panic => id

/-- The inodes of `db` that are left in `db'` have the time of change that they had, but those in
`S` have the time `now`. -/
structure Db.CtimesSet (now : Now) (S : Finset ℕ) (db db' : Db X) : Prop where
  sequence_le : db.sqliteSequence ≤ db'.sqliteSequence
  row : ∀ i m', i ≤ db.sqliteSequence → db'.metadata.find i = some m' →
    ∃ m, db.metadata.find i = some m ∧
      m'.ctime = if i ∈ S then now.1.throughDatetime else m.ctime

namespace Db.CtimesSet

variable {now now' : Now} {S : Finset ℕ} {db db' db'' : Db X}

theorem of_stamped {A M : Finset ℕ} (h : db.Stamped now ⟨A, M, S⟩ db') :
    db.CtimesSet now S db' := by
  refine ⟨h.sequence_le, fun i m' hi hm' => ?_⟩
  obtain ⟨m, hm, htimes⟩ := h.row i m' hi hm'
  exact ⟨m, hm, congrArg Times.ctime htimes⟩

theorem none_trans (h : db.CtimesSet now ∅ db') (h' : db'.CtimesSet now' S db'') :
    db.CtimesSet now' S db'' := by
  refine ⟨h.sequence_le.trans h'.sequence_le, fun i m'' hi hm'' => ?_⟩
  obtain ⟨m', hm', htime'⟩ := h'.row i m'' (hi.trans h.sequence_le) hm''
  obtain ⟨m, hm, htime⟩ := h.row i m' hi hm'
  refine ⟨m, hm, htime'.trans ?_⟩
  rw [htime, if_neg (Finset.notMem_empty i)]

/-- Later times of inodes that are not in `db` do not matter. -/
theorem trans_of_fresh {S' : Finset ℕ} (h : db.CtimesSet now S db')
    (h' : db'.CtimesSet now' S' db'') (hS' : ∀ i ∈ S', db.sqliteSequence < i) :
    db.CtimesSet now S db'' := by
  refine ⟨h.sequence_le.trans h'.sequence_le, fun i m'' hi hm'' => ?_⟩
  obtain ⟨m', hm', htime'⟩ := h'.row i m'' (hi.trans h.sequence_le) hm''
  obtain ⟨m, hm, htime⟩ := h.row i m' hi hm'
  rw [if_neg fun hin => absurd (hS' i hin) (not_lt.2 hi)] at htime'
  exact ⟨m, hm, htime'.trans htime⟩

theorem collect (h : db.CtimesSet now S db') (i : ℕ) : db.CtimesSet now S (db'.collect i) :=
  have hstamp : db'.Stamped now .none (db'.collect i) := .collect db' i
  h.trans_of_fresh (of_stamped hstamp) fun _ h => absurd h (by simp)

end Db.CtimesSet

namespace SqliteFs

open Proc

variable {s s' : SqliteFs X} {env : Env}

/-! ### What the handlers record -/

/-- The end of `unlink`, `rmdir` and `rename`. -/
theorem deleteUnlessLookedUp_ctimes {now : Now} {S : Finset ℕ} {db : Db X}
    (h : s.conn.CtimesSet now S db) (i : ℕ) :
    (deleteUnlessLookedUp env i).Ensures (s.withConn db)
      (fun _ s' => s.conn.CtimesSet now S s'.conn) (fun e _ => ¬ e.outcome.Succeeded) := by
  refine (deleteUnlessLookedUp_spec i).mono (fun _ s' hs' => ?_) fun e _ h => h.1 ▸ id
  rw [hs']
  split_ifs
  · exact h
  · exact h.collect i

theorem countLookup_ctimes {now : Now} {S : Finset ℕ} {db : Db X} (h : s.conn.CtimesSet now S db)
    (sent : Option Reply) (i : ℕ) : (countLookup env sent i).Ensures (s.withConn db)
      (fun _ s' => s.conn.CtimesSet now S s'.conn) (fun e _ => ¬ e.outcome.Succeeded) :=
  (countLookup_spec sent i).mono (fun _ _ hs' => hs' ▸ h) fun _ _ h => h.1 ▸ id

section Handlers

variable (hrec : s.db.timeRecording = true)

include hrec

theorem ctimes_of_recorded {now : Now} {A M S : Finset ℕ} {db db' : Db X}
    (h : db.Stamped now (s.db.recorded ⟨A, M, S⟩) db') : db.CtimesSet now S db' :=
  .of_stamped (h.congr (Sqlite.recorded_of_recording hrec _))

theorem mkdir_ctimes (parent : ℕ) (name : Bytes) (mode : ℕ) :
    (mkdir env parent name mode).Ensures s (fun _ s' =>
      s.conn.CtimesSet (env.now .addInodeAndDentry) {asU32 parent} s'.conn)
        (fun e _ => ¬ e.outcome.Succeeded) := by
  unfold mkdir
  simp only [ensures_bind, ensures_writable, ensures_callOrNoEnt, ensures_foundOrNoEnt,
    ensures_toStr, ensures_pure]
  refine ⟨fun _ => ⟨fun _ => id, fun _ => ?_⟩, fun _ => id⟩
  refine (getInode_spec _ _ _).mono (fun found db h => ⟨fun a _ => ?_, fun _ => id⟩)
    fun e _ _ => e.exit_not_succeeded _
  obtain ⟨rfl, -⟩ := h
  refine ⟨fun _ => ⟨fun _ => id, fun _ => ?_⟩, fun _ => id⟩
  refine (s.db.addInodeAndDentry_stamps _ _ _ _ _).mono (fun child db h => ?_)
    fun e _ _ => e.exit_not_succeeded _
  exact countLookup_ctimes (ctimes_of_recorded hrec h) _ _

theorem symlink_ctimes (parent : ℕ) (name link : Bytes) :
    (symlink env parent name link).Ensures s (fun _ s' =>
      s.conn.CtimesSet (env.now .addInodeAndDentry) {asU32 parent} s'.conn)
        (fun e _ => ¬ e.outcome.Succeeded) := by
  unfold symlink
  simp only [ensures_bind, ensures_writable, ensures_callOrNoEnt, ensures_toStr, ensures_require,
    ensures_pure]
  refine ⟨fun _ => ⟨fun _ => ⟨fun _ => id, fun _ => ?_⟩, fun _ => id⟩, fun _ => id⟩
  refine ((s.db.addInodeAndDentry_spec _ _ _ _ _).and
    (s.db.addInodeAndDentry_stamps _ _ _ _ _)).mono (fun child db h => ?_) fun e _ _ =>
      e.exit_not_succeeded _
  obtain ⟨hadd, hstamp⟩ := h
  refine ⟨fun _ => ⟨fun _ => ⟨fun _ => id, fun _ => ?_⟩, fun _ => id⟩, fun _ => id⟩
  refine (s.db.writeData_stamps _ _ _ _ _ _).mono (fun _ db' h => ?_) fun e _ _ =>
    e.exit_not_succeeded _
  refine countLookup_ctimes ((ctimes_of_recorded hrec hstamp).trans_of_fresh
    (ctimes_of_recorded hrec h) fun i hi => ?_) _ _
  rw [Finset.mem_singleton.1 hi, hadd.child_eq]
  exact Nat.lt_succ_self _

theorem create_ctimes (parent : ℕ) (name : Bytes) (mode : ℕ)
    (hfree : s.conn.dentry.find (asU32 parent, name) = none) :
    (create env parent name mode).Ensures s (fun _ s' =>
      s.conn.CtimesSet (env.now .addInodeAndDentry) {asU32 parent} s'.conn)
        (fun e _ => ¬ e.outcome.Succeeded) := by
  unfold create
  simp only [ensures_bind, ensures_writable, ensures_callOrNoEnt, ensures_toStr, ensures_pure]
  refine ⟨fun _ => ⟨fun _ => ⟨fun _ => id, fun _ => ?_⟩, fun _ => id⟩, fun _ => id⟩
  refine ((s.db.lookup_spec _ _ _ _).and (s.db.lookup_stamps _ _ _ _)).mono
    (fun found db h => ?_) fun e _ _ => e.exit_not_succeeded _
  obtain ⟨⟨hfound, -⟩, hstamp⟩ := h
  cases found with
  | some a =>
    obtain ⟨e, he, -⟩ := lookupAttr_eq_ok_some hfound
    exact absurd (hfree.symm.trans he) (by simp)
  | none =>
    unfold createInode
    simp only [ensures_bind, ensures_callOrNoEnt, ensures_foundOrNoEnt, ensures_pure]
    refine ⟨fun _ => id, fun _ => ?_⟩
    refine (getInode_spec _ _ _).mono (fun found db' h => ⟨fun a _ => ?_, fun _ => id⟩)
      fun e _ _ => e.exit_not_succeeded _
    obtain ⟨rfl, -⟩ := h
    refine ⟨fun _ => id, fun _ => ?_⟩
    refine (s.db.addInodeAndDentry_stamps _ _ _ _ _).mono (fun child db' h => ?_)
      fun e _ _ => e.exit_not_succeeded _
    exact countLookup_ctimes ((ctimes_of_recorded hrec hstamp).none_trans
      (ctimes_of_recorded hrec h)) _ _

theorem link_ctimes (ino parent : ℕ) (name : Bytes) :
    (link env ino parent name).Ensures s
      (fun _ s' => s.conn.CtimesSet (env.now .linkDentry) {asU32 parent} s'.conn)
      (fun e _ => ¬ e.outcome.Succeeded) := by
  unfold link
  simp only [ensures_bind, ensures_writable, ensures_callOr, ensures_toStr, ensures_pure]
  refine ⟨fun _ => ⟨fun _ => ⟨fun _ => id, fun _ => ?_⟩, fun _ => id⟩, fun _ => id⟩
  refine (s.db.linkDentry_stamps _ _ _ _ _).mono (fun _ _ h => ?_) fun e _ _ =>
    e.exit_not_succeeded _
  exact countLookup_ctimes (ctimes_of_recorded hrec h) _ _

theorem unlink_ctimes (parent : ℕ) (name : Bytes) :
    (unlink env parent name).Ensures s
      (fun _ s' => ∃ e, s.conn.dentry.find (asU32 parent, name) = some e ∧
        s.conn.CtimesSet (env.now .deleteDentry) {e.childId, asU32 parent} s'.conn)
      (fun e _ => ¬ e.outcome.Succeeded) := by
  unfold unlink
  simp only [ensures_bind, ensures_writable, ensures_callOrNoEnt, ensures_toStr, ensures_pure]
  refine ⟨fun _ => ⟨fun _ => ⟨fun _ => id, fun _ => ?_⟩, fun _ => id⟩, fun _ => id⟩
  refine ((s.db.deleteDentry_spec _ _ _ _).and (s.db.deleteDentry_stamps _ _ _ _)).mono
    (fun child db h => ?_) fun e _ _ => e.exit_not_succeeded _
  obtain ⟨hun, hstamp⟩ := h
  obtain ⟨e, he, rfl⟩ := hun.found
  exact (deleteUnlessLookedUp_ctimes (ctimes_of_recorded hrec hstamp) _).mono
    (fun _ _ h => ⟨e, he, h⟩) fun _ _ h => h

theorem rmdir_ctimes (parent : ℕ) (name : Bytes) :
    (rmdir env parent name).Ensures s
      (fun _ s' => ∃ e, s.conn.dentry.find (asU32 parent, name) = some e ∧
        s.conn.CtimesSet (env.now .deleteDentry) {e.childId, asU32 parent} s'.conn)
      (fun e _ => ¬ e.outcome.Succeeded) := by
  unfold rmdir Sqlite.checkDirectoryIsEmpty checkDirectoryIsEmptyLocal
  simp only [ensures_bind, ensures_writable, ensures_callOrNoEnt, ensures_toStr, ensures_get,
    ensures_foundOrNoEnt, ensures_require, ensures_pure]
  refine ⟨fun _ => ⟨fun _ => ⟨fun _ => id, fun _ => ?_⟩, fun _ => id⟩, fun _ => id⟩
  refine ((s.db.lookup_spec _ _ _ _).and (s.db.lookup_stamps _ _ _ _)).mono
    (fun found db h => ⟨fun a _ => ?_, fun _ => id⟩) fun e _ _ => e.exit_not_succeeded _
  obtain ⟨⟨-, hsame⟩, hlookup⟩ := h
  refine ⟨fun _ => id, fun _ => ⟨fun _ => ⟨fun _ => id, fun _ => ?_⟩, fun _ => id⟩⟩
  refine ((s.db.deleteDentry_spec _ _ _ _).and (s.db.deleteDentry_stamps _ _ _ _)).mono
    (fun child db' h => ?_) fun e _ _ => e.exit_not_succeeded _
  obtain ⟨hun, hstamp⟩ := h
  obtain ⟨e, he, rfl⟩ := hun.found
  refine (deleteUnlessLookedUp_ctimes ((ctimes_of_recorded hrec hlookup).none_trans
    (ctimes_of_recorded hrec hstamp)) _).mono (fun _ _ h => ⟨e, ?_, h⟩) fun _ _ h => h
  rw [← hsame.dentry]
  exact he

theorem rename_ctimes (parent : ℕ) (name : Bytes) (newparent : ℕ) (newname : Bytes) :
    (rename env parent name newparent newname).Ensures s
      (fun _ s' => ∃ e, s.conn.dentry.find (asU32 parent, name) = some e ∧
        s.conn.CtimesSet (env.now .moveDentry) {e.childId, asU32 parent, asU32 newparent} s'.conn)
      (fun e _ => ¬ e.outcome.Succeeded) := by
  unfold rename
  simp only [ensures_bind, ensures_writable, ensures_callOr, ensures_toStr, ensures_pure]
  refine ⟨fun _ => ⟨fun _ => ⟨fun _ => ⟨fun _ => id, fun _ => ?_⟩, fun _ => id⟩,
    fun _ => id⟩, fun _ => id⟩
  refine (s.db.moveDentry_stamps _ _ _ _ _ _).mono (fun res db h => ?_) fun e _ _ =>
    e.exit_not_succeeded _
  obtain ⟨e, he, hstamp⟩ := h
  have hset := ctimes_of_recorded hrec hstamp
  cases res with
  | none => exact ⟨e, he, hset⟩
  | some i =>
    exact (deleteUnlessLookedUp_ctimes hset i).mono (fun _ _ h => ⟨e, he, h⟩) fun _ _ h => h

theorem setxattr_ctimes (ino : ℕ) (name value : Bytes) (flags : ℕ) :
    (setxattr env ino name value flags).Ensures s
      (fun _ s' => s.conn.CtimesSet (env.now .setXattr) {asU32 ino} s'.conn)
        (fun e _ => ¬ e.outcome.Succeeded) := by
  have hput : (callOrNoEnt env .setXattr fun db =>
      db.setXattr (env.now .setXattr) (asU32 ino) name value).Ensures s
        (fun _ s' => s.conn.CtimesSet (env.now .setXattr) {asU32 ino} s'.conn)
        (fun e _ => ¬ e.outcome.Succeeded) := by
    refine (ensures_callOrNoEnt _ _).2 ⟨fun _ => id, fun _ => ?_⟩
    exact (s.db.setXattr_stamps _ _ _ _ _).mono (fun _ _ h => ctimes_of_recorded hrec h)
      fun e _ _ => e.exit_not_succeeded _
  -- the check of the flags reads and may refuse
  have hcheck : ∀ found, (checkXattrFlags flags found : Handler X Unit).Ensures s
      (fun _ s' => (callOrNoEnt env .setXattr fun db =>
        db.setXattr (env.now .setXattr) (asU32 ino) name value).Ensures s'
          (fun _ s' => s.conn.CtimesSet (env.now .setXattr) {asU32 ino} s'.conn)
          (fun e _ => ¬ e.outcome.Succeeded))
      (fun e _ => ¬ e.outcome.Succeeded) := by
    intro found
    unfold checkXattrFlags
    split
    · exact (ensures_require _ _).2 ⟨fun _ => hput, fun _ => id⟩
    · exact (ensures_require _ _).2 ⟨fun _ => hput, fun _ => id⟩
    · exact id
  unfold setxattr Sqlite.getXattr
  simp only [ensures_bind, ensures_writable, ensures_toStr, ensures_when, ensures_call,
    ensures_get, ensures_ofOption, ensures_pure]
  exact ⟨fun _ => ⟨fun _ => ⟨fun _ => ⟨fun _ => hcheck _, fun _ => ⟨fun _ _ => hcheck _,
    fun _ => hcheck _⟩⟩, fun _ => hput⟩, fun _ => id⟩, fun _ => id⟩

theorem removexattr_ctimes (ino : ℕ) (name : Bytes) :
    (removexattr env ino name).Ensures s
      (fun _ s' => s.conn.CtimesSet (env.now .deleteXattr) {asU32 ino} s'.conn)
      (fun e _ => ¬ e.outcome.Succeeded) := by
  unfold removexattr
  simp only [ensures_bind, ensures_writable, ensures_callOrNoEnt, ensures_toStr, ensures_pure]
  refine ⟨fun _ => ⟨fun _ => ⟨fun _ => id, fun _ => ?_⟩, fun _ => id⟩, fun _ => id⟩
  exact (s.db.deleteXattr_stamps _ _ _ _).mono (fun _ _ h => ctimes_of_recorded hrec h)
    fun e _ _ => e.exit_not_succeeded _

/-- What a `write` of the blocks `ks` has done to the inode `i`: nothing, or its time of change is
that of a block. -/
def WrittenAt (env : Env) (s : SqliteFs X) (i : ℕ) (ks : List ℕ) (s' : SqliteFs X) : Prop :=
  s'.db = s.db ∧ (s.conn.SameInode s'.conn i ∨ ∀ m', s'.conn.metadata.find i = some m' →
    ∃ k ∈ ks, m'.ctime = (env.now (.writeData k)).1.throughDatetime)

/-- Each block of a write is stored with its own reading of the clock. -/
theorem writeBlock_ctimes {ks : List ℕ} {k : ℕ} (hk : k ∈ ks) (i offset size : ℕ) (data : Bytes)
    (start_block end_block : ℕ) :
    (writeBlock env i offset size data start_block end_block k).Keeps (s.WrittenAt env i ks) := by
  refine keeps_writeBlock ?_ (fun bytes size => ?_) offset size data start_block end_block
  · rintro s₁ ⟨hdb, hs₁⟩
    refine (ensures_callOrNoEnt _ _).2 ⟨fun _ => ⟨hdb, hs₁⟩, fun _ => ?_⟩
    refine ((s₁.db.getData_spec _ _ _ _ _).and (s₁.db.getData_stamps _ _ _ _ _)).mono
      (fun _ db h => ⟨hdb, hs₁.imp (fun hsame => hsame.trans (h.1.2.sameInode _)) ?_⟩)
      fun _ _ h => h.1.elim
    intro hset m' hm'
    have hi := db.sequence_bound _ (by rw [show db.metadata.find _ = some m' from hm']; rfl)
    rw [h.1.2.sqliteSequence] at hi
    obtain ⟨m, hm, htimes⟩ := h.2.row _ m' hi hm'
    obtain ⟨k', hk', htime⟩ := hset m hm
    refine ⟨k', hk', (congrArg Times.ctime htimes).trans ((if_neg ?_).trans htime)⟩
    unfold Sqlite.recorded
    split_ifs <;> exact Finset.notMem_empty _
  · rintro s₁ ⟨hdb, hs₁⟩
    refine (ensures_callOrNoEnt _ _).2 ⟨fun _ => ⟨hdb, hs₁⟩, fun _ => ?_⟩
    refine ((s₁.db.writeData_spec _ _ _ _ _ _).and (s₁.db.writeData_stamps _ _ _ _ _ _)).mono
      (fun _ db h => ⟨hdb, Or.inr fun m' hm' => ?_⟩) fun _ db h => ⟨hdb, ?_⟩
    · have hi := db.sequence_bound _ (by rw [show db.metadata.find _ = some m' from hm']; rfl)
      rw [h.1.sqliteSequence] at hi
      obtain ⟨m, hm, htime⟩ := (ctimes_of_recorded (hdb ▸ hrec) h.2).row _ m' hi hm'
      exact ⟨k, hk, htime.trans (if_pos (Finset.mem_singleton_self _))⟩
    · rw [show (s₁.withConn db).conn = s₁.conn from h.2]
      exact hs₁

theorem write_ctimes (ino : ℕ) (offset : ℤ) (data : Bytes) : (write env ino offset data).Keeps
    (s.WrittenAt env (asU32 ino) (writtenBlocks offset data.length)) := by
  intro s₁ hs₁
  unfold write
  rw [ensures_bind, ensures_writable]
  refine ⟨fun _ => ?_, fun _ => hs₁⟩
  rw [ensures_bind, lastByte_eq, ensures_ofOption]
  refine ⟨fun last hlast => ?_, fun _ => hs₁⟩
  have hblocks : List.range' (i64AsU32 offset / blockSize + 1)
      (last / blockSize + 1 + 1 - (i64AsU32 offset / blockSize + 1)) =
        writtenBlocks offset data.length := by
    unfold endOfRange at hlast
    split_ifs at hlast
    rw [← Option.some.inj hlast, writtenBlocks, Nat.add_sub_add_right]
  rw [ensures_bind, hblocks]
  exact ensures_each (fun k hk s₂ hs₂ =>
    writeBlock_ctimes hrec hk _ _ _ data _ _ s₂ hs₂) hs₁

end Handlers

end SqliteFs

/-! ### The time of a request -/

/-- The call whose reading of the clock is the time of the request. -/
def Request.TimedBy : Request → Call → Prop
  | .setattr .., c => c = .updateInode
  | .mkdir .., c | .symlink .., c | .create .., c => c = .addInodeAndDentry
  | .unlink .., c | .rmdir .., c => c = .deleteDentry
  | .rename .., c => c = .moveDentry
  | .link .., c => c = .linkDentry
  | .write _ _ offset data, c => ∃ k ∈ writtenBlocks offset data.length, c = .writeData k
  | .setxattr .., c => c = .setXattr
  | .removexattr .., c => c = .deleteXattr
  | _, _ => False

namespace SqliteFs

open Proc

variable {s s' : SqliteFs X} {env : Env}

/-- **Every inode that a request has changed**, of those that are there before and after it, has the
time of the request as its time of change. -/
def RecordsChanges (env : Env) (s : SqliteFs X) (r : Request) (s' : SqliteFs X) : Prop :=
  ∀ i m m', s.conn.metadata.find i = some m → s'.conn.metadata.find i = some m' →
    ¬ s.conn.SameInode s'.conn i →
      ∃ c, r.TimedBy c ∧ m'.ctime = (env.now c).1.throughDatetime

section Missed

variable (s : SqliteFs X) (p : ℕ) (n : Name) (p' : ℕ) (n' : Name) (e : DentryRow)

/-- The inode of the entry `v`, in whose place a rename puts `e`, is there when it is done: `v` is
not removed, or the inode has been looked up, or another entry names it then. -/
def StaysWithout (v : DentryRow) : Prop :=
  IsDots n' ∨ v.childId ∈ s.lookupCount ∨
    (∃ k x, s.conn.dentry.find k = some x ∧ x.childId = v.childId ∧
      ¬ (k = (p', n') ∨ Db.Redirects p n p' e k)) ∨
    v.childId = p' ∧ ∃ k, Db.Redirects p n p' e k ∧ (s.conn.dentry.find k).isSome

/-- The entries that a rename of `e` takes from the inodes they name: the one that it replaces, the
`..` of a directory that gets another parent, and the entries in an inode that is deleted. -/
def RenameTakes (k : ℕ × Name) (x : DentryRow) : Prop :=
  (k = (p', n') ∨ Db.Redirects p n p' e k) ∨ ∃ v, s.conn.dentry.find (p', n') = some v ∧
    ¬ s.StaysWithout p n p' n' e v ∧ x.parentId = v.childId

/-- The inode `i` is not the one that a rename of `e` deletes. -/
def RenameLeaves (i : ℕ) : Prop :=
  ∀ v, s.conn.dentry.find (p', n') = some v → v.childId = i → s.StaysWithout p n p' n' e v

end Missed

/-- The inodes that lose or get a name and whose time of change the request does not set, have the
time of the request before it. With a second name it is the linked inode, unless it is the
directory; with a removed name those that have a name in its inode; with a rename those that
`RenameTakes` gives, where they stay. -/
def MissesNone (env : Env) (s : SqliteFs X) : Request → Prop
  | .link ino parent _ => asU32 ino ≠ asU32 parent → ∀ m,
    s.conn.metadata.find (asU32 ino) = some m →
      m.ctime = (env.now .linkDentry).1.throughDatetime
  | .unlink parent name | .rmdir parent name => ∀ e k x m,
    s.conn.dentry.find (asU32 parent, name) = some e → s.conn.dentry.find k = some x →
      x.parentId = e.childId → x.childId ∉ ({e.childId, asU32 parent} : Finset ℕ) →
        s.conn.metadata.find x.childId = some m →
          m.ctime = (env.now .deleteDentry).1.throughDatetime
  | .rename parent name newparent newname => ∀ e k x m,
    s.conn.dentry.find (asU32 parent, name) = some e → s.conn.dentry.find k = some x →
      s.RenameTakes (asU32 parent) name (asU32 newparent) newname e k x →
      s.RenameLeaves (asU32 parent) name (asU32 newparent) newname e x.childId →
      x.childId ∉ ({e.childId, asU32 parent, asU32 newparent} : Finset ℕ) →
        s.conn.metadata.find x.childId = some m →
          m.ctime = (env.now .moveDentry).1.throughDatetime
  | _ => True

/-- A request that changes no other inodes than those whose time it sets. -/
theorem recordsChanges_of_frame {r : Request} {c : Call} {S : Finset ℕ} (hc : r.TimedBy c)
    (hset : s.conn.CtimesSet (env.now c) S s'.conn)
    (hframe : ∀ i, i ∉ S → (s.conn.metadata.find i).isSome → (s'.conn.metadata.find i).isSome →
      s.conn.SameInode s'.conn i) : s.RecordsChanges env r s' := by
  intro i m m' hm hm' hdiff
  by_cases hi : i ∈ S
  · obtain ⟨m₀, -, htime⟩ := hset.row i m' (s.conn.sequence_bound i (by rw [hm]; rfl)) hm'
    exact ⟨c, hc, htime.trans (if_pos hi)⟩
  · exact absurd (hframe i hi (by rw [hm]; rfl) (by rw [hm']; rfl)) hdiff

theorem recordsChanges_of_same {r : Request} (h : s.conn.SameUpTo .atimeless s'.conn) :
    s.RecordsChanges env r s' :=
  fun i _ _ _ _ hdiff => absurd (h.sameInode i) hdiff

theorem of_succeeded {h : Handler X Reply} {P : SqliteFs X → Prop}
    (hh : h.Ensures s (fun _ s' => P s') (fun e _ => ¬ e.outcome.Succeeded))
    (hok : (outcome h s).2.Succeeded) : P (outcome h s).1 :=
  outcome_of_ensures (P := fun s' out => out.Succeeded → P s')
    (hh.mono (fun _ _ h _ => h) fun _ _ h hok => absurd hok h) hok

/-- What `mkdir`, `symlink` and `create` change. -/
theorem records_made {r : Request} {p child : ℕ} {n : Name} {attr : DBFileAttr} {db₁ db₂ db₃ : Db X}
    (hdb : s.conn.SameUpTo .atimeless db₁) (hadd : db₁.Added p n attr child db₂)
    (hcont : db₃ = db₂ ∨ ∃ link : Bytes, link.length ≤ blockSize ∧
      db₂.Written child 1 link (UInt32.ofNat link.length) db₃) (hs : s'.conn = db₃)
    (hr : r.TimedBy .addInodeAndDentry)
    (hset : s.conn.CtimesSet (env.now .addInodeAndDentry) {p} s'.conn) :
    s.RecordsChanges env r s' := by
  refine recordsChanges_of_frame hr hset fun i hi hrow _ => ?_
  have hne : i ≠ child := by
    have hle := s.conn.sequence_bound i hrow
    rw [hadd.child_eq, hdb.sqliteSequence]
    omega
  have hmade := (hdb.sameInode i).trans (hadd.sameInode (by simpa using hi) hne)
  rw [hs]
  rcases hcont with rfl | ⟨link, -, hw⟩
  · exact hmade
  · exact hmade.trans (hw.sameInode hne)

/-- An inode whose time is not set, and that can only lose names, has the time of the request where
it loses one, if and only if it has it already. -/
theorem recordsChanges_iff_of_lost {r : Request} {c : Call} {S : Finset ℕ}
    {lost : ℕ × Name → DentryRow → Prop} (hc : ∀ c', r.TimedBy c' ↔ c' = c)
    (hset : s.conn.CtimesSet (env.now c) S s'.conn)
    (hsame : ∀ i, i ∉ S → (s.conn.metadata.find i).isSome → (s'.conn.metadata.find i).isSome →
      (s.conn.SameInode s'.conn i ↔
        ∀ k x, s.conn.dentry.find k = some x → x.childId = i → ¬ lost k x)) :
    s.RecordsChanges env r s' ↔ ∀ k x m, s.conn.dentry.find k = some x → lost k x →
      x.childId ∉ S → (s'.conn.metadata.find x.childId).isSome →
        s.conn.metadata.find x.childId = some m → m.ctime = (env.now c).1.throughDatetime := by
  have hkeeps : ∀ i m m', i ∉ S → s.conn.metadata.find i = some m →
      s'.conn.metadata.find i = some m' → m'.ctime = m.ctime := by
    intro i m m' hi hm hm'
    obtain ⟨m₀, hm₀, htime⟩ := hset.row i m' (s.conn.sequence_bound i (by rw [hm]; rfl)) hm'
    obtain rfl := Option.some.inj (hm.symm.trans hm₀)
    rw [htime, if_neg hi]
  constructor
  · intro hrecords k x m hx hlost hi hrow' hm
    obtain ⟨m', hm'⟩ := Option.isSome_iff_exists.1 hrow'
    have hiff := hsame _ hi (by rw [hm]; rfl) hrow'
    obtain ⟨c', hc', htime⟩ := hrecords _ m m' hm hm' fun h => hiff.1 h k x hx rfl hlost
    rw [(hc c').1 hc'] at htime
    rw [← htime, hkeeps _ m m' hi hm hm']
  · intro hmiss i m m' hm hm' hdiff
    refine ⟨c, (hc c).2 rfl, ?_⟩
    by_cases hi : i ∈ S
    · obtain ⟨m₀, -, htime⟩ := hset.row i m' (s.conn.sequence_bound i (by rw [hm]; rfl)) hm'
      exact htime.trans (if_pos hi)
    · have hrow' : (s'.conn.metadata.find i).isSome := by rw [hm']; rfl
      rw [hsame i hi (by rw [hm]; rfl) hrow'] at hdiff
      push Not at hdiff
      obtain ⟨k, x, hx, rfl, hlost⟩ := hdiff
      rw [hkeeps _ m m' hi hm hm']
      exact hmiss k x m hx hlost hi hrow' hm

/-- What `unlink` and `rmdir` change, and what they miss. -/
theorem records_removed_iff {r : Request} {parent : ℕ} {name : Bytes} {child : ℕ} {db₁ db₂ : Db X}
    (hr : r.removes = some (parent, name)) (hdb : s.conn.SameUpTo .atimeless db₁)
    (hun : db₁.Unlinked (asU32 parent) name child db₂)
    (hs : s'.conn = db₂ ∨ s'.conn = db₂.collect child)
    (hset : s.conn.CtimesSet (env.now .deleteDentry) {child, asU32 parent} s'.conn) :
    s.RecordsChanges env r s' ↔ s.MissesNone env r := by
  obtain ⟨e, he, hchild⟩ := hun.found
  rw [hdb.dentry] at he
  have hrest : s.conn.SameButDentry .timeless db₂ := hdb.timeless.sameButDentry.trans hun.rest
  have hsame : ∀ i, i ∉ ({child, asU32 parent} : Finset ℕ) → (s.conn.metadata.find i).isSome →
      (s'.conn.metadata.find i).isSome → (s.conn.SameInode s'.conn i ↔
        ∀ k x, s.conn.dentry.find k = some x → x.childId = i → ¬ x.parentId = child) := by
    intro i hi _ _
    have hne : i ≠ child := fun h => hi (by simp [h])
    have hentry : ∀ k x, x.childId = i → (db₂.dentry.find k = some x ↔
        s.conn.dentry.find k = some x ∧ ¬ x.parentId = child) := by
      intro k x hxi
      rw [hun.find_iff k x (hxi ▸ hne), hdb.dentry]
    rcases hs with hs | hs
    · exact hs ▸ hrest.sameInode_iff hentry
    · rw [hs, hrest.sameInode_collect_iff hne hentry]
      exact forall₄_congr fun k x _ _ => not_congr (or_iff_left_of_imp And.right)
  have hstays : ∀ i, i ∉ ({child, asU32 parent} : Finset ℕ) → (s.conn.metadata.find i).isSome →
      (s'.conn.metadata.find i).isSome := by
    intro i hi hrow
    have hne : i ≠ child := fun h => hi (by simp [h])
    have hrow₂ : (db₂.metadata.find i).isSome := by rw [hrest.metadata.isSome]; exact hrow
    rcases hs with hs | hs
    · rw [hs]
      exact hrow₂
    · rw [hs, db₂.metadata_find_collect child i hne]
      exact hrow₂
  have hiff : s.RecordsChanges env r s' ↔ _ :=
    @recordsChanges_iff_of_lost _ s s' env r .deleteDentry {child, asU32 parent}
      (fun _ x => x.parentId = child) (fun c' => by
        cases r <;> simp only [Request.removes, reduceCtorEq] at hr
        · exact Iff.rfl
        · exact Iff.rfl) hset hsame
  have hmisses : s.MissesNone env r ↔ ∀ e k x m,
      s.conn.dentry.find (asU32 parent, name) = some e → s.conn.dentry.find k = some x →
        x.parentId = e.childId → x.childId ∉ ({e.childId, asU32 parent} : Finset ℕ) →
          s.conn.metadata.find x.childId = some m →
            m.ctime = (env.now .deleteDentry).1.throughDatetime := by
    cases r <;> simp only [Request.removes, reduceCtorEq, Option.some.injEq, Prod.mk.injEq] at hr
    · obtain ⟨rfl, rfl⟩ := hr
      exact Iff.rfl
    · obtain ⟨rfl, rfl⟩ := hr
      exact Iff.rfl
  rw [hiff, hmisses]
  constructor
  · intro h e' k x m he' hx hpar hi hm
    obtain rfl := Option.some.inj (he.symm.trans he')
    rw [hchild] at hpar hi
    exact h k x m hx hpar hi (hstays _ hi (by rw [hm]; rfl)) hm
  · intro h k x m hx hpar hi _ hm
    exact h e k x m he hx (hpar.trans hchild.symm) (hchild.symm ▸ hi) hm

/-- What `rename` changes, and what it misses, in terms of the tables without the deletion of the
inode that it replaces. -/
theorem records_renamed_iff {parent newparent : ℕ} {name newname : Bytes} {e : DentryRow}
    {db : Db X} {out : Outcome} (he : s.conn.dentry.find (asU32 parent, name) = some e)
    (hrest : s.conn.SameButDentry .timeless db)
    (hentry : ∀ k x, x.childId ∉ ({e.childId, asU32 parent, asU32 newparent} : Finset ℕ) →
      (db.dentry.find k = some x ↔ s.conn.dentry.find k = some x ∧
        ¬ (k = (asU32 newparent, newname) ∨
          Db.Redirects (asU32 parent) name (asU32 newparent) e k)))
    (hgone : ∀ v, s.conn.dentry.find (asU32 newparent, newname) = some v →
      ((v.childId ∉ s.lookupCount ∧ db.Unnamed v.childId) ↔
        ¬ s.StaysWithout (asU32 parent) name (asU32 newparent) newname e v))
    (hs : s.Finishes env db
      ((s.conn.dentry.find (asU32 newparent, newname)).map DentryRow.childId) s' out)
    (hok : out.Succeeded)
    (hset : s.conn.CtimesSet (env.now .moveDentry)
      {e.childId, asU32 parent, asU32 newparent} s'.conn) :
    s.RecordsChanges env (.rename parent name newparent newname) s' ↔
      s.MissesNone env (.rename parent name newparent newname) := by
  -- the inode of the replaced entry is deleted, or nothing more happens
  have hconn : (s'.conn = db ∧ ∀ v, s.conn.dentry.find (asU32 newparent, newname) = some v →
        s.StaysWithout (asU32 parent) name (asU32 newparent) newname e v) ∨
      ∃ v, s.conn.dentry.find (asU32 newparent, newname) = some v ∧
        ¬ s.StaysWithout (asU32 parent) name (asU32 newparent) newname e v ∧
        db.Unnamed v.childId ∧ s'.conn = db.collect v.childId := by
    cases hv : s.conn.dentry.find (asU32 newparent, newname) with
    | none =>
      rw [hv] at hs
      exact Or.inl ⟨hs.1 ▸ rfl, fun v h => absurd h (by simp)⟩
    | some v =>
      rw [hv] at hs
      rcases hs with ⟨-, rfl⟩ | ⟨rfl, -⟩
      · by_cases hgoes : v.childId ∉ s.lookupCount ∧ db.Unnamed v.childId
        · exact Or.inr ⟨v, rfl, (hgone v hv).1 hgoes, hgoes.2, if_neg hgoes.1⟩
        · refine Or.inl ⟨?_, fun v' hv' => ?_⟩
          · rw [conn_withConn]
            split_ifs with hl
            · rfl
            · exact db.collect_of_not_unnamed _ fun hun => hgoes ⟨hl, hun⟩
          · obtain rfl := Option.some.inj hv'
            exact not_not.1 fun hno => hgoes ((hgone v hv).2 hno)
      · exact hok.elim
  have hrow : ∀ i, (s'.conn.metadata.find i).isSome → (s.conn.metadata.find i).isSome →
      s.RenameLeaves (asU32 parent) name (asU32 newparent) newname e i := by
    intro i hi' _ v hv hvi
    rcases hconn with ⟨-, hstay⟩ | ⟨v', hv', -, hun, hdel⟩
    · exact hstay v hv
    · obtain rfl := Option.some.inj (hv.symm.trans hv')
      rw [hdel, db.collect_of_unnamed _ hun, Db.metadata_find_deleteMetadata,
        if_pos hvi.symm] at hi'
      exact absurd hi' (by simp)
  have hsame : ∀ i, i ∉ ({e.childId, asU32 parent, asU32 newparent} : Finset ℕ) →
      (s.conn.metadata.find i).isSome → (s'.conn.metadata.find i).isSome →
        (s.conn.SameInode s'.conn i ↔ ∀ k x, s.conn.dentry.find k = some x → x.childId = i →
          ¬ s.RenameTakes (asU32 parent) name (asU32 newparent) newname e k x) := by
    intro i hi _ hi'
    unfold RenameTakes
    rcases hconn with ⟨hkept, hstay⟩ | ⟨v, hv, hno, hun, hdel⟩
    · rw [hkept, hrest.sameInode_iff fun k x hxi => hentry k x (hxi ▸ hi)]
      refine forall₄_congr fun k x _ _ => not_congr (or_iff_left ?_).symm
      rintro ⟨v, hv, hno, -⟩
      exact hno (hstay v hv)
    · have hne : i ≠ v.childId := by
        rintro rfl
        rw [hdel, db.collect_of_unnamed _ hun, Db.metadata_find_deleteMetadata, if_pos rfl] at hi'
        exact absurd hi' (by simp)
      rw [hdel, hrest.sameInode_collect_iff hne fun k x hxi => hentry k x (hxi ▸ hi)]
      refine forall₄_congr fun k x _ _ => not_congr (or_congr_right ?_)
      constructor
      · exact fun hx => ⟨v, hv, hno, hx.2⟩
      · rintro ⟨v', hv', -, hx⟩
        obtain rfl := Option.some.inj (hv.symm.trans hv')
        exact ⟨hun, hx⟩
  have hstays : ∀ i, (s.conn.metadata.find i).isSome →
      s.RenameLeaves (asU32 parent) name (asU32 newparent) newname e i →
        (s'.conn.metadata.find i).isSome := by
    intro i hi hleaves
    have hdb : (db.metadata.find i).isSome := by rw [hrest.metadata.isSome]; exact hi
    rcases hconn with ⟨hkept, -⟩ | ⟨v, hv, hno, -, hdel⟩
    · rw [hkept]
      exact hdb
    · have hne : i ≠ v.childId := fun h => hno (hleaves v hv h.symm)
      rw [hdel, db.metadata_find_collect _ i hne]
      exact hdb
  rw [recordsChanges_iff_of_lost (fun _ => Iff.rfl) hset hsame]
  constructor
  · intro h e' k x m he' hx htakes hleaves hi hm
    obtain rfl := Option.some.inj (he.symm.trans he')
    exact h k x m hx htakes hi (hstays _ (by rw [hm]; rfl) hleaves) hm
  · intro h k x m hx htakes hi hi' hm
    exact h e k x m he hx htakes (hrow _ hi' (by rw [hm]; rfl)) hi hm

theorem Db.not_unnamed_iff {db : Db X} {i : ℕ} :
    ¬ db.Unnamed i ↔ ∃ k x, db.dentry.find k = some x ∧ x.childId = i := by
  unfold Db.Unnamed
  push Not
  exact Iff.rfl

/-- The inode that a rename replaces is not named any more if and only if nothing keeps it. -/
theorem unnamed_of_moved_iff {p p' : ℕ} {n n' : Name} {e v : DentryRow} {res : Option ℕ} {db : Db X}
    (hne : (p, n) ≠ (p', n')) (h : s.conn.Moved p n p' n' e res db)
    (hv : s.conn.dentry.find (p', n') = some v) :
    (v.childId ∉ s.lookupCount ∧ db.Unnamed v.childId) ↔ ¬ s.StaysWithout p n p' n' e v := by
  have hdots : ¬ IsDots n' := h.no_dots v hv
  have hto : (e.childId, dotdot) ≠ (p', n') := fun heq => hdots (Or.inl (Prod.mk.inj heq).2.symm)
  have hnamed : ¬ db.Unnamed v.childId ↔
      (∃ k x, s.conn.dentry.find k = some x ∧ x.childId = v.childId ∧
        ¬ (k = (p', n') ∨ Db.Redirects p n p' e k)) ∨
      v.childId = p' ∧ ∃ k, Db.Redirects p n p' e k ∧ (s.conn.dentry.find k).isSome := by
    rw [Db.not_unnamed_iff]
    constructor
    · rintro ⟨k, x, hx, hxv⟩
      by_cases he : v.childId = e.childId
      · exact Or.inl ⟨(p, n), e, h.source, he.symm, fun hor =>
          hor.elim hne fun hred => hred.2.2.2 rfl⟩
      rw [h.dentry] at hx
      split_ifs at hx with hk
      · -- the `..` that names the new parent
        obtain ⟨y, hy, rfl⟩ := Option.map_eq_some_iff.1 hx
        rw [hk.2.2, Db.movedEntry, if_neg hto] at hy
        split_ifs at hy with hkn
        exact Or.inr ⟨hxv.symm, _, ⟨hk.1, hk.2.1, rfl, hkn⟩, by rw [hy]; rfl⟩
      · unfold Db.movedEntry at hx
        split_ifs at hx with hk₁ hk₂
        · exact absurd (hxv.symm.trans (Option.some.inj hx ▸ rfl)) he
        · exact Or.inl ⟨k, x, hx, hxv, fun hor => hor.elim hk₁ fun hred =>
            hk ⟨hred.1, hred.2.1, hred.2.2.1⟩⟩
    · rintro (⟨k, x, hx, hxv, hor⟩ | ⟨hvp, k, hred, hk⟩)
      · rw [not_or] at hor
        by_cases hkn : k = (p, n)
        · refine ⟨(p', n'), { e with parentId := p', name := n' }, ?_, ?_⟩
          · rw [h.dentry, if_neg fun hk => hto hk.2.2.symm, Db.movedEntry, if_pos rfl]
          · rw [hkn, h.source] at hx
            exact (congrArg DentryRow.childId (Option.some.inj hx)).trans hxv
        · refine ⟨k, x, ?_, hxv⟩
          rw [h.dentry, if_neg fun hk => hor.2 ⟨hk.1, hk.2.1, hk.2.2, hkn⟩, Db.movedEntry,
            if_neg hor.1, if_neg hkn, hx]
      · obtain ⟨y, hy⟩ := Option.isSome_iff_exists.1 hk
        refine ⟨k, { y with childId := p' }, ?_, hvp.symm⟩
        rw [h.dentry, if_pos ⟨hred.1, hred.2.1, hred.2.2.1⟩, Db.movedEntry,
          if_neg fun heq => hto (hred.2.2.1.symm.trans heq), if_neg hred.2.2.2, hy, Option.map_some]
  unfold StaysWithout
  rw [← hnamed]
  tauto

theorem unnamed_of_movedOntoItself_iff {p : ℕ} {n : Name} {e : DentryRow} {db : Db X}
    (h : s.conn.MovedOntoItself p n e db) :
    (e.childId ∉ s.lookupCount ∧ db.Unnamed e.childId) ↔ ¬ s.StaysWithout p n p n e e := by
  have hno : ∀ k, ¬ Db.Redirects p n p e k := fun k hred => hred.1 rfl
  have hnamed : ¬ db.Unnamed e.childId ↔ IsDots n ∨
      ∃ k x, s.conn.dentry.find k = some x ∧ x.childId = e.childId ∧ ¬ k = (p, n) := by
    rw [Db.not_unnamed_iff]
    constructor
    · rintro ⟨k, x, hx, hxe⟩
      rw [h.dentry] at hx
      split_ifs at hx with hk
      by_cases hkn : k = (p, n)
      · exact Or.inl (not_not.1 fun hdots => hk ⟨hkn, hdots⟩)
      · exact Or.inr ⟨k, x, hx, hxe, hkn⟩
    · rintro (hdots | ⟨k, x, hx, hxe, hkn⟩)
      · exact ⟨(p, n), e, by rw [h.dentry, if_neg fun hk => hk.2 hdots, h.found], rfl⟩
      · exact ⟨k, x, by rw [h.dentry, if_neg fun hk => hkn hk.1, hx], hxe⟩
  unfold StaysWithout
  simp only [hno, or_false, false_and, exists_false, and_false]
  rw [← not_not (a := db.Unnamed e.childId), hnamed, ← not_or]
  exact not_congr or_left_comm

/-- What `link` changes, and what it misses. -/
theorem records_linked_iff {ino parent : ℕ} {name : Bytes} {attr : DBFileAttr} {db : Db X}
    (hlink : s.conn.Linked (asU32 ino) (asU32 parent) name attr db) (hs : s'.conn = db)
    (hset : s.conn.CtimesSet (env.now .linkDentry) {asU32 parent} s'.conn) :
    s.RecordsChanges env (.link ino parent name) s' ↔ s.MissesNone env (.link ino parent name) := by
  subst hs
  constructor
  · intro hrecords hne m hm
    obtain ⟨m', hm'⟩ := Option.isSome_iff_exists.1
      ((hlink.rest.metadata.isSome (asU32 ino)).trans (by rw [hm]; rfl))
    have hmore := hlink.links
    obtain ⟨c, rfl, htime⟩ := hrecords _ m m' hm hm' fun hsame => by
      have := hsame.links
      omega
    obtain ⟨m₀, hm₀, htime₀⟩ := hset.row _ m' (s.conn.sequence_bound _ (by rw [hm]; rfl)) hm'
    obtain rfl := Option.some.inj (hm.symm.trans hm₀)
    rw [← htime, htime₀, if_neg fun h => hne (Finset.mem_singleton.1 h)]
  · intro hmiss i m m' hm hm' hdiff
    by_cases hi : i = asU32 ino
    · subst hi
      obtain ⟨m₀, hm₀, htime₀⟩ := hset.row _ m' (s.conn.sequence_bound _ (by rw [hm]; rfl)) hm'
      obtain rfl := Option.some.inj (hm.symm.trans hm₀)
      refine ⟨.linkDentry, rfl, ?_⟩
      by_cases hne : asU32 ino = asU32 parent
      · exact htime₀.trans (if_pos (Finset.mem_singleton.2 hne))
      · exact (htime₀.trans (if_neg fun h => hne (Finset.mem_singleton.1 h))).trans (hmiss hne m hm)
    · exact absurd (hlink.sameInode hi) hdiff

/-! ### All requests -/

/-- A `setattr` sets the time of the change, whether times are recorded or not. -/
theorem AttrSet.ctimes {ino : ℕ} {req : SetAttr} {old attr : DBFileAttr}
    (h : AttrSet env s ino req old attr s') :
    s.conn.CtimesSet (env.now .updateInode) {asU32 ino} s'.conn := by
  have hino : attr.ino = asU32 ino := by
    obtain ⟨m, hm, hshows, -⟩ := Db.shown_eq_some_iff.1 h.shown
    rw [(SetAttr.apply_eq_some h.apply).2.2.2]
    exact hshows.ino.trans (AuditedTable.key_of_find hm)
  refine ⟨h.updated.sqliteSequence.ge, fun i m' _ hm' => ?_⟩
  rw [h.set.row, hino] at hm'
  by_cases hi : i = asU32 ino
  · rw [if_pos hi, Option.map_eq_some_iff] at hm'
    obtain ⟨m, hm, rfl⟩ := hm'
    exact ⟨m, hi ▸ hm, (if_pos (Finset.mem_singleton.2 hi)).symm⟩
  · rw [if_neg hi] at hm'
    exact ⟨m', hm', (if_neg (by simpa using hi)).symm⟩

/-- What a request that succeeds records. -/
def SetsCtimes (env : Env) (s : SqliteFs X) : Request → SqliteFs X → Prop
  | .setattr ino _, s' => s.conn.CtimesSet (env.now .updateInode) {asU32 ino} s'.conn
  | .mkdir parent .., s' | .symlink parent .., s' =>
    s.conn.CtimesSet (env.now .addInodeAndDentry) {asU32 parent} s'.conn
  | .create parent name _, s' => s.conn.dentry.find (asU32 parent, name) = none →
    s.conn.CtimesSet (env.now .addInodeAndDentry) {asU32 parent} s'.conn
  | .unlink parent name, s' | .rmdir parent name, s' =>
    ∃ e, s.conn.dentry.find (asU32 parent, name) = some e ∧
      s.conn.CtimesSet (env.now .deleteDentry) {e.childId, asU32 parent} s'.conn
  | .rename parent name newparent _, s' =>
    ∃ e, s.conn.dentry.find (asU32 parent, name) = some e ∧
      s.conn.CtimesSet (env.now .moveDentry) {e.childId, asU32 parent, asU32 newparent} s'.conn
  | .link _ parent _, s' => s.conn.CtimesSet (env.now .linkDentry) {asU32 parent} s'.conn
  | .write ino _ offset data, s' =>
    s.WrittenAt env (asU32 ino) (writtenBlocks offset data.length) s'
  | .setxattr ino .., s' => s.conn.CtimesSet (env.now .setXattr) {asU32 ino} s'.conn
  | .removexattr ino _, s' => s.conn.CtimesSet (env.now .deleteXattr) {asU32 ino} s'.conn
  | _, _ => True

/-- **What a request records.** -/
theorem setsCtimes (hrec : s.db.timeRecording = true) (r : Request)
    (hok : (handle env r s).2.Succeeded) : s.SetsCtimes env r (handle env r s).1 := by
  cases r with
  | setattr ino req =>
    refine of_succeeded ((setattr_spec ino req).mono (fun _ _ h => ?_) fun e _ h => ?_) hok
    · obtain ⟨old, attr, hset, -⟩ := h
      exact hset.ctimes
    · exact h.2.failed.not_succeeded
  | mkdir parent name mode => exact of_succeeded (mkdir_ctimes hrec parent name mode) hok
  | symlink parent name link => exact of_succeeded (symlink_ctimes hrec parent name link) hok
  | create parent name mode =>
    exact fun hfree => of_succeeded (create_ctimes hrec parent name mode hfree) hok
  | unlink parent name => exact of_succeeded (unlink_ctimes hrec parent name) hok
  | rmdir parent name => exact of_succeeded (rmdir_ctimes hrec parent name) hok
  | rename p n p' n' => exact of_succeeded (rename_ctimes hrec p n p' n') hok
  | link ino parent name => exact of_succeeded (link_ctimes hrec ino parent name) hok
  | write ino fh offset data =>
    exact outcome_keeps (write_ctimes hrec ino offset data) ⟨rfl, Or.inl (.refl _ _)⟩
  | setxattr ino name value flags =>
    exact of_succeeded (setxattr_ctimes hrec ino name value flags) hok
  | removexattr ino name => exact of_succeeded (removexattr_ctimes hrec ino name) hok
  | _ => trivial

/-- The requests that make an inode. -/
theorem timedBy_of_makes {r : Request} {kind : FileType} {parent : ℕ} {name : Bytes}
    (hr : r.makes = some (kind, parent, name)) (hset : s.SetsCtimes env r s')
    (hfree : s.conn.dentry.find (asU32 parent, name) = none) :
    r.TimedBy .addInodeAndDentry ∧ s.MissesNone env r ∧
      s.conn.CtimesSet (env.now .addInodeAndDentry) {asU32 parent} s'.conn := by
  cases r <;> simp only [Request.makes, reduceCtorEq, Option.some.injEq, Prod.mk.injEq] at hr <;>
    obtain ⟨-, rfl, rfl⟩ := hr
  · exact ⟨rfl, trivial, hset⟩
  · exact ⟨rfl, trivial, hset⟩
  · exact ⟨rfl, trivial, hset hfree⟩

theorem Effect.recordsChanges_iff {r : Request} {out : Outcome} (h : Effect env s r s' out)
    (hr : r.mutates = true) (hok : out.Succeeded) (hset : s.SetsCtimes env r s') :
    s.RecordsChanges env r s' ↔ s.MissesNone env r := by
  cases h with
  | quiet _ _ hfail => exact absurd hok (hfail hr).not_succeeded
  | looked_up hr' hdb _ hs _ =>
    refine iff_of_true (recordsChanges_of_same (hs.conn_eq ▸ hdb)) ?_
    rcases hr' with rfl | ⟨mode, rfl⟩ <;> trivial
  | made hr' hdb hadd hcont hs _ =>
    obtain ⟨hc, hmiss, hset⟩ := timedBy_of_makes hr' hset (hdb.dentry ▸ hadd.free)
    exact iff_of_true (records_made hdb hadd (hcont.imp_right fun ⟨link, _, h⟩ => ⟨link, h⟩)
      hs.conn_eq hc hset) hmiss
  | half_made _ _ _ _ hfail => exact absurd hok hfail.not_succeeded
  | linked hlink hs _ => exact records_linked_iff hlink hs.conn_eq hset
  | removed hr' hdb hun hempty hs =>
    rename_i parent name child db₁ db₂
    have hconn : s'.conn = db₂ ∨ s'.conn = db₂.collect child := by
      rcases hs with ⟨-, rfl⟩ | ⟨rfl, -⟩
      · rw [conn_withConn]
        split_ifs
        · exact Or.inl rfl
        · exact Or.inr rfl
      · exact hok.elim
    refine records_removed_iff hr' hdb hun hconn ?_
    obtain ⟨e, he, rfl⟩ := hun.found
    rw [hdb.dentry] at he
    cases r <;> simp only [Request.removes, reduceCtorEq, Option.some.injEq,
      Prod.mk.injEq] at hr' <;>
      obtain ⟨rfl, rfl⟩ := hr' <;> obtain ⟨e', he', hset⟩ := hset <;>
      obtain rfl := Option.some.inj (he.symm.trans he')
    · exact hset
    · exact hset
  | renamed hne hmove hs =>
    obtain ⟨e, he, hset⟩ := hset
    obtain rfl := Option.some.inj (hmove.source.symm.trans he)
    refine records_renamed_iff he hmove.rest (fun k x hi => ?_)
      (fun v hv => unnamed_of_moved_iff hne hmove hv) (hmove.res_eq ▸ hs) hok hset
    simp only [Finset.mem_insert, Finset.mem_singleton, not_or] at hi
    exact hmove.find_iff k x hi.2.2 hi.1
  | renamed_onto_itself hparent hmove hs =>
    obtain ⟨e, he, hset⟩ := hset
    obtain rfl := Option.some.inj (hmove.found.symm.trans he)
    refine records_renamed_iff he hmove.rest (fun k x hi => ?_) (fun v hv => ?_) ?_ hok hset
    · rw [hparent]
      exact hmove.find_iff k x fun h => hi (by simp [h])
    · rw [hparent] at hv ⊢
      obtain rfl := Option.some.inj (he.symm.trans hv)
      exact unnamed_of_movedOntoItself_iff hmove
    · rw [hparent, he]
      exact hs
  | forgot => exact absurd hr (by simp [Request.mutates])
  | swept => exact absurd hr (by simp [Request.mutates])
  | destroyed => exact absurd hr (by simp [Request.mutates])
  | wrote hsteps hs _ =>
    rename_i ino fh offset data db _
    subst hs
    refine iff_of_true (fun i m m' _ hm' hdiff => ?_) trivial
    by_cases hi : i = asU32 ino
    · subst hi
      obtain ⟨k, hk, htime⟩ := (hset.2.resolve_left hdiff) m' hm'
      exact ⟨.writeData k, ⟨k, hk, rfl⟩, htime⟩
    · exact absurd (Db.sameInode_of_writeSteps hsteps hi) hdiff
  | updated hold hattr hup hs _ =>
    subst hs
    refine iff_of_true (recordsChanges_of_frame rfl hset fun i hi _ _ => hup.sameInode ?_) trivial
    rw [hattr.ino, ino_of_inodeAttr hold]
    simpa using hi
  | xattr_changed hr' hx hs _ =>
    rename_i ino name value db _
    subst hs
    have hframe : ∀ i, i ∉ ({asU32 ino} : Finset ℕ) → s.conn.SameInode db i :=
      fun i hi => hx.sameInode (by simpa using hi)
    rcases hr' with ⟨flags, bytes, -, rfl⟩ | ⟨-, rfl⟩
    · exact iff_of_true (recordsChanges_of_frame rfl hset fun i hi _ _ => hframe i hi) trivial
    · exact iff_of_true (recordsChanges_of_frame rfl hset fun i hi _ _ => hframe i hi) trivial

/-- **The time of the change is that of the request** for every inode that a request changes, if and
only if the inodes that it changes without setting their time have that time already. -/
theorem records_changes_iff (h : s.Visited) (hrec : s.db.timeRecording = true) (env : Env)
    (r : Request) (hr : r.mutates = true) (hok : (handle env r s).2.Succeeded) :
    s.RecordsChanges env r (s.after (env, r)) ↔ s.MissesNone env r :=
  (h.storable.1.handle_effect (env, r)).recordsChanges_iff hr hok (setsCtimes hrec r hok)

/-- Two files are made. -/
def twoFilesMade : SqliteFs .sample :=
  sample.run [(.sample, .create 1 [97] 0), (.sample, .create 1 [98] 0)]

/-- A file is renamed over another one a second later. -/
theorem records_changes_iff_sample :
    twoFilesMade.RecordsChanges laterEnv (.rename 1 [97] 1 [98])
        (twoFilesMade.after (laterEnv, .rename 1 [97] 1 [98])) ↔
      twoFilesMade.MissesNone laterEnv (.rename 1 [97] 1 [98]) :=
  have hvisited : twoFilesMade.Visited :=
    (visited_sample.handled (.sample, .create 1 [97] 0)).handled (.sample, .create 1 [98] 0)
  have hok : (handle laterEnv (.rename 1 [97] 1 [98]) twoFilesMade).2 = .replied .ok := by
    decide +kernel
  records_changes_iff hvisited (by decide +kernel) laterEnv (.rename 1 [97] 1 [98]) rfl
    (hok ▸ trivial)

/-- A file is made. -/
def fileMade : SqliteFs .sample := sample.after (.sample, .create 1 [97] 0)

/-- A file that gets another name a second later has one more link, and the time of change that it
had. -/
theorem link_misses_the_file :
    sample.Promised [(.sample, .create 1 [97] 0), (laterEnv, .link 2 1 [98])] ∧
    (handle laterEnv (.link 2 1 [98]) fileMade).2.Succeeded ∧
    ¬ fileMade.RecordsChanges laterEnv (.link 2 1 [98])
      (fileMade.after (laterEnv, .link 2 1 [98])) := by
  refine ⟨⟨⟨by decide, by decide, Or.inl rfl⟩, ⟨by decide, by decide, Or.inl rfl⟩, trivial⟩,
    trivial, ?_⟩
  intro hrecords
  obtain ⟨c, rfl, htime⟩ := hrecords 2 _ _ rfl rfl fun hsame => absurd hsame.links (by decide)
  exact absurd htime (by decide)

end SqliteFs

end TemporalFs
