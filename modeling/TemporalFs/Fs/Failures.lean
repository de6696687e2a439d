import Mathlib
import TemporalFs.Tree.Directories
import TemporalFs.Fs.Times
import TemporalFs.Fs.Crashes
import TemporalFs.Fs.PartialWrites

/-!
# Requests that fail

A request that replies an error should have changed nothing. Each call of a method is a transaction,
but a request that makes several calls can fail after the first of them was committed.
`SqliteFs.FailsLate` lists these cases, request by request.

They are those in which a second call follows a change that was committed: `unlink`, `rmdir` and
`rename` remove an entry and then delete the inode behind it, if nobody needs it; `symlink` writes
its target after the inode has been made; and `write` stores block after block. In all other
requests no call that can fail comes after a change of the tables.

## Main definitions

* `SqliteFs.Unchanged`: the tables and the counts are the same, access times aside.
* `SqliteFs.FailsLate`: a request fails after a part of it was committed.

## Main results

* `SqliteFs.fails_cleanly_iff`: a request that fails has changed nothing, unless it fails late.
-/

namespace TemporalFs

variable {X : Externals}

/-- The names that a request removes or replaces are not those that each directory has of its own,
and what it writes has a length that a request can give. -/
def Request.Sent : Request → Prop
  | .unlink _ name => ¬ IsDots name
  | .rmdir _ name => ¬ IsDots name
  | .rename _ name _ newname => ¬ IsDots name ∧ ¬ IsDots newname
  | .write _ _ _ data => data ≠ [] ∧ data.length < 2 ^ 32
  | _ => True

namespace SqliteFs

open Proc

/-- The tables and the counts of lookups are the same, access times aside. -/
structure Unchanged (s s' : SqliteFs X) : Prop where
  metadata : ∀ i, (s'.conn.metadata.find i).map MetadataRow.atimeless =
    (s.conn.metadata.find i).map MetadataRow.atimeless
  dentry : ∀ k, s'.conn.dentry.find k = s.conn.dentry.find k
  data : ∀ k, s'.conn.data.find k = s.conn.data.find k
  xattr : ∀ k, s'.conn.xattr.find k = s.conn.xattr.find k
  lookupCount : s'.lookupCount = s.lookupCount

theorem Accessed.unchanged {s s' : SqliteFs X} (h : s.Accessed s') : s.Unchanged s' where
  metadata := h.conn.metadata.find
  dentry _ := by rw [h.conn.dentry]
  data _ := by rw [h.conn.data]
  xattr _ := by rw [h.conn.xattr]
  lookupCount := h.lookupCount

/-- If the request replies an error, it has changed nothing. -/
def FailsCleanly (env : Env) (s : SqliteFs X) (r : Request) : Prop :=
  ∀ e, (handle env r s).2 = .replied (.error e) → s.Unchanged (s.after (env, r))

/-- The inode is deleted by a call that fails, unless it is still looked up. -/
def Undeletable (env : Env) (s : SqliteFs X) (i : ℕ) : Prop :=
  i ∉ s.lookupCount ∧ env.fails (.deleteInodeIfNoref i) = true

/-- The blocks before `k` are stored already as `write` stores them, and so is the row. -/
structure AlreadyStored (env : Env) (s : SqliteFs X) (ino offset : ℕ) (data : Bytes) (k : ℕ) :
    Prop where
  blocks : ∀ b, offset / blockSize + 1 ≤ b → b < k →
    s.conn.blocks ino b = some (newBlock (s.conn.blocks ino b) offset data b)
  row : ∀ m, s.conn.metadata.find ino = some m → s.db.writtenRow (env.now (.writeData (k - 1)))
    (UInt32.ofNat ((k - 1) * blockSize)) m = m

/-- The request fails after a part of it was committed. -/
def FailsLate (env : Env) (s : SqliteFs X) : Request → Prop
  | .symlink parent name link => s.readOnly = false ∧ IsUtf8 name ∧
      env.fails .addInodeAndDentry = false ∧ s.conn.CanAdd (asU32 parent) name ∧
      IsUtf8 link ∧ (blockSize < link.length ∨ env.fails (.writeData 1) = true ∨
        s.db.extensions = false)
  | .unlink parent name => s.readOnly = false ∧ IsUtf8 name ∧
      env.fails .deleteDentry = false ∧
      ∃ e, s.conn.dentry.find (asU32 parent, name) = some e ∧ s.Undeletable env e.childId
  | .rmdir parent name => s.readOnly = false ∧ IsUtf8 name ∧ env.fails .lookup = false ∧
      env.fails .checkDirectoryIsEmpty = false ∧ env.fails .deleteDentry = false ∧
      ∃ a, Sqlite.lookupAttr (asU32 parent) name s.conn = .ok (some a) ∧
        directoryIsEmpty s.conn.dentry.rows a.ino = true ∧ s.Undeletable env a.ino
  | .rename parent name newparent newname => s.readOnly = false ∧ IsUtf8 name ∧
      IsUtf8 newname ∧ env.fails .moveDentry = false ∧
      ∃ v, s.conn.dentry.find (asU32 newparent, newname) = some v ∧
        s.Undeletable env v.childId ∧
        (s.conn.CanMove (asU32 parent) name (asU32 newparent) newname ∨
          ((asU32 parent, name) = (asU32 newparent, newname) ∧ (v.fileType = .Directory →
            directoryIsEmpty s.conn.dentry.rows v.childId = true)))
  | .write ino _ offset data => s.readOnly = false ∧
      ∃ last, endOfRange env (i64AsU32 offset) (asU32 data.length) = some last ∧
        ∃ k, i64AsU32 offset / blockSize + 1 < k ∧
          s.BreaksOffAt env (asU32 ino) (i64AsU32 offset) last
            (i64AsU32 offset / blockSize + 1) k ∧
          ¬ s.AlreadyStored env (asU32 ino) (i64AsU32 offset) data k
  | _ => False

/-- How a request ends that replies no value. -/
inductive Fails (env : Env) (s : SqliteFs X) (r : Request) (e : Exit) (s' : SqliteFs X) : Prop
  | early (h : s.Unchanged s') (hlate : ¬ FailsLate env s r)
  | crash (he : e.IsPanic) (hlate : r.Sent → ¬ FailsLate env s r)
  | late {n : Errno} (he : e = .reply (.error n)) (hlate : FailsLate env s r)
    (h : r.Sent → ¬ s.Unchanged s')

section Handlers

variable {env : Env} {s : SqliteFs X}

/-- A reply to a request that does not fail late. -/
def InTime (env : Env) (s : SqliteFs X) (r : Request) (reply : Reply) : Prop :=
  (∀ e, reply ≠ .error e) ∧ (r.Sent → ¬ FailsLate env s r)

/-- What a handler of the request `r` does if the request fails late in the cases that `FailsLate`
lists, and else only before anything is committed. -/
abbrev FailsInTime (env : Env) (s : SqliteFs X) (r : Request) (h : Handler X Reply) : Prop :=
  h.Ensures s (fun reply _ => InTime env s r reply) (Fails env s r)

section Early

variable {r : Request} {s' : SqliteFs X} {e : Exit} (hlate : ¬ FailsLate env s r)

include hlate

theorem fails_early (h : s.Accessed s') : Fails env s r e s' := .early h.unchanged hlate

theorem fails_of_stop {db : Db X} (onErr : ErrorKind → Errno) (e : Stop)
    (h : s.conn.SameUpTo .atimeless db) : Fails env s r (e.exit onErr) (s.withConn db) :=
  fails_early hlate (.withConn h)

/-- The attributes that a request reads first. -/
theorem getInode_fails {α : Type} {i : ℕ} {f : DBFileAttr → Handler X α}
    {Q : α → SqliteFs X → Prop} (hf : ∀ a, (f a).Ensures s Q (Fails env s r)) :
    (callOrNoEnt env .getInode (fun db => db.getInode i) >>= fun found =>
      foundOrNoEnt found >>= f).Ensures s Q (Fails env s r) := by
  simp only [ensures_bind, ensures_callOrNoEnt, ensures_foundOrNoEnt]
  refine ⟨fun _ => fails_early hlate (.refl s), fun _ => ?_⟩
  refine (getInode_spec _ i s.conn).mono (fun found db h => ?_) fun e db h => ?_
  · obtain ⟨rfl, -⟩ := h
    exact ⟨fun a _ => hf a, fun _ => fails_early hlate (.refl s)⟩
  · exact fails_of_stop hlate _ e (h ▸ .refl _ _)

end Early

/-- The count of an inode that a request hands out. -/
theorem countLookup_fails {r : Request} {sent : Option Reply} {i : ℕ} {s₁ : SqliteFs X}
    (hlate : ¬ FailsLate env s r) : (countLookup env sent i).Ensures s₁
      (fun _ _ => True) (Fails env s r) :=
  (countLookup_spec _ _).mono (fun _ _ _ => trivial) fun _ _ h =>
    .crash (h.1 ▸ trivial) fun _ => hlate

theorem mkdir_fails (parent : ℕ) (name : Bytes) (mode : ℕ) :
    FailsInTime env s (.mkdir parent name mode) (mkdir env parent name mode) := by
  have hlate : ¬ FailsLate env s (.mkdir parent name mode) := id
  unfold FailsInTime mkdir
  rw [ensures_bind, ensures_writable]
  refine ⟨fun _ => getInode_fails hlate fun a => ?_, fun _ => fails_early hlate (.refl s)⟩
  simp only [ensures_bind, ensures_toStr, ensures_callOrNoEnt, ensures_pure]
  refine ⟨fun _ => ⟨fun _ => fails_early hlate (.refl s), fun _ => ?_⟩,
    fun _ => fails_early hlate (.refl s)⟩
  refine (Sqlite.addInodeAndDentry_spec _ _ _ _ _ _).mono (fun child db _ => ?_)
    fun e db h => fails_of_stop hlate _ e (h ▸ .refl _ _)
  exact (countLookup_fails hlate).mono (fun _ _ _ => ⟨fun _ h => by simp at h, fun _ => hlate⟩)
    fun _ _ h => h

theorem create_fails (parent : ℕ) (name : Bytes) (mode : ℕ) :
    FailsInTime env s (.create parent name mode) (create env parent name mode) := by
  have hlate : ¬ FailsLate env s (.create parent name mode) := id
  have hcount : ∀ (s₁ : SqliteFs X) (i : ℕ) (fa : FileAttr), (countLookup env none i).Ensures s₁
      (fun _ _ => InTime env s (.create parent name mode) (.created oneSec fa 0 0 0))
      (Fails env s (.create parent name mode)) := fun s₁ i fa =>
    (countLookup_fails hlate).mono (fun _ _ _ => ⟨fun _ h => by simp at h, fun _ => hlate⟩)
      fun _ _ h => h
  unfold FailsInTime create
  simp only [ensures_bind, ensures_writable, ensures_toStr, ensures_callOrNoEnt, ensures_pure]
  refine ⟨fun _ => ⟨fun _ => ⟨fun _ => fails_early hlate (.refl s), fun _ => ?_⟩,
    fun _ => fails_early hlate (.refl s)⟩, fun _ => fails_early hlate (.refl s)⟩
  refine (Sqlite.lookup_spec _ _ _ _ _).mono (fun found db h => ?_)
    fun e db h => fails_of_stop hlate _ e h
  obtain ⟨-, hdb⟩ := h
  cases found with
  | some attr => exact hcount _ _ _
  | none =>
    unfold createInode
    simp only [ensures_bind, ensures_callOrNoEnt, ensures_foundOrNoEnt, ensures_pure]
    refine ⟨fun _ => fails_early hlate (.withConn hdb), fun _ => ?_⟩
    refine (getInode_spec _ _ _).mono (fun found db' h => ?_)
      fun e db' h => fails_of_stop hlate _ e (h ▸ hdb)
    obtain ⟨rfl, -⟩ := h
    refine ⟨fun a _ => ⟨fun _ => fails_early hlate (.withConn hdb), fun _ => ?_⟩,
      fun _ => fails_early hlate (.withConn hdb)⟩
    exact (Sqlite.addInodeAndDentry_spec _ _ _ _ _ _).mono (fun child db₂ _ => hcount _ _ _)
      fun e db₂ h => fails_of_stop hlate _ e (h ▸ hdb)

theorem link_fails (ino parent : ℕ) (name : Bytes) :
    FailsInTime env s (.link ino parent name) (link env ino parent name) := by
  have hlate : ¬ FailsLate env s (.link ino parent name) := id
  unfold FailsInTime link
  simp only [ensures_bind, ensures_writable, ensures_toStr, ensures_callOr, ensures_pure]
  refine ⟨fun _ => ⟨fun _ => ⟨fun _ => fails_early hlate (.refl s), fun _ => ?_⟩,
    fun _ => fails_early hlate (.refl s)⟩, fun _ => fails_early hlate (.refl s)⟩
  refine (Sqlite.linkDentry_spec _ _ _ _ _ _).mono (fun attr db _ => ?_)
    fun e db h => fails_of_stop hlate _ e (h ▸ .refl _ _)
  exact (countLookup_fails hlate).mono (fun _ _ _ => ⟨fun _ h => by simp at h, fun _ => hlate⟩)
    fun _ _ h => h

theorem setattr_fails (ino : ℕ) (req : SetAttr) :
    FailsInTime env s (.setattr ino req) (setattr env ino req) := by
  have hlate : ¬ FailsLate env s (.setattr ino req) := id
  have hpanic : ∀ (e : Exit) (s' : SqliteFs X), e = .panic none ∧ s' = s →
      Fails env s (.setattr ino req) e s' := by
    rintro e s' ⟨rfl, rfl⟩
    exact fails_early hlate (.refl _)
  unfold FailsInTime setattr
  rw [ensures_bind, ensures_writable]
  refine ⟨fun _ => getInode_fails hlate fun old => ?_, fun _ => fails_early hlate (.refl s)⟩
  refine (ensures_bind _ _).2 ((setTime_spec _ _).mono (fun atime s₁ h₁ => ?_) hpanic)
  obtain ⟨rfl, -⟩ := h₁
  refine (ensures_bind _ _).2 ((setTime_spec _ _).mono (fun mtime s₂ h₂ => ?_) hpanic)
  obtain ⟨rfl, -⟩ := h₂
  refine (ensures_bind _ _).2 ((setTime_spec _ _).mono (fun crtime s₃ h₃ => ?_) hpanic)
  obtain ⟨rfl, -⟩ := h₃
  simp only [ensures_bind, ensures_callOrNoEnt, ensures_pure]
  refine ⟨fun _ => fails_early hlate (.refl _), fun _ => ?_⟩
  exact (Sqlite.updateInode_spec _ _ _ _ _).mono
    (fun _ db _ => ⟨fun _ h => by simp at h, fun _ => hlate⟩)
    fun e db h => fails_of_stop hlate _ e (h.1 ▸ .refl _ _)

theorem setxattr_fails (ino : ℕ) (name value : Bytes) (flags : ℕ) :
    FailsInTime env s (.setxattr ino name value flags) (setxattr env ino name value flags) := by
  have hlate : ¬ FailsLate env s (.setxattr ino name value flags) := id
  have hset : (callOrNoEnt env .setXattr fun db =>
      db.setXattr (env.now .setXattr) (asU32 ino) name value).Ensures s
        (fun _ _ => InTime env s (.setxattr ino name value flags) .ok)
        (Fails env s (.setxattr ino name value flags)) := by
    rw [ensures_callOrNoEnt]
    refine ⟨fun _ => fails_early hlate (.refl s), fun _ => ?_⟩
    exact (Sqlite.setXattr_spec _ _ _ _ _ _).mono
      (fun _ db _ => ⟨fun _ h => by simp at h, fun _ => hlate⟩)
      fun e db h => fails_of_stop hlate _ e (h.1 ▸ .refl _ _)
  unfold FailsInTime setxattr
  simp only [ensures_bind, ensures_writable, ensures_toStr, ensures_when, ensures_call,
    ensures_pure]
  refine ⟨fun _ => ⟨fun _ => ⟨fun _ => ⟨fun _ => fails_early hlate (.refl s), fun _ => ?_⟩,
    fun _ => hset⟩, fun _ => fails_early hlate (.refl s)⟩, fun _ => fails_early hlate (.refl s)⟩
  -- the attribute is looked up, and the flags are checked against what was found
  have hcheck : ∀ found, (checkXattrFlags flags found).Ensures s
      (fun _ s' => (callOrNoEnt env .setXattr fun db =>
        db.setXattr (env.now .setXattr) (asU32 ino) name value).Ensures s'
          (fun _ _ => InTime env s (.setxattr ino name value flags) .ok)
          (Fails env s (.setxattr ino name value flags)))
      (Fails env s (.setxattr ino name value flags)) := by
    intro found
    unfold checkXattrFlags
    split
    · exact (ensures_require _ _).2 ⟨fun _ => hset, fun _ => fails_early hlate (.refl s)⟩
    · exact (ensures_require _ _).2 ⟨fun _ => hset, fun _ => fails_early hlate (.refl s)⟩
    · exact fails_early hlate (.refl s)
  unfold Sqlite.getXattr
  simp only [ensures_bind, ensures_get, ensures_ofOption, ensures_pure]
  exact ⟨fun r _ => hcheck _, fun _ => hcheck _⟩

theorem removexattr_fails (ino : ℕ) (name : Bytes) :
    FailsInTime env s (.removexattr ino name) (removexattr env ino name) := by
  have hlate : ¬ FailsLate env s (.removexattr ino name) := id
  unfold FailsInTime removexattr
  simp only [ensures_bind, ensures_writable, ensures_toStr, ensures_callOrNoEnt, ensures_pure]
  refine ⟨fun _ => ⟨fun _ => ⟨fun _ => fails_early hlate (.refl s), fun _ => ?_⟩,
    fun _ => fails_early hlate (.refl s)⟩, fun _ => fails_early hlate (.refl s)⟩
  exact (Sqlite.deleteXattr_spec _ _ _ _ _).mono
    (fun _ db _ => ⟨fun _ h => by simp at h, fun _ => hlate⟩) fun _ _ h => h.elim

/-- The end of a request that took an entry from the inode `i`, once that is committed. -/
theorem deleteUnlessLookedUp_fails {r : Request} {db : Db X} {i : ℕ}
    (hlate : FailsLate env s r ↔ s.Undeletable env i)
    (hchanged : r.Sent → ¬ s.Unchanged (s.withConn db)) :
    (deleteUnlessLookedUp env i).Ensures (s.withConn db) (fun _ _ => InTime env s r .ok)
      (Fails env s r) := by
  have hok : ¬ s.Undeletable env i → InTime env s r .ok := fun h =>
    ⟨fun _ h => by simp at h, fun _ => mt hlate.1 h⟩
  simp only [deleteUnlessLookedUp, ensures_bind, ensures_get, ensures_when, ensures_callOrNoEnt]
  refine ⟨fun hi => ⟨fun hf => .late rfl (hlate.2 ⟨hi, hf⟩) hchanged, fun hf => ?_⟩, fun hi => ?_⟩
  · refine (Sqlite.deleteInodeIfNoref_spec _ _ i).mono (fun _ _ _ => hok fun h => ?_)
      fun _ _ h => h.elim
    exact absurd h.2 (by simp [hf])
  · exact hok fun h => hi h.1

/-- An entry that is not one of the directory's own is gone. -/
theorem not_unchanged_of_unlinked {p : ℕ} {n : Name} {child : ℕ} {db₁ db₂ : Db X}
    (hdb : db₁.dentry = s.conn.dentry) (h : db₁.Unlinked p n child db₂) (hn : ¬ IsDots n) :
    ¬ s.Unchanged (s.withConn db₂) := by
  intro hsame
  obtain ⟨e, he, -⟩ := h.found
  have hgone := h.dentry (p, n)
  rw [if_pos ⟨rfl, hn⟩] at hgone
  have := hsame.dentry (p, n)
  rw [conn_withConn, hgone, ← hdb, he] at this
  exact absurd this (by simp)

theorem unlink_fails (parent : ℕ) (name : Bytes) :
    FailsInTime env s (.unlink parent name) (unlink env parent name) := by
  unfold FailsInTime unlink
  simp only [ensures_bind, ensures_writable, ensures_toStr, ensures_callOrNoEnt, ensures_pure]
  refine ⟨fun hro => ⟨fun hutf8 => ⟨fun hf => ?_, fun hf => ?_⟩, fun hutf8 => ?_⟩, fun hro => ?_⟩
  · exact fails_early (fun h => absurd hf (by simp [h.2.2.1])) (.refl s)
  · refine ((Sqlite.deleteDentry_spec _ _ _ _ _).and
      (Sqlite.deleteDentry_returns _ _ _ _ _)).mono (fun child db h => ?_) fun e db h => ?_
    · obtain ⟨hun, e, he, rfl⟩ := h
      refine deleteUnlessLookedUp_fails ⟨fun hlate => ?_, fun hundel => ?_⟩ fun hn =>
        not_unchanged_of_unlinked rfl hun hn
      · obtain ⟨-, -, -, e', he', h⟩ := hlate
        exact Option.some.inj (he'.symm.trans he) ▸ h
      · exact ⟨hro, hutf8, hf, e, he, hundel⟩
    · obtain ⟨rfl, hnone⟩ := h
      refine fails_of_stop (fun hlate => ?_) _ e (.refl _ _)
      obtain ⟨-, -, -, e', he', -⟩ := hlate
      exact absurd (he'.symm.trans hnone) (by simp)
  · exact fails_early (fun h => hutf8 h.2.1) (.refl s)
  · exact fails_early (fun h => hro h.1) (.refl s)

theorem rmdir_fails (parent : ℕ) (name : Bytes) :
    FailsInTime env s (.rmdir parent name) (rmdir env parent name) := by
  unfold FailsInTime rmdir
  simp only [ensures_bind, ensures_writable, ensures_toStr, ensures_callOrNoEnt, ensures_pure,
    ensures_foundOrNoEnt, ensures_require]
  refine ⟨fun hro => ⟨fun hutf8 => ⟨fun hf => ?_, fun hlookup => ?_⟩, fun hutf8 => ?_⟩,
    fun hro => ?_⟩
  · exact fails_early (fun h => absurd hf (by simp [h.2.2.1])) (.refl s)
  · refine ((Sqlite.lookup_spec _ _ _ _ _).and (Sqlite.lookup_returns _ _ _ _ _)).mono
      (fun found db h => ?_) fun e db h => ?_
    · obtain ⟨⟨hfound, hdb⟩, -⟩ := h
      have hattr : ∀ {a}, FailsLate env s (.rmdir parent name) → found = some a →
          env.fails .checkDirectoryIsEmpty = false ∧ env.fails .deleteDentry = false ∧
            directoryIsEmpty s.conn.dentry.rows a.ino = true ∧ s.Undeletable env a.ino := by
        rintro a ⟨-, -, -, hcheck, hdelete, a', ha', h⟩ rfl
        obtain rfl := Option.some.inj (Except.ok.inj (ha'.symm.trans hfound))
        exact ⟨hcheck, hdelete, h⟩
      refine ⟨fun a ha => ⟨fun hf => ?_, fun hcheck => ?_⟩, fun hnone => ?_⟩
      · exact fails_early (fun h => absurd hf (by simp [(hattr h ha).1])) (.withConn hdb)
      · unfold Sqlite.checkDirectoryIsEmpty checkDirectoryIsEmptyLocal
        simp only [ensures_bind, ensures_get, ensures_pure, conn_withConn, db_withConn,
          withConn_withConn]
        rw [hdb.dentry]
        refine ⟨fun hempty => ⟨fun hf => ?_, fun hdelete => ?_⟩, fun hempty => ?_⟩
        · exact fails_early (fun h => absurd hf (by simp [(hattr h ha).2.1])) (.withConn hdb)
        · subst ha
          obtain ⟨e, he, hino, -⟩ := lookupAttr_eq_ok_some hfound
          refine ((Sqlite.deleteDentry_spec _ _ _ _ _).and
            (Sqlite.deleteDentry_returns _ _ _ _ _)).mono (fun child db₂ h => ?_)
            fun e' db₂ h => ?_
          · obtain ⟨hun, e', he', rfl⟩ := h
            rw [hdb.dentry] at he'
            obtain rfl := Option.some.inj (he'.symm.trans he)
            refine deleteUnlessLookedUp_fails ⟨fun hlate => ?_, fun hundel => ?_⟩ fun hn =>
              not_unchanged_of_unlinked hdb.dentry hun hn
            · exact hino ▸ (hattr hlate rfl).2.2.2
            · exact ⟨hro, hutf8, hlookup, hcheck, hdelete, a, hfound, hempty, hino ▸ hundel⟩
          · rw [hdb.dentry, he] at h
            exact absurd h.2 (by simp)
        · exact fails_early (fun h => hempty (hattr h ha).2.2.1) (.withConn hdb)
      · refine fails_early (fun hlate => ?_) (.withConn hdb)
        obtain ⟨-, -, -, -, -, a', ha', -⟩ := hlate
        subst hnone
        exact absurd (ha'.symm.trans hfound) (by simp)
    · refine fails_of_stop (fun hlate => ?_) _ e h.1
      obtain ⟨-, -, -, -, -, a', ha', -⟩ := hlate
      exact absurd (ha'.symm.trans h.2) (by simp)
  · exact fails_early (fun h => hutf8 h.2.1) (.refl s)
  · exact fails_early (fun h => hro h.1) (.refl s)

theorem symlink_fails (parent : ℕ) (name link : Bytes) :
    FailsInTime env s (.symlink parent name link) (symlink env parent name link) := by
  unfold FailsInTime symlink
  simp only [ensures_bind, ensures_writable, ensures_toStr, ensures_callOrNoEnt, ensures_pure,
    ensures_require]
  refine ⟨fun hro => ⟨fun hutf8 => ⟨fun hf => ?_, fun hadd => ?_⟩, fun hutf8 => ?_⟩, fun hro => ?_⟩
  · exact fails_early (fun h => absurd hf (by simp [h.2.2.1])) (.refl s)
  · refine ((Sqlite.addInodeAndDentry_spec _ _ _ _ _ _).and
      (Sqlite.addInodeAndDentry_returns s.db _ _ _ (by simp [newAttr])
        (newAttr_dated ..) s.conn)).mono (fun child db h => ?_) fun e db h => ?_
    · obtain ⟨hadded, hcan⟩ := h
      have hchanged : ¬ s.Unchanged (s.withConn db) := by
        intro hsame
        have hnew := hadded.dentry (asU32 parent, name)
        rw [if_neg (by simp [newAttr]), if_neg (by simp [newAttr]), if_pos rfl] at hnew
        have := hsame.dentry (asU32 parent, name)
        rw [conn_withConn, hnew, hadded.free] at this
        exact absurd this (by simp)
      have hlate : IsUtf8 link → (blockSize < link.length ∨ env.fails (.writeData 1) = true ∨
          s.db.extensions = false) → FailsLate env s (.symlink parent name link) :=
        fun hlink h => ⟨hro, hutf8, hadd, hcan, hlink, h⟩
      refine ⟨fun hlink => ⟨fun hlen => ⟨fun hf => ?_, fun hput => ?_⟩, fun hlen => ?_⟩,
        fun hlink => ?_⟩
      · exact .late rfl (hlate hlink (Or.inr (Or.inl hf))) fun _ => hchanged
      · refine ((Sqlite.writeData_spec _ _ _ _ _ _ _).and
          (Sqlite.writeData_returns _ _ _ _ _ _ _)).mono (fun _ db₂ h => ?_) fun e db₂ h => ?_
        · have hintime : ¬ FailsLate env s (.symlink parent name link) := by
            rintro ⟨-, -, -, -, -, hlong | hf | hext⟩
            · exact absurd hlen (not_le.2 hlong)
            · exact absurd hf (by simp [hput])
            · exact absurd hext (by simpa using h.2)
          exact (countLookup_fails hintime).mono
            (fun _ _ _ => ⟨fun _ h => by simp at h, fun _ => hintime⟩) fun _ _ h => h
        · obtain ⟨⟨rfl, hpanic, hcause⟩, -⟩ := h
          have hchild : (db₂.metadata.find child).isSome := by
            have := congrArg Option.isSome (hadded.metadata child)
            rw [if_pos rfl, Option.isSome_map] at this
            exact this
          have hext := hcause.resolve_left fun hnone => by
            rw [conn_withConn] at hnone
            simp [hnone] at hchild
          cases e with
          | err kind => exact .late rfl (hlate hlink (Or.inr (Or.inr hext))) fun _ => hchanged
          | panic => exact absurd rfl hpanic
      · exact .late rfl (hlate hlink (Or.inl (not_le.1 hlen))) fun _ => hchanged
      · exact .crash trivial fun _ h => hlink h.2.2.2.2.1
    · refine fails_of_stop (fun hlate => ?_) _ e (h.1 ▸ .refl _ _)
      exact h.2 hlate.2.2.2.1
  · exact fails_early (fun h => hutf8 h.2.1) (.refl s)
  · exact fails_early (fun h => hro h.1) (.refl s)

/-- The end of a rename, once the entry is moved. -/
theorem deleteOverwritten_fails {parent newparent : ℕ} {name newname : Bytes} {db : Db X}
    (hro : s.readOnly = false) (hutf8 : IsUtf8 name ∧ IsUtf8 newname)
    (hmove : env.fails .moveDentry = false)
    (hallowed : ∀ v, s.conn.dentry.find (asU32 newparent, newname) = some v →
      s.conn.CanMove (asU32 parent) name (asU32 newparent) newname ∨
        ((asU32 parent, name) = (asU32 newparent, newname) ∧ (v.fileType = .Directory →
          directoryIsEmpty s.conn.dentry.rows v.childId = true)))
    (hchanged : (Request.rename parent name newparent newname).Sent →
      ¬ s.Unchanged (s.withConn db)) :
    (deleteOverwritten env ((s.conn.dentry.find (asU32 newparent, newname)).map
        DentryRow.childId)).Ensures (s.withConn db)
      (fun _ _ => InTime env s (.rename parent name newparent newname) .ok)
      (Fails env s (.rename parent name newparent newname)) := by
  cases hv : s.conn.dentry.find (asU32 newparent, newname) with
  | none =>
    refine ⟨fun _ h => by simp at h, fun _ hlate => ?_⟩
    obtain ⟨-, -, -, -, v, hv', -⟩ := hlate
    exact absurd (hv'.symm.trans hv) (by simp)
  | some v =>
    refine deleteUnlessLookedUp_fails ⟨fun hlate => ?_, fun hundel => ?_⟩ hchanged
    · obtain ⟨-, -, -, -, v', hv', hundel, -⟩ := hlate
      exact Option.some.inj (hv'.symm.trans hv) ▸ hundel
    · exact ⟨hro, hutf8.1, hutf8.2, hmove, v, hv, hundel, hallowed v hv⟩

theorem rename_fails (parent : ℕ) (name : Bytes) (newparent : ℕ) (newname : Bytes) :
    FailsInTime env s (.rename parent name newparent newname)
      (rename env parent name newparent newname) := by
  unfold FailsInTime rename
  simp only [ensures_bind, ensures_writable, ensures_toStr, ensures_callOr, ensures_pure]
  refine ⟨fun hro => ⟨fun hutf8 => ⟨fun hutf8' => ⟨fun hf => ?_, fun hmove => ?_⟩,
    fun hutf8' => ?_⟩, fun hutf8 => ?_⟩, fun hro => ?_⟩
  · exact fails_early (fun h => absurd hf (by simp [h.2.2.2.1])) (.refl s)
  · by_cases hne : (asU32 parent, name) = (asU32 newparent, newname)
    · obtain ⟨hparent, rfl⟩ := Prod.mk.inj hne
      rw [← hparent]
      by_cases hcan : ∃ e, s.conn.dentry.find (asU32 parent, name) = some e ∧
          (e.fileType = .Directory → directoryIsEmpty s.conn.dentry.rows e.childId = true)
      · obtain ⟨e, he, hempty⟩ := hcan
        refine ((Sqlite.moveDentry_onto_itself_spec _ _ _ _ _).and
          (Sqlite.moveDentry_onto_itself_returns _ _ _ he hempty)).mono (fun res db h => ?_)
          fun _ _ h => h.2.elim
        obtain ⟨⟨e', rfl, hmoved⟩, -⟩ := h
        have hres : some e'.childId =
            (s.conn.dentry.find (asU32 newparent, name)).map DentryRow.childId := by
          rw [← hparent, hmoved.found, Option.map_some]
        rw [hres]
        refine deleteOverwritten_fails hro ⟨hutf8, hutf8'⟩ hmove (fun v hv => ?_) fun hn hsame => ?_
        · rw [← hparent, he] at hv
          exact Or.inr ⟨hne, Option.some.inj hv ▸ hempty⟩
        · have hgone := hmoved.dentry (asU32 parent, name)
          rw [if_pos ⟨rfl, hn.1⟩] at hgone
          have := hsame.dentry (asU32 parent, name)
          rw [conn_withConn, hgone, he] at this
          exact absurd this (by simp)
      · have hlate : ¬ FailsLate env s (.rename parent name newparent name) := by
          rintro ⟨-, -, -, -, v, hv, -, h | ⟨-, hempty⟩⟩
          · exact h.1 hne
          · exact hcan ⟨v, hparent ▸ hv, hempty⟩
        refine (Sqlite.moveDentry_onto_itself_spec _ _ _ _ _).mono (fun res db h => ?_)
          fun e db h => fails_of_stop hlate _ e (h ▸ .refl _ _)
        obtain ⟨e, -, hmoved⟩ := h
        exact absurd ⟨e, hmoved.found, hmoved.empty⟩ hcan
    · by_cases hcan : s.conn.CanMove (asU32 parent) name (asU32 newparent) newname
      · refine ((Sqlite.moveDentry_spec _ _ hne _).and
          (Sqlite.moveDentry_returns _ _ _ hcan)).mono (fun res db h => ?_) fun _ _ h => h.2.elim
        obtain ⟨⟨e, hmoved⟩, -⟩ := h
        rw [hmoved.res_eq]
        refine deleteOverwritten_fails hro ⟨hutf8, hutf8'⟩ hmove (fun v hv => Or.inl hcan)
          fun hn hsame => ?_
        have hgone := hmoved.dentry (asU32 parent, name)
        rw [if_neg fun h => hn.1 (Or.inl (Prod.mk.inj h.2.2).2), Db.movedEntry, if_neg hne,
          if_pos rfl] at hgone
        have := hsame.dentry (asU32 parent, name)
        rw [conn_withConn, hgone, hmoved.source] at this
        exact absurd this (by simp)
      · have hlate : ¬ FailsLate env s (.rename parent name newparent newname) := by
          rintro ⟨-, -, -, -, v, -, -, h | ⟨heq, -⟩⟩
          · exact hcan h
          · exact hne heq
        refine (Sqlite.moveDentry_spec _ _ hne _).mono (fun res db h => ?_)
          fun e db h => fails_of_stop hlate _ e (h ▸ .refl _ _)
        obtain ⟨e, hmoved⟩ := h
        exact absurd (hmoved.canMove hne) hcan
  · exact fails_early (fun h => hutf8' h.2.2.1) (.refl s)
  · exact fails_early (fun h => hutf8 h.2.1) (.refl s)
  · exact fails_early (fun h => hro h.1) (.refl s)

/-- What a write has stored before it broke off changes nothing that was there already. -/
theorem PartlyWritten.unchanged {ino offset k : ℕ} {data : Bytes} {db : Db X}
    (h : s.PartlyWritten env ino offset data k db)
    (hrow : offset / blockSize + 1 < k → ∀ m, s.conn.metadata.find ino = some m →
      s.db.writtenRow (env.now (.writeData (k - 1))) (UInt32.ofNat ((k - 1) * blockSize)) m = m)
    (hblocks : ∀ b, offset / blockSize + 1 ≤ b → b < k →
      s.conn.blocks ino b = some (newBlock (s.conn.blocks ino b) offset data b)) :
    s.Unchanged (s.withConn db) where
  metadata j := by
    rw [conn_withConn, h.metadata j]
    refine Option.map_congr fun m hm => ?_
    split_ifs with hj
    · rw [hrow hj.2 m (hj.1 ▸ hm)]
    · rfl
  dentry _ := by rw [conn_withConn, h.dentry]
  data k' := by
    rw [conn_withConn, Db.data_find_eq, Db.data_find_eq, h.blocks]
    split_ifs with hin
    · rw [hin.1, ← hblocks _ hin.2.1 hin.2.2]
    · rfl
  xattr _ := by rw [conn_withConn, h.xattr]
  lookupCount := rfl

/-- It is a change otherwise. -/
theorem PartlyWritten.unchanged_iff {ino offset k : ℕ} {data : Bytes} {db : Db X}
    (h : s.PartlyWritten env ino offset data k db) (hk : offset / blockSize + 1 < k) :
    s.Unchanged (s.withConn db) ↔ s.AlreadyStored env ino offset data k := by
  constructor
  · intro hsame
    refine ⟨fun b hb hb' => ?_, fun m hm => ?_⟩
    · have hblocks : db.blocks ino b = s.conn.blocks ino b := by
        unfold Db.blocks
        rw [← conn_withConn s db, hsame.data]
      exact hblocks.symm.trans ((h.blocks ino b).trans (if_pos ⟨rfl, hb, hb'⟩))
    · have hrow := (h.metadata ino).symm.trans (hsame.metadata ino)
      rw [hm, Option.map_some, Option.map_some, if_pos ⟨rfl, hk⟩] at hrow
      have hfields := Option.some.inj hrow
      simp only [MetadataRow.atimeless, Sqlite.writtenRow, MetadataRow.mk.injEq, true_and,
        and_true] at hfields
      unfold Sqlite.writtenRow
      rw [hfields.1, hfields.2.1, hfields.2.2]
  · intro hstored
    exact h.unchanged (fun _ => hstored.row) hstored.blocks

/-- A write of a length that a request can give does not panic once it can fail late. -/
theorem write_late_not_panics {ino fh : ℕ} {offset : ℤ} {data : Bytes}
    (hsent : (Request.write ino fh offset data).Sent)
    (hlate : FailsLate env s (.write ino fh offset data)) :
    ¬ Panics env s (.write ino fh offset data) := by
  obtain ⟨-, last, hlast, -⟩ := hlate
  have hsize : asU32 data.length = data.length := Nat.mod_eq_of_lt hsent.2
  have hpos := List.length_pos_iff.2 hsent.1
  rintro ⟨-, hzero | ⟨hchecked, hover⟩⟩
  · omega
  · unfold endOfRange at hlast
    rw [if_neg] at hlast
    · simp at hlast
    · rintro (hin | hunchecked)
      · exact absurd hin.2 (not_lt.2 hover)
      · simp [hchecked] at hunchecked

theorem write_fails (ino fh : ℕ) (offset : ℤ) (data : Bytes) :
    FailsInTime env s (.write ino fh offset data) (write env ino offset data) := by
  by_cases hro : s.readOnly = false
  swap
  · unfold FailsInTime write
    rw [ensures_bind, ensures_writable]
    exact ⟨fun h => absurd h hro, fun _ => fails_early (fun h => hro h.1) (.refl s)⟩
  have hpanics : (write env ino offset data).Ensures s (fun _ _ => True) (fun e _ => e.IsPanic →
      (Request.write ino fh offset data).Sent →
        ¬ FailsLate env s (.write ino fh offset data)) := by
    by_cases hlen : data.length < 2 ^ 32
    · exact (write_panics ino fh offset hlen).mono (fun _ _ _ => trivial)
        fun e _ h he hsent hlate => write_late_not_panics hsent hlate (h.1 he)
    · exact ensures_of_forall (fun _ _ => trivial) fun _ _ _ hsent => absurd hsent.2 hlen
  refine ((write_breaks_off ino offset data hro).and hpanics).mono (fun reply s' h => ?_)
    fun e s' h => ?_
  · obtain ⟨⟨rfl, h⟩, -⟩ := h
    refine ⟨fun _ h => by simp at h, fun _ hlate => ?_⟩
    obtain ⟨-, last, hlast, k, hk, hoff, -⟩ := hlate
    obtain ⟨hrow, hext⟩ := hoff.stored hk
    exact h last hlast k hoff.first_le hoff.le_last (hoff.callsFail hrow hext)
  · obtain ⟨rfl | ⟨rfl, last, hlast, k, hoff, db', rfl, h⟩, hpanic⟩ := h
    · exact .crash trivial (hpanic trivial)
    -- the block that fails late is the one at which the write broke off
    have hlate : FailsLate env s (.write ino fh offset data) →
        i64AsU32 offset / blockSize + 1 < k ∧
          ¬ s.AlreadyStored env (asU32 ino) (i64AsU32 offset) data k := by
      rintro ⟨-, last', hlast', k', hk', hoff', hnew⟩
      obtain rfl := Option.some.inj (hlast.symm.trans hlast')
      obtain ⟨hrow, hext⟩ := hoff'.stored hk'
      obtain rfl := hoff.eq hrow hext hoff'
      exact ⟨hk', hnew⟩
    rcases hoff.first_le.eq_or_lt with hfirst | hk
    · refine .early (h.unchanged (fun hk => absurd hfirst hk.ne) fun b hb hb' => ?_) fun hl =>
        absurd hfirst (hlate hl).1.ne
      omega
    · by_cases hstored : s.AlreadyStored env (asU32 ino) (i64AsU32 offset) data k
      · exact .early ((h.unchanged_iff hk).2 hstored) fun hl => (hlate hl).2 hstored
      · exact .late rfl ⟨hro, last, hlast, k, hk, hoff, hstored⟩ fun _ =>
          mt (h.unchanged_iff hk).1 hstored

/-- What a handler does, in terms of its outcome. -/
theorem FailsInTime.failsCleanly {r : Request} {h : Handler X Reply} (hh : FailsInTime env s r h)
    (hr : handle env r s = outcome h s) :
    (¬ FailsLate env s r → FailsCleanly env s r) ∧
      (r.Sent → FailsLate env s r → ¬ FailsCleanly env s r) := by
  have hafter : s.after (env, r) = (outcome h s).1 := congrArg Prod.fst hr
  unfold FailsCleanly
  rw [hafter, hr]
  refine outcome_of_ensures (P := fun s' out =>
    (¬ FailsLate env s r → ∀ e, out = .replied (.error e) → s.Unchanged s') ∧
      (r.Sent → FailsLate env s r → ¬ ∀ e, out = .replied (.error e) → s.Unchanged s'))
    (hh.mono (fun reply s' h => ?_) fun e s' h => ?_)
  · exact ⟨fun _ e he => absurd (Outcome.replied.inj he) (h.1 e),
      fun hsent hlate => absurd hlate (h.2 hsent)⟩
  · cases h with
    | early hsame hlate => exact ⟨fun _ _ _ => hsame, fun _ h => absurd h hlate⟩
    | crash he hlate =>
      refine ⟨fun _ n hn => ?_, fun hsent h => absurd h (hlate hsent)⟩
      cases e with
      | reply reply => exact he.elim
      | panic sent => exact absurd hn (by simp [Exit.outcome])
    | @late n he hlate hchanged =>
      exact ⟨fun h => absurd hlate h, fun hsent _ hclean =>
        hchanged hsent (hclean n (congrArg Exit.outcome he))⟩

end Handlers

/-- **A request that fails has changed nothing, unless it fails late**, and then it has. This is so
in every state, for every choice of failing calls; that a request which fails late leaves a change
is proved for all requests that the kernel can send. -/
theorem fails_cleanly_iff (env : Env) (s : SqliteFs X) (r : Request) (hr : r.mutates = true) :
    (¬ FailsLate env s r → FailsCleanly env s r) ∧
      (r.Sent → (FailsCleanly env s r ↔ ¬ FailsLate env s r)) := by
  have hfails : (¬ FailsLate env s r → FailsCleanly env s r) ∧
      (r.Sent → FailsLate env s r → ¬ FailsCleanly env s r) := by
    cases r with
    | setattr ino req => exact (setattr_fails ino req).failsCleanly rfl
    | mkdir parent name mode => exact (mkdir_fails parent name mode).failsCleanly rfl
    | unlink parent name => exact (unlink_fails parent name).failsCleanly rfl
    | rmdir parent name => exact (rmdir_fails parent name).failsCleanly rfl
    | symlink parent name link => exact (symlink_fails parent name link).failsCleanly rfl
    | rename p n p' n' => exact (rename_fails p n p' n').failsCleanly rfl
    | link ino parent name => exact (link_fails ino parent name).failsCleanly rfl
    | write ino fh offset data => exact (write_fails ino fh offset data).failsCleanly rfl
    | setxattr ino name value flags => exact (setxattr_fails ino name value flags).failsCleanly rfl
    | removexattr ino name => exact (removexattr_fails ino name).failsCleanly rfl
    | create parent name mode => exact (create_fails parent name mode).failsCleanly rfl
    | _ => exact absurd hr (by simp [Request.mutates])
  exact ⟨hfails.1, fun hsent => ⟨fun hclean hlate => hfails.2 hsent hlate hclean, hfails.1⟩⟩

/-- Surroundings in which the inode 2 cannot be deleted. -/
def undeletable : Env := { Env.sample with fails := fun c => decide (c = .deleteInodeIfNoref 2) }

/-- A file that the kernel has forgotten. -/
def forgottenFile : SqliteFs .sample :=
  sample.run [(.sample, .create 1 [97] 0), (.sample, .forget 2 1)]

/-- The name of the file is removed, but its inode cannot be deleted. -/
theorem fails_cleanly_iff_sample :
    (¬ FailsLate undeletable forgottenFile (.unlink 1 [97]) →
      FailsCleanly undeletable forgottenFile (.unlink 1 [97])) ∧
      ((Request.unlink 1 [97]).Sent → (FailsCleanly undeletable forgottenFile (.unlink 1 [97]) ↔
        ¬ FailsLate undeletable forgottenFile (.unlink 1 [97]))) :=
  fails_cleanly_iff undeletable forgottenFile (.unlink 1 [97]) rfl

/-- Surroundings in which the first block of a file cannot be written. -/
def unwritable : Env := { Env.sample with fails := fun c => decide (c = .writeData 1) }

/-- A symbolic link whose target cannot be stored leaves its inode and its name behind. -/
theorem refused_symlink_is_left : sample.Visited ∧
    ¬ FailsCleanly unwritable sample (.symlink 1 [98] [97]) := by
  refine ⟨visited_sample, ((symlink_fails 1 [98] [97]).failsCleanly rfl).2 trivial ?_⟩
  have hcan : sample.conn.CanAdd 1 [98] := ⟨by decide, by decide, Or.inl (by decide)⟩
  have hutf8 : IsUtf8 [97] := isUtf8_of_ascii _ fun b hb => by
    rw [List.mem_singleton.1 hb]
    decide
  exact ⟨rfl, rfl, rfl, hcan, hutf8, Or.inr (Or.inl rfl)⟩

end SqliteFs

end TemporalFs
