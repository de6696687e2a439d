import Mathlib
import TemporalFs.Db.Init
import TemporalFs.Fs.Mounts
import TemporalFs.Fs.Crashes

/-!
# Read-only mounts

A mount made by `newReadOnly` or `newAtTime` refuses every request that asks for a change. Two
calls write all the same: `init` deletes inodes without an entry unless the mount is rewound, and
reading a block on a rewound mount records the access in the present table of inodes.

The argument goes through every handler with an invariant that row changes of these two kinds keep.
Each request that could make others asks whether the mount is read-only first, and replies `EPERM`.
A mount made by `newReadOnly` does not record times, and on a rewound one the lookups read the
temporary tables, so that what remains is the access that `getDataAtTime` records.

## Main definitions

* `SqliteFs.ReadOnlyMount`: a mount made by one of the two constructors.
* `SqliteFs.ReadsBlock`: a request that reads a block.

## Main results

* `SqliteFs.ReadOnlyMount.keeps`: what these two writes keep, every request keeps.
-/

namespace TemporalFs

variable {X : Externals}

/-- The access to the inode `i` is recorded. -/
def Db.accessed (db : Db X) (i : ℕ) (now : Now) : Db X :=
  db.updateMetadata i fun m => { m with atime := now.1.throughDatetime }

namespace Db

/-- The tables with their logs are the same. -/
structure SameTables (db db' : Db X) : Prop where
  metadata : db'.metadata = db.metadata
  dentry : db'.dentry = db.dentry
  data : db'.data = db.data
  xattr : db'.xattr = db.xattr

variable {db : Db X} {i : ℕ}

theorem updateMetadata_of_find_none (hi : db.metadata.find i = none)
    (f : MetadataRow → MetadataRow) : db.updateMetadata i f = db := by
  unfold updateMetadata
  simp only [AuditedTable.update_of_find_none hi]

theorem SameUpTo.accessed (db : Db X) (i : ℕ) (now : Now) :
    db.SameUpTo .atimeless (db.accessed i now) :=
  .updateMetadata db i _ (fun _ => rfl) fun _ hok _ hm => ⟨hok now, hm.2⟩

theorem step_accessed (db : Db X) (i : ℕ) (now : Now) : Step true true db (db.accessed i now) :=
  .updateMetadata db i _ (Or.inl rfl)

theorem tick_le_accessed (db : Db X) (i : ℕ) (now : Now) : db.tick ≤ (db.accessed i now).tick :=
  (step_accessed db i now).tick_le

theorem tick_lt_accessed (hi : (db.metadata.find i).isSome) (now : Now) :
    db.tick < (db.accessed i now).tick := by
  have hm : (db.accessed i now).metadata = db.metadata.update db.now i
    (fun m => { m with atime := now.1.throughDatetime }.withId m.id)
    (metadataSpec_key_withId _) := rfl
  have hd : (db.accessed i now).dentry = db.dentry := rfl
  have hb : (db.accessed i now).data = db.data := rfl
  have hx : (db.accessed i now).xattr = db.xattr := rfl
  obtain ⟨m, hfind⟩ := Option.isSome_iff_exists.1 hi
  unfold tick
  rw [hm, hd, hb, hx, AuditedTable.length_history_update hfind]
  omega

theorem Closed.foldl_deleteMetadata {b c : Bool} {I : Db X → Prop} (hI : Closed b c I) {db : Db X}
    (h : I db) (l : List ℕ) : I (db.deleteAll l) :=
  Closed.foldl (I := I) (fun _ i hd => hI.deleteMetadata hd i) l db h

theorem tick_le_deleteAll (db : Db X) (l : List ℕ) : db.tick ≤ (db.deleteAll l).tick :=
  have hclosed : Closed true true fun db' : Db X => db.tick ≤ db'.tick :=
    fun _ _ hstep hle => hle.trans hstep.tick_le
  hclosed.foldl_deleteMetadata le_rfl l

/-- An inode that exists is deleted with an audit row. -/
theorem tick_lt_deleteAll (hi : i ∈ db.unnamed) :
    db.tick < (db.deleteAll db.unnamed).tick := by
  have hclosed : Closed true true fun db' : Db X =>
      db.tick < db'.tick ∨ (db.tick ≤ db'.tick ∧ (db'.metadata.find i).isSome) := by
    rintro db₁ db₂ hstep (h | ⟨h, hrow⟩)
    · exact Or.inl (h.trans_le hstep.tick_le)
    · obtain ⟨-, hm, hd, hb, hx⟩ := hstep.extends
      rcases hm with hm | ⟨c, hm, -⟩
      · exact Or.inr ⟨h.trans hstep.tick_le, hm.symm ▸ hrow⟩
      · refine Or.inl (h.trans_lt ?_)
        unfold tick
        have := hd.isPrefix.length_le
        have := hb.isPrefix.length_le
        have := hx.isPrefix.length_le
        rw [hm, List.length_append, List.length_singleton]
        omega
  have hrow := ((db.mem_unnamed i).1 hi).1
  refine (hclosed.foldl_deleteMetadata (Or.inr ⟨le_rfl, hrow⟩) db.unnamed).resolve_right fun h => ?_
  rw [db.metadata_find_deleteAll, if_pos hi] at h
  simp at h

end Db

namespace SqliteFs

open Proc

variable {env : Env} {s : SqliteFs X}

/-- A mount made by `newReadOnly` or `newAtTime`. -/
structure ReadOnlyMount (s : SqliteFs X) : Prop where
  readOnly : s.readOnly = true
  db_readOnly : s.db.readOnly = true
  not_recording : s.rewind = false → s.db.timeRecording = false

theorem SameMount.refl (s : SqliteFs X) : s.SameMount s := ⟨rfl, rfl, rfl⟩

theorem SameMount.readOnlyMount {s' : SqliteFs X} (h : s.SameMount s') (hs : s.ReadOnlyMount) :
    s'.ReadOnlyMount where
  readOnly := h.readOnly.trans hs.readOnly
  db_readOnly := by rw [h.db, hs.db_readOnly]
  not_recording hre := by rw [h.db, hs.not_recording (h.rewind.symm.trans hre)]

/-- The mount is the same, and its database satisfies `I`. -/
def Within (s : SqliteFs X) (I : Db X → Prop) (s' : SqliteFs X) : Prop :=
  s.SameMount s' ∧ I s'.conn

section Keeps

variable {I : Db X → Prop} {α β : Type}

/-- The program stays on the same mount and keeps `I`. -/
abbrev Stays (s : SqliteFs X) (I : Db X → Prop) (x : Handler X α) : Prop :=
  x.Preserves (fun _ => True) (s.Within I)

theorem stays_call (c : Call) {m : Sqlite → Conn X α}
    (hm : ∀ db, I db → (m s.db).Ensures db (fun _ db' => I db') fun _ db' => I db') :
    s.Stays I (call env c m) := by
  rintro s₁ ⟨hsame, hI⟩
  rw [ensures_call, hsame.db]
  refine ⟨fun _ => ⟨hsame, hI⟩, fun _ => (hm s₁.conn hI).mono (fun _ db h => ?_) fun e db h => ?_⟩
  · exact ⟨⟨hsame.db, hsame.readOnly, hsame.rewind⟩, h⟩
  · cases e with
    | err kind => exact ⟨⟨hsame.db, hsame.readOnly, hsame.rewind⟩, h⟩
    | panic => exact ⟨trivial, ⟨hsame.db, hsame.readOnly, hsame.rewind⟩, h⟩

theorem stays_callOr (c : Call) {m : Sqlite → Conn X α}
    (hm : ∀ db, I db → (m s.db).Ensures db (fun _ db' => I db') fun _ db' => I db')
    (onErr : ErrorKind → Errno) : s.Stays I (callOr env c m onErr) :=
  preserves_bind (stays_call c hm) fun r => by
    cases r with
    | ok a => exact preserves_pure a
    | error kind => exact preserves_stop trivial

theorem stays_modify {f : SqliteFs X → SqliteFs X} (hf : ∀ s : SqliteFs X, s.SameMount (f s))
    (hconn : ∀ s : SqliteFs X, (f s).conn = s.conn) : s.Stays I (Proc.modify f) :=
  preserves_modify fun s₁ h => ⟨⟨(hf s₁).db.trans h.1.db, (hf s₁).readOnly.trans h.1.readOnly,
    (hf s₁).rewind.trans h.1.rewind⟩, (hconn s₁).symm ▸ h.2⟩

theorem stays_countLookup (sent : Option Reply) (i : ℕ) : s.Stays I (countLookup env sent i) :=
  preserves_bind preserves_get fun _ => preserves_bind
    (preserves_ite (preserves_pure _) (preserves_ite (preserves_stop trivial) (preserves_pure _)))
    fun _ => stays_modify (fun _ => ⟨rfl, rfl, rfl⟩) fun _ => rfl

/-- A request that asks for a change is refused. -/
theorem stays_writable (hro : s.readOnly = true) (f : Unit → Handler X α) :
    s.Stays I (writable >>= f) := by
  rintro s₁ ⟨hsame, hI⟩
  rw [ensures_bind, ensures_writable]
  have hro₁ := hsame.readOnly.trans hro
  exact ⟨fun h => by simp [hro₁] at h, fun _ => ⟨trivial, hsame, hI⟩⟩

theorem stays_toStr (name : Bytes) : s.Stays I (toStr name : Handler X Name) :=
  preserves_bind (preserves_require trivial) fun _ => preserves_pure _

theorem stays_u32Add (a b : ℕ) : s.Stays I (u32Add env none a b) :=
  preserves_ite (preserves_pure _) (preserves_ite (preserves_stop trivial) (preserves_pure _))

theorem stays_slice (data : Bytes) (lo hi : ℕ) : s.Stays I (slice data lo hi : Handler X Bytes) :=
  preserves_bind (preserves_require trivial) fun _ => preserves_pure _

/-- A method that only reads a table of the rewound time. -/
theorem queryTemp_keeps (self : Sqlite) (f : TempTables → Except Stop α) (db : Db X) (hI : I db) :
    (self.queryTemp f).Ensures db (fun _ db' => I db') fun _ db' => I db' :=
  self.keeps_queryTemp f db hI

theorem stays_readInode (i : ℕ) : s.Stays I (readInode env i) :=
  preserves_bind preserves_get fun _ => preserves_bind (stays_callOr _ (fun db hI => by
    split_ifs
    · exact queryTemp_keeps _ _ db hI
    · exact keeps_getInodeLocal i db hI) _) fun _ => preserves_ofOption trivial

variable (h : s.ReadOnlyMount)

include h

theorem stays_lookup (parent : ℕ) (name : Bytes) : s.Stays I (lookup env parent name) := by
  rintro s₁ ⟨hsame, hI⟩
  refine (ensures_bind _ _).2 ?_
  -- the table that is read is chosen by the state at the start
  refine preserves_bind (P := fun _ => True) (I := s.Within I) (stays_toStr name) (fun n =>
    preserves_bind (stays_callOr _ (fun db hI => ?_) _) fun found => preserves_bind
      (preserves_ofOption trivial) fun v => preserves_bind (stays_countLookup _ _)
        fun _ => preserves_pure _) s₁ ⟨hsame, hI⟩
  split_ifs with hre
  · exact queryTemp_keeps _ _ db hI
  · have hrec : s.db.timeRecording = false :=
      h.not_recording (by rw [← hsame.rewind]; exact (Bool.not_eq_true _).mp hre)
    unfold Sqlite.lookup
    simp only [ensures_bind, ensures_get, ensures_when, hrec, Bool.false_eq_true, false_implies,
      not_false_eq_true, true_implies, true_and]
    exact keeps_query _ db hI

omit h in
theorem stays_opendir (ino : ℕ) : s.Stays I (opendir env ino) :=
  preserves_bind preserves_get fun _ => preserves_bind (stays_callOr _ (fun db hI => by
    split_ifs
    · exact queryTemp_keeps _ _ db hI
    · exact hI) _) fun _ => preserves_bind (stays_modify (fun _ => ⟨rfl, rfl, rfl⟩) fun _ => rfl)
      fun _ => preserves_pure _

omit h in
theorem stays_getxattr (ino : ℕ) (name : Bytes) (size : ℕ) :
    s.Stays I (getxattr env ino name size) :=
  preserves_bind preserves_get fun _ => preserves_bind (stays_toStr _) fun _ =>
    preserves_bind (stays_callOr _ (fun db hI => by
      split_ifs
      · exact queryTemp_keeps _ _ db hI
      · exact keeps_bind keeps_get (fun _ => keeps_bind keeps_ofOption fun _ => keeps_pure _) db hI)
      _) fun _ => preserves_pure _

omit h in
theorem stays_listxattr (ino size : ℕ) : s.Stays I (listxattr env ino size) :=
  preserves_bind preserves_get fun _ => preserves_bind (stays_callOr _ (fun db hI => by
    split_ifs
    · exact queryTemp_keeps _ _ db hI
    · exact hI) _) fun _ => preserves_pure _

/-- Reading a block on a rewound mount records the access, and does nothing else. -/
theorem stays_readBlock {i k length : ℕ} (hI : s.rewind = true → s.db.timeRecording = true →
    ∀ db now, I db → I (db.accessed i now)) : s.Stays I (readBlock env i k length) := by
  rintro s₁ ⟨hsame, hI₁⟩
  refine (ensures_bind _ _).2 ?_
  refine stays_callOr (.getData k) (fun db hdb => ?_) (fun _ => Errno.ENOENT) s₁ ⟨hsame, hI₁⟩
  rw [hsame.rewind]
  split_ifs with hre
  · refine keeps_atomically (keeps_bind (keeps_of_fst fun db h =>
      (s.db.keeps_queryTemp (I := I) _).fst h) fun row => keeps_bind ?_ fun _ =>
        keeps_pure row) db hdb
    by_cases hrec : s.db.timeRecording = true
    · exact keeps_when (keeps_modify fun db h => hI hre hrec db _ h)
    · unfold Proc.when
      rw [if_neg hrec]
      exact keeps_pure ()
  · unfold Sqlite.getData
    simp only [ensures_atomically, ensures_bind, ensures_get, ensures_when, h.db_readOnly,
      not_true_eq_false, false_and, false_implies, not_false_eq_true, true_implies, true_and,
      ensures_pure]
    exact hdb

/-- A round of `read` after its block, and the rounds that follow. -/
theorem stays_read_rest {ino : ℕ} (hI : s.rewind = true → s.db.timeRecording = true →
    ∀ db now, I db → I (db.accessed (asU32 ino) now)) (fuel n o : ℕ) (data block : Bytes) :
    s.Stays I (do
      let wanted ← u32Add env none n (o % blockSize)
      let b_end := if wanted / blockSize ≥ 1 then blockSize else wanted
      let block_data := if block.length < b_end then resize block b_end else block
      let part ← slice block_data (o % blockSize) b_end
      let offset ← u32Add env none o (b_end - o % blockSize)
      readLoop env ino fuel (n - (b_end - o % blockSize)) offset (data ++ part)) := by
  induction fuel generalizing n o data block with
  | zero =>
    exact preserves_bind (stays_u32Add _ _) fun _ => preserves_bind (stays_slice _ _ _) fun _ =>
      preserves_bind (stays_u32Add _ _) fun _ => preserves_pure _
  | succ fuel ih =>
    exact preserves_bind (stays_u32Add _ _) fun _ => preserves_bind (stays_slice _ _ _) fun _ =>
      preserves_bind (stays_u32Add _ _) fun _ => preserves_ite (preserves_pure _)
        (preserves_bind (stays_readBlock h hI) fun _ => ih _ _ _ _)

theorem stays_readLoop_of_recording {ino : ℕ} (hI : s.rewind = true → s.db.timeRecording = true →
    ∀ db now, I db → I (db.accessed (asU32 ino) now)) (fuel n o : ℕ) (data : Bytes) :
    s.Stays I (readLoop env ino fuel n o data) := by
  cases fuel with
  | zero => exact preserves_pure _
  | succ fuel =>
    exact preserves_ite (preserves_pure _) (preserves_bind (stays_readBlock h hI) fun _ =>
      stays_read_rest h hI _ _ _ _ _)

/-- The accesses are recorded once the first block has been read. -/
theorem readLoop_within {ino fuel n o : ℕ} {data : Bytes} (hI₀ : I s.conn)
    (hI : s.rewind = true → s.db.timeRecording = true → 0 < n →
      s.Readable env (o / blockSize + 1) → ∀ db now, I db → I (db.accessed (asU32 ino) now)) :
    (readLoop env ino fuel n o data).Ensures s (fun _ s' => s.Within I s')
      (fun _ s' => s.Within I s') := by
  by_cases hread : 0 < n ∧ s.Readable env (o / blockSize + 1)
  · exact (stays_readLoop_of_recording h (fun hre hrec => hI hre hrec hread.1 hread.2) fuel n o data
      s ⟨.refl s, hI₀⟩).mono (fun _ _ h => h) fun _ _ h => h.2
  · cases fuel with
    | zero => exact ⟨.refl s, hI₀⟩
    | succ fuel =>
      unfold readLoop
      split_ifs with hn
      · exact ⟨.refl s, hI₀⟩
      · rw [ensures_bind]
        have hread' : ¬ s.Readable env (o / blockSize + 1) :=
          fun h => hread ⟨Nat.pos_of_ne_zero hn, h⟩
        exact (readBlock_panics _ _ _).mono (fun _ _ h => absurd h.1 hread')
          fun _ s₁ h₁ => by
            rw [h₁.2.2]
            exact ⟨.refl s, hI₀⟩

/-- The target of a link is read where the link was one at the rewound time. -/
theorem readlink_within {ino : ℕ} (hI₀ : I s.conn)
    (hI : s.rewind = true → s.db.timeRecording = true → env.fails .getInode = false →
      s.Readable env 1 → (∃ t a, s.db.temp = some t ∧
        Sqlite.inodeAttrAtTime (asU32 ino) t = .ok (some a) ∧ a.kind = .Symlink) →
      ∀ db now, I db → I (db.accessed (asU32 ino) now)) :
    (readlink env ino).Ensures s (fun _ s' => s.Within I s') (fun _ s' => s.Within I s') := by
  have hrefl : s.Within I s := ⟨.refl s, hI₀⟩
  -- reading the target, once the attributes are known
  have hblock : ∀ a : DBFileAttr, (s.rewind = true → env.fails .getInode = false ∧ ∃ t,
      s.db.temp = some t ∧ Sqlite.inodeAttrAtTime (asU32 ino) t = .ok (some a)) →
      (do
        Proc.require (a.kind = .Symlink) (.reply (.error .EINVAL))
        let data ← readBlock env (asU32 ino) 1 a.size.toNat
        pure (.data (resize data a.size.toNat)) : Handler X Reply).Ensures s
          (fun _ s' => s.Within I s') (fun _ s' => s.Within I s') := by
    intro a ha
    rw [ensures_bind, ensures_require]
    refine ⟨fun hkind => ?_, fun _ => hrefl⟩
    rw [ensures_bind]
    by_cases hread : s.Readable env 1
    · refine (stays_readBlock (I := I) h (fun hre hrec => ?_) s hrefl).mono (fun _ _ h => h)
        fun _ _ h => h.2
      obtain ⟨hf, t, ht, hattr⟩ := ha hre
      exact hI hre hrec hf hread ⟨t, a, ht, hattr, hkind⟩
    · exact (readBlock_panics _ _ _).mono (fun _ _ h => absurd h.1 hread)
        fun _ s₁ h₁ => by
          rw [h₁.2.2]
          exact hrefl
  unfold readlink readInode
  simp only [ensures_bind, ensures_get, ensures_callOrNoEnt, ensures_foundOrNoEnt] at hblock ⊢
  refine ⟨fun _ => hrefl, fun hf => ?_⟩
  by_cases hre : s.rewind = true
  · rw [if_pos hre]
    refine ((queryTemp_spec _ _ _).and (s.db.queryTemp_returns _ s.conn)).mono
      (fun found db h => ?_) fun _ _ h => h.1 ▸ hrefl
    obtain ⟨rfl, t, ht, hattr⟩ := h
    exact ⟨fun a ha => hblock a fun _ => ⟨hf, t, ht, ha ▸ hattr⟩, fun _ => hrefl⟩
  · rw [if_neg hre]
    refine (getInode_spec _ _ _).mono (fun found db h => ?_) fun _ _ h => h ▸ hrefl
    obtain ⟨rfl, -⟩ := h
    exact ⟨fun a _ => hblock a fun h => absurd h hre, fun _ => hrefl⟩

omit h in
theorem init_within (hI₀ : I s.conn) (hI : s.rewind = false →
    env.fails .deleteAllNorefInode = false → I (s.conn.deleteAll s.conn.unnamed)) :
    (init env).Ensures s (fun _ s' => s.Within I s') (fun _ s' => s.Within I s') := by
  simp only [init, ensures_bind, ensures_get, ensures_when, ensures_callIgnoring]
  refine ⟨fun hre => ⟨fun _ => ⟨.refl s, hI₀⟩, fun hf => ?_⟩, fun _ => ⟨.refl s, hI₀⟩⟩
  refine (Sqlite.deleteAllNorefInode_spec _ _).mono (fun _ db h => ?_) fun _ _ h => h.elim
  exact ⟨⟨rfl, rfl, rfl⟩, h ▸ hI hre hf⟩

end Keeps

/-- The requests that read a block of the inode `i`; on a rewound mount, at the rewound time. -/
def ReadsBlock (env : Env) (s : SqliteFs X) : Request → ℕ → Prop
  | .read ino _ offset size, i => i = asU32 ino ∧ 0 < size ∧
      s.Readable env (i64AsU32 offset / blockSize + 1)
  | .readlink ino, i => i = asU32 ino ∧ env.fails .getInode = false ∧ s.Readable env 1 ∧
      ∃ t a, s.db.temp = some t ∧ Sqlite.inodeAttrAtTime i t = .ok (some a) ∧ a.kind = .Symlink
  | _, _ => False

/-- **What a request can do to a read-only mount.** -/
theorem ReadOnlyMount.keeps {I : Db X → Prop} (h : s.ReadOnlyMount) (env : Env) (r : Request)
    (hI₀ : I s.conn)
    (hsweep : r = .init → s.rewind = false → env.fails .deleteAllNorefInode = false →
      I (s.conn.deleteAll s.conn.unnamed))
    (hread : s.rewind = true → s.db.timeRecording = true → ∀ i, s.ReadsBlock env r i →
      ∀ db now, I db → I (db.accessed i now)) : s.Within I (handle env r s).1 := by
  have hrefl : s.Within I s := ⟨.refl s, hI₀⟩
  have hens : ∀ {x : Handler X Reply}, x.Ensures s (fun _ s' => s.Within I s')
      (fun _ s' => s.Within I s') → s.Within I (outcome x s).1 := fun hx =>
    outcome_of_ensures (P := fun s' _ => s.Within I s') hx
  have hstays : ∀ {x : Handler X Reply}, s.Stays I x → s.Within I (outcome x s).1 := fun hx =>
    hens ((hx s hrefl).mono (fun _ _ h => h) fun _ _ h => h.2)
  have hsilent : ∀ {x : Handler X Unit}, x.Ensures s (fun _ s' => s.Within I s')
      (fun _ s' => s.Within I s') → s.Within I (silently x s).1 := by
    intro x hx
    rw [silently_fst]
    unfold Ensures at hx
    split at hx <;> rename_i heq <;> rw [heq] <;> exact hx
  have hro := h.readOnly
  cases r with
  | init => exact hsilent (init_within hI₀ fun hre hf => hsweep rfl hre hf)
  | destroy =>
    refine hsilent ?_
    simp only [destroy, ensures_bind, ensures_get, ensures_when, hro, Bool.true_eq_false,
      false_implies, not_false_eq_true, true_implies, true_and]
    exact hrefl
  | forget ino nlookup =>
    refine hsilent ?_
    simp only [forget, ensures_bind, ensures_get, ensures_when, hro, Bool.true_eq_false,
      false_implies, not_false_eq_true, true_implies, true_and]
    exact hrefl
  | lookup parent name => exact hstays (stays_lookup h parent name)
  | getattr ino => exact hstays (preserves_bind (stays_readInode _) fun _ => preserves_pure _)
  | setattr => exact hstays (stays_writable hro _)
  | readlink ino =>
    exact hens (readlink_within h hI₀ fun hre hrec hf hread' hlink =>
      hread hre hrec _ ⟨rfl, hf, hread', hlink⟩)
  | mkdir => exact hstays (stays_writable hro _)
  | unlink => exact hstays (stays_writable hro _)
  | rmdir => exact hstays (stays_writable hro _)
  | symlink => exact hstays (stays_writable hro _)
  | rename => exact hstays (stays_writable hro _)
  | link => exact hstays (stays_writable hro _)
  | «open» ino flags =>
    exact hstays (preserves_bind preserves_get fun _ => preserves_bind (preserves_require trivial)
      fun _ => preserves_bind (stays_modify (fun _ => ⟨rfl, rfl, rfl⟩) fun _ => rfl)
        fun _ => preserves_pure _)
  | read ino fh offset size =>
    refine hens ((ensures_bind _ _).2 ((readLoop_within h hI₀ fun hre hrec hn hread' =>
      hread hre hrec _ ⟨rfl, hn, hread'⟩).mono (fun _ _ h => h) fun _ _ h => h))
  | write => exact hstays (stays_writable hro _)
  | release =>
    exact hstays (preserves_bind preserves_get fun _ => preserves_bind
      (stays_modify (fun _ => ⟨rfl, rfl, rfl⟩) fun _ => rfl) fun _ => preserves_pure _)
  | opendir ino => exact hstays (stays_opendir ino)
  | readdir =>
    exact hstays (preserves_bind preserves_get fun _ => preserves_bind (preserves_ofOption trivial)
      fun _ => preserves_pure _)
  | releasedir =>
    exact hstays (preserves_bind preserves_get fun _ => preserves_bind
      (stays_modify (fun _ => ⟨rfl, rfl, rfl⟩) fun _ => rfl) fun _ => preserves_pure _)
  | statfs =>
    exact hstays (preserves_bind (preserves_ofOption trivial) fun _ => preserves_pure _)
  | setxattr => exact hstays (stays_writable hro _)
  | getxattr ino name size => exact hstays (stays_getxattr ino name size)
  | listxattr ino size => exact hstays (stays_listxattr ino size)
  | removexattr => exact hstays (stays_writable hro _)
  | create => exact hstays (stays_writable hro _)
  | unimplemented => exact hrefl

/-! ### Which requests change the tables -/

/-- The request changes the tables of a read-only mount: it deletes an inode without an entry, or
records the access to an inode that still exists. -/
def Touches (env : Env) (s : SqliteFs X) (r : Request) : Prop :=
  (r = .init ∧ s.rewind = false ∧ env.fails .deleteAllNorefInode = false ∧
    ∃ i, (s.conn.metadata.find i).isSome ∧ s.conn.Unnamed i) ∨
  (s.rewind = true ∧ s.db.timeRecording = true ∧
    ∃ i, s.ReadsBlock env r i ∧ (s.conn.metadata.find i).isSome)

/-- A request that does not touch the tables leaves the database as it is. -/
theorem ReadOnlyMount.conn_after (h : s.ReadOnlyMount) (r : Env × Request)
    (hr : ¬ s.Touches r.1 r.2) : s.SameMount (s.after r) ∧ (s.after r).conn = s.conn := by
  refine h.keeps (I := (· = s.conn)) r.1 r.2 rfl (fun hinit hre hf => ?_)
    fun hre hrec i hi db now hdb => ?_
  · have hnil : s.conn.unnamed = [] := by
      rw [List.eq_nil_iff_forall_not_mem]
      intro i hi
      exact hr (Or.inl ⟨hinit, hre, hf, i, (s.conn.mem_unnamed i).1 hi⟩)
    rw [hnil]
    rfl
  · subst hdb
    refine Db.updateMetadata_of_find_none ?_ _
    rw [← Option.not_isSome_iff_eq_none]
    exact fun hsome => hr (Or.inr ⟨hre, hrec, i, hi, hsome⟩)

section Grows

variable (h : s.ReadOnlyMount)

include h

/-- Histories only grow. -/
theorem ReadOnlyMount.tick_le (r : Env × Request) :
    s.SameMount (s.after r) ∧ s.conn.tick ≤ (s.after r).conn.tick := by
  refine h.keeps (I := fun db => s.conn.tick ≤ db.tick) r.1 r.2 le_rfl (fun _ _ _ => ?_)
    fun _ _ i _ db now hdb => hdb.trans (Db.tick_le_accessed db i now)
  exact Db.tick_le_deleteAll _ _

omit h in
theorem readBlock_records {i k length : ℕ} (hre : s.rewind = true)
    (hrec : s.db.timeRecording = true) (hread : s.Readable env k) :
    (readBlock env i k length).Ensures s
      (fun _ s' => ∃ now, s' = s.withConn (s.conn.accessed i now)) (fun _ _ => False) := by
  obtain ⟨hf, htemp⟩ := hread
  unfold readBlock
  simp only [ensures_bind, ensures_get, ensures_callOrNoEnt, hf, hre, Bool.false_eq_true,
    false_implies, true_implies, true_and, ↓reduceIte, Sqlite.getDataAtTime, Sqlite.queryTemp,
    ensures_atomically, ensures_ofOption, ensures_pure, ensures_when, hrec, not_true_eq_false,
    and_true]
  exact ⟨fun t _ => ⟨_, rfl⟩, fun hnone => htemp hre hnone⟩

/-- A request that touches the tables writes an audit row. -/
theorem ReadOnlyMount.tick_lt (r : Env × Request) (hr : s.Touches r.1 r.2) :
    s.conn.tick < (s.after r).conn.tick := by
  obtain ⟨env, r⟩ := r
  dsimp only at hr
  rcases hr with ⟨rfl, hre, hf, i, hi, hu⟩ | ⟨hre, hrec, i, hi, hrow⟩
  · change s.conn.tick < (silently (init env) s).1.conn.tick
    rw [silently_fst]
    have hspec : (init env).Ensures s
        (fun _ s' => s'.conn = s.conn.deleteAll s.conn.unnamed) (fun _ _ => False) := by
      simp only [init, ensures_bind, ensures_get, ensures_when, ensures_callIgnoring, hre, hf,
        Bool.false_eq_true, false_implies, true_implies, true_and, not_true_eq_false, and_true]
      exact (Sqlite.deleteAllNorefInode_spec _ _).mono (fun _ _ h => h) fun _ _ h => h.elim
    obtain ⟨_, s', hs', hconn⟩ := hspec.exists_ok
    rw [hs', hconn]
    exact Db.tick_lt_deleteAll ((s.conn.mem_unnamed i).2 ⟨hi, hu⟩)
  · -- the first block that is read records the access, and what follows adds to the history
    have hlt : ∀ now, s.conn.tick < (s.conn.accessed i now).tick :=
      fun now => Db.tick_lt_accessed hrow now
    have hstays : ∀ {α : Type} {x : Handler X α} {now : Now},
        s.Stays (fun db => s.conn.tick < db.tick) x →
          x.Ensures (s.withConn (s.conn.accessed i now)) (fun _ s' => s.conn.tick < s'.conn.tick)
            (fun _ s' => s.conn.tick < s'.conn.tick) := fun {_ _ now} hx =>
      (hx (s.withConn (s.conn.accessed i now)) ⟨⟨rfl, rfl, rfl⟩, hlt now⟩).mono
        (fun _ _ h => h.2) fun _ _ h => h.2.2
    have hgrow : ∀ j : ℕ, s.rewind = true → s.db.timeRecording = true →
        ∀ (db : Db X) now, s.conn.tick < db.tick → s.conn.tick < (db.accessed j now).tick :=
      fun j _ _ db now hdb => hdb.trans_le (Db.tick_le_accessed db j now)
    cases r with
    | read ino fh offset size =>
      obtain ⟨rfl, hn, hread⟩ := hi
      refine outcome_of_ensures (P := fun s' _ => s.conn.tick < s'.conn.tick)
        ((ensures_bind _ _).2 ?_)
      obtain ⟨fuel, rfl⟩ := Nat.exists_eq_succ_of_ne_zero hn.ne'
      unfold readLoop
      rw [if_neg hn.ne', ensures_bind]
      refine (readBlock_records hre hrec hread).mono (fun block s₁ h₁ => ?_) fun _ _ h => h.elim
      obtain ⟨now, rfl⟩ := h₁
      refine (hstays ?_).mono (fun _ _ h => h) fun _ _ h => h
      exact stays_read_rest h (hgrow _) _ _ _ _ _
    | readlink ino =>
      obtain ⟨rfl, hf, hread, t, a, ht, ha, hkind⟩ := hi
      refine outcome_of_ensures (P := fun s' _ => s.conn.tick < s'.conn.tick) ?_
      simp only [readlink, readInode, ensures_bind, ensures_get, ensures_callOrNoEnt, hf, hre,
        Bool.false_eq_true, false_implies, true_implies, true_and, ↓reduceIte,
        Sqlite.getInodeAtTime, Sqlite.queryTemp, ensures_ofOption, ht, Option.some.injEq]
      refine ⟨?_, fun h => by simp at h⟩
      rintro t' rfl
      rw [ha]
      simp only [ensures_pure, ensures_foundOrNoEnt, ensures_require, Option.some.injEq]
      refine ⟨?_, fun h => by simp at h⟩
      rintro a' rfl
      refine ⟨fun _ => ?_, fun h => absurd hkind h⟩
      refine (readBlock_records hre hrec hread).mono (fun block s₁ h₁ => ?_) fun _ _ h => h.elim
      obtain ⟨now, rfl⟩ := h₁
      exact hlt now
    | _ => exact hi.elim

end Grows

/-! ### Runs -/

theorem ReadOnlyMount.run (h : s.ReadOnlyMount) (rs : List (Env × Request)) :
    (s.run rs).ReadOnlyMount :=
  run_induction rs (fun _ r _ h => (h.tick_le r).1.readOnlyMount h) s h

theorem ReadOnlyMount.tick_le_run (h : s.ReadOnlyMount) (rs : List (Env × Request)) :
    s.conn.tick ≤ (s.run rs).conn.tick := by
  induction rs generalizing s with
  | nil => exact le_rfl
  | cons r rs ih => exact (h.tick_le r).2.trans (ih ((h.tick_le r).1.readOnlyMount h))

/-- A mount of an initialised database. -/
theorem mount_of_rootInPlace (db : Sqlite) (now : Now) {conn : Db X} (h : conn.RootInPlace)
    (readOnly rewind : Bool) : mount db now conn readOnly rewind =
      some (opened db (applyDiffs db.extensions conn).1 readOnly rewind) := by
  unfold mount
  rw [db.init_eq_of_rootInPlace now h]

/-- **When a read-only or rewound mount leaves the tables as they are.** After any run of requests,
whatever calls fail, the four tables are those of the database that was mounted if and only if no
request of the run has touched them: the `init` of a read-only mount that sweeps an inode, or a read
of a rewound mount that records an access time. -/
theorem tables_kept_iff {conn : Db X} (hroot : conn.RootInPlace) {now : Now}
    (hs : newReadOnly now conn = some s ∨ ∃ time, newAtTime now conn time = some s)
    (rs : List (Env × Request)) : conn.SameTables (s.run rs).conn ↔
      ∀ rs₁ r rs₂, rs = rs₁ ++ r :: rs₂ → ¬ (s.run rs₁).Touches r.1 r.2 := by
  have hmount : s.ReadOnlyMount ∧ conn.SameTables s.conn := by
    have hdiffs : ∀ extensions, conn.SameTables (applyDiffs extensions conn).1 :=
      fun extensions => (keeps_applyDiffs (I := conn.SameTables)
        (fun _ _ h => ⟨h.metadata, h.dentry, h.data, h.xattr⟩) extensions).fst ⟨rfl, rfl, rfl, rfl⟩
    rcases hs with hs | ⟨time, hs⟩
    · rw [newReadOnly, mount_of_rootInPlace _ _ hroot] at hs
      obtain rfl := Option.some.inj hs
      exact ⟨⟨rfl, rfl, fun _ => rfl⟩, hdiffs _⟩
    · rw [newAtTime, mount_of_rootInPlace _ _ hroot] at hs
      obtain rfl := Option.some.inj hs
      exact ⟨⟨rfl, rfl, fun h => absurd h (by simp [opened])⟩, hdiffs _⟩
  obtain ⟨hro, hsame⟩ := hmount
  have htick : ∀ db : Db X, conn.SameTables db → db.tick = conn.tick := fun db h => by
    unfold Db.tick
    rw [h.metadata, h.dentry, h.data, h.xattr]
  constructor
  · rintro h rs₁ r rs₂ rfl htouch
    have h₁ := hro.tick_le_run rs₁
    have h₂ := (hro.run rs₁).tick_lt r htouch
    have h₃ := (((hro.run rs₁).tick_le r).1.readOnlyMount (hro.run rs₁)).tick_le_run rs₂
    have h₄ := htick _ h
    have h₅ := htick _ hsame
    rw [run_append, run_cons] at h₄
    omega
  · intro h
    have hconn : (s.run rs).conn = s.conn := by
      induction rs using List.reverseRecOn with
      | nil => rfl
      | append_singleton rs r ih =>
        have ih := ih fun rs₁ r' rs₂ heq => h rs₁ r' (rs₂ ++ [r]) (by simp [heq])
        rw [run_append]
        exact ((hro.run rs).conn_after r (h rs r [] rfl)).2.trans ih
    rw [hconn]
    exact hsame

/-- The root is asked for on a read-only mount. -/
theorem tables_kept_iff_sample :
    let s := opened .newReadOnly (applyDiffs false Sqlite.sampleDb).1 true false
    let rs : List (Env × Request) := [(.sample, .init), (.sample, .getattr 1)]
    Sqlite.sampleDb.SameTables (s.run rs).conn ↔
      ∀ rs₁ r rs₂, rs = rs₁ ++ r :: rs₂ → ¬ (s.run rs₁).Touches r.1 r.2 :=
  have hroot : Sqlite.sampleDb.RootInPlace := (Db.onlyRoot_initialised id .new epoch).rootInPlace
  tables_kept_iff hroot (Or.inl (mount_of_rootInPlace _ epoch hroot _ _)) _

/-- A database in which an inode has lost its only entry while it was in use. -/
def orphanDb : Db .sample :=
  (sample.run [(.sample, .create 1 [97] 0), (.sample, .unlink 1 [97])]).conn

/-- The `init` of a read-only mount deletes the inode. -/
theorem orphan_is_swept : ∃ s : SqliteFs .sample, newReadOnly epoch orphanDb = some s ∧
    orphanDb.RootInPlace ∧ ¬ orphanDb.SameTables (s.run [(.sample, .init)]).conn := by
  have hroot : orphanDb.RootInPlace := ⟨by decide, by decide, by decide⟩
  refine ⟨_, mount_of_rootInPlace _ _ hroot _ _, hroot, fun h => ?_⟩
  have hrow : (orphanDb.metadata.find 2).isSome := by decide
  have hgone : (((opened .newReadOnly (applyDiffs false orphanDb).1 true false).run
      [(.sample, .init)]).conn.metadata.find 2).isSome = false := by decide
  have hsame := congrArg (fun t => (AuditedTable.find t 2).isSome) h.metadata
  exact absurd (hgone.symm.trans (hsame.trans hrow)) (by decide)

end SqliteFs

end TemporalFs
