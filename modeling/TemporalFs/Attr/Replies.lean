import Mathlib
import TemporalFs.Attr.LookupBlocks
import TemporalFs.Attr.SetAttr
import TemporalFs.Tree.LinkCounts

/-!
# The attributes that requests reply

`mkdir`, `symlink`, `create`, `link` and `setattr` reply attributes that they have made or read
before their last step on the database. A new inode is replied without a link, a linked file with
one link too few, and `setattr` replies the time of the change before; `create` of a name that
exists replies what `lookup` has found. The kernel uses these attributes until it asks again.

## Main definitions

* `Outcome.attrs`: the attributes in a reply.
* `Db.cutBlocks`, `Db.newBlocks`: the blocks that a truncation removes and makes.
* `SqliteFs.RepliesStored`: when a request replies what `getattr` would reply after it.

## Main results

* `Db.countBlocks_truncated`: the number of blocks after a truncation.
* `SqliteFs.replies_stored_iff`: the condition is the right one.
-/

namespace TemporalFs

variable {X : Externals}

/-- The attributes in the reply to a successful request. -/
def Outcome.attrs : Outcome → Option FileAttr
  | .replied (.entry _ fa _) => some fa
  | .replied (.created _ fa _ _ _) => some fa
  | .replied (.attr _ fa) => some fa
  | _ => none

/-- The requests that reply the attributes of an inode that they have made or changed. -/
def Request.repliesAttrs : Request → Bool
  | .mkdir .. | .symlink .. | .create .. | .link .. | .setattr .. => true
  | _ => false

theorem Outcome.Failed.attrs_eq_none {out : Outcome} (h : out.Failed) : out.attrs = none := by
  cases out with
  | replied r => cases r <;> first | rfl | exact h.elim
  | silent => rfl
  | crashed sent => rfl

/-! ### The number of blocks after a truncation -/

namespace Db

variable {db db' : Db X}

/-- The numbers of the blocks of the inode `i`. -/
def blockNums (db : Db X) (i : ℕ) : Finset ℕ :=
  ((db.data.rows.filter fun r => r.fileId = i).map DataRow.blockNum).toFinset

theorem mem_blockNums {i k : ℕ} : k ∈ db.blockNums i ↔ (db.blocks i k).isSome := by
  simp only [blockNums, List.mem_toFinset, List.mem_map, List.mem_filter, decide_eq_true_eq,
    blocks, Option.isSome_map]
  constructor
  · rintro ⟨r, ⟨hr, rfl⟩, rfl⟩
    exact Option.isSome_iff_exists.2 ⟨r, db.data.find_key hr⟩
  · intro h
    obtain ⟨r, hr⟩ := Option.isSome_iff_exists.1 h
    have hkey := AuditedTable.key_of_find hr
    rw [dataSpec_key, Prod.mk.injEq] at hkey
    exact ⟨r, ⟨AuditedTable.mem_of_find hr, hkey.1⟩, hkey.2⟩

theorem card_blockNums (db : Db X) (i : ℕ) :
    (db.blockNums i).card = countBlocks db.data.rows i := by
  have hnodup := List.Nodup.of_map _ db.data.nodup_keys
  rw [blockNums, List.toFinset_card_of_nodup, List.length_map, countBlocks,
    List.countP_eq_length_filter]
  refine (hnodup.filter _).map_on fun r hr r' hr' heq => ?_
  simp only [List.mem_filter, decide_eq_true_eq] at hr hr'
  refine db.data.eq_of_key_eq hr.1 hr'.1 ?_
  rw [dataSpec_key, dataSpec_key, hr.2, hr'.2, heq]

/-- The blocks of `i` that a truncation to `n` bytes removes. -/
def cutBlocks (db : Db X) (i n : ℕ) : Finset ℕ :=
  (db.blockNums i).filter fun k =>
    ¬ (n % blockSize ≠ 0 ∧ k = n / blockSize + 1) ∧ (n = 0 ∨ n / blockSize < k)

/-- The block of `i` that a truncation to `n` bytes makes, if the last block is missing. -/
def newBlocks (db : Db X) (i n : ℕ) : Finset ℕ :=
  if n % blockSize ≠ 0 ∧ n / blockSize + 1 ∉ db.blockNums i then {n / blockSize + 1} else ∅

theorem blockNums_truncated {i n : ℕ}
    (h : ∀ k, db'.blocks i k = truncatedBlock n (db.blocks i) k) :
    db'.blockNums i = (db.blockNums i \ db.cutBlocks i n) ∪ db.newBlocks i n := by
  ext k
  simp only [Finset.mem_union, Finset.mem_sdiff, cutBlocks, Finset.mem_filter]
  have hnew : k ∈ db.newBlocks i n ↔
      (n % blockSize ≠ 0 ∧ k = n / blockSize + 1) ∧ k ∉ db.blockNums i := by
    unfold newBlocks
    split_ifs with hc
    · rw [Finset.mem_singleton]
      exact ⟨fun hk => ⟨⟨hc.1, hk⟩, hk ▸ hc.2⟩, fun hk => hk.1.2⟩
    · simp only [Finset.notMem_empty, false_iff]
      exact fun hk => hc ⟨hk.1.1, hk.1.2 ▸ hk.2⟩
  rw [hnew, mem_blockNums, h, mem_blockNums, truncatedBlock]
  by_cases hlast : n % blockSize ≠ 0 ∧ k = n / blockSize + 1
  · rw [if_pos hlast]
    simp only [Option.isSome_some, hlast, not_true_eq_false, false_and, and_false,
      not_false_eq_true, and_true, true_and, ne_eq, true_iff]
    exact em _
  · rw [if_neg hlast]
    split_ifs with hcut
    · simp [hlast, hcut, Option.isSome_iff_ne_none]
    · simp [hlast, hcut]

/-- **The number of blocks after a truncation.** -/
theorem countBlocks_truncated {i n : ℕ}
    (h : ∀ k, db'.blocks i k = truncatedBlock n (db.blocks i) k) :
    countBlocks db'.data.rows i + (db.cutBlocks i n).card =
      countBlocks db.data.rows i + (db.newBlocks i n).card := by
  have hdisj : Disjoint (db.blockNums i \ db.cutBlocks i n) (db.newBlocks i n) := by
    rw [Finset.disjoint_left]
    intro k hk hnew
    unfold newBlocks at hnew
    split_ifs at hnew with hc
    · rw [Finset.mem_singleton.1 hnew] at hk
      exact hc.2 (Finset.mem_sdiff.1 hk).1
    · exact absurd hnew (Finset.notMem_empty k)
  have hsub : db.cutBlocks i n ⊆ db.blockNums i := Finset.filter_subset _ _
  have hcard := Finset.card_sdiff_add_card_eq_card hsub
  rw [← card_blockNums, ← card_blockNums, blockNums_truncated h,
    Finset.card_union_of_disjoint hdisj]
  omega

end Db

/-! ### Replies -/

namespace SqliteFs

open Proc

variable {s s' : SqliteFs X} {env env' : Env}

/-- A `setattr` on an inode with the attributes `old` replies what `getattr` finds: all times can be
stored, those that become the time of the request are that time already, and as many blocks are made
as removed. -/
structure SetAttrReplies (now : Now) (db : Db X) (ino : ℕ) (req : SetAttr) (old : DBFileAttr) :
    Prop where
  atime : ∀ t, requestedTime old.atime req.atime = some t → (datetime t.sec).isSome
  crtime : ∀ t, requestedTime old.crtime req.crtime = some t → (datetime t.sec).isSome
  mtime : ∀ t, requestedTime old.mtime req.mtime = some t →
    if old.size = req.newSize old then (datetime t.sec).isSome
    else timespecFrom t = timespecFrom now.1
  ctime : timespecFrom old.ctime = timespecFrom now.1
  blocks : old.size > req.newSize old →
    (db.cutBlocks ino (req.newSize old).toNat).card =
      (db.newBlocks ino (req.newSize old).toNat).card

/-- The request replies the attributes that `getattr` would reply after it. -/
def RepliesStored (env : Env) (s : SqliteFs X) : Request → Prop
  | .create parent name _ => ∃ e, s.conn.dentry.find (asU32 parent, name) = some e ∧
    s.conn.OwnsAllBlocksOrNone e.childId ∧
    (s.db.timeRecording = true → e.childId = asU32 parent →
      ∀ a, s.conn.shown e.childId = some a →
        timespecFrom a.atime = timespecFrom (env.now .lookup).1)
  | .setattr ino req => ∀ old, s.conn.shown (asU32 ino) = some old →
    SetAttrReplies (env.now .updateInode) s.conn (asU32 ino) req old
  | _ => False

theorem asU32_asU32 (n : ℕ) : asU32 (asU32 n) = asU32 n := Nat.mod_mod n _

/-- What `getattr` would reply for the inode of the attributes `fa`. -/
def Stored (s : SqliteFs X) (fa : FileAttr) : Prop :=
  ∃ a, s.conn.shown (asU32 fa.ino) = some a ∧ a.getFileAttr = fa

theorem getattr_eq_iff_stored (hre : s.rewind = false) (hfails : env.fails .getInode = false)
    (fa : FileAttr) :
    (handle env (.getattr fa.ino) s).2 = .replied (.attr oneSec fa) ↔ s.Stored fa := by
  rw [getattr_reply hre hfails, Stored]
  cases s.conn.shown (asU32 fa.ino) with
  | none => simp
  | some a => simp

/-- An inode that is shown has a link. -/
theorem Stored.nlink_pos {fa : FileAttr} (h : s.Stored fa) : 0 < fa.nlink := by
  obtain ⟨a, ha, rfl⟩ := h
  obtain ⟨m, -, -, hn, -⟩ := Db.shown_eq_some_iff.1 ha
  unfold nlink at hn
  dsimp only at hn
  split_ifs at hn with hzero
  exact Nat.pos_of_ne_zero fun h => hzero ((Option.some.inj hn).trans h)

/-- A method that stops ends the request without attributes. -/
theorem attrs_exit (onErr : ErrorKind → Errno) (e : Stop) : (e.exit onErr).outcome.attrs = none :=
  (e.exit_fails onErr).failed.attrs_eq_none

theorem countLookup_attrs {Q : Unit → SqliteFs X → Prop} (sent : Option Reply) (i : ℕ)
    (hQ : ∀ s', Q () s') : (countLookup env sent i).Ensures s Q
      (fun e _ => e.outcome.attrs = none) :=
  (countLookup_spec sent i).mono (fun _ s' _ => hQ s') fun e _ h => by rw [h.1]; rfl

theorem mkdir_reply (parent : ℕ) (name : Bytes) (mode : ℕ) :
    (mkdir env parent name mode).Ensures s
      (fun reply _ => ∃ fa, reply = .entry oneSec fa 0 ∧ fa.nlink = 0)
      (fun e _ => e.outcome.attrs = none) := by
  unfold mkdir
  simp only [ensures_bind, ensures_writable, ensures_callOrNoEnt, ensures_foundOrNoEnt,
    ensures_toStr, ensures_pure]
  refine ⟨fun _ => ⟨fun _ => rfl, fun _ => ensures_of_forall (fun found db => ⟨fun a _ => ?_,
    fun _ => rfl⟩) fun e _ => attrs_exit _ e⟩, fun _ => rfl⟩
  refine ⟨fun _ => ⟨fun _ => rfl, fun _ => ensures_of_forall (fun child db => ?_)
    fun e _ => attrs_exit _ e⟩, fun _ => rfl⟩
  exact countLookup_attrs _ _ fun _ => ⟨_, rfl, rfl⟩

theorem symlink_reply (parent : ℕ) (name link : Bytes) :
    (symlink env parent name link).Ensures s
      (fun reply _ => ∃ fa, reply = .entry oneSec fa 0 ∧ fa.nlink = 0)
      (fun e _ => e.outcome.attrs = none) := by
  unfold symlink
  simp only [ensures_bind, ensures_writable, ensures_callOrNoEnt, ensures_require,
    ensures_toStr, ensures_pure]
  refine ⟨fun _ => ⟨fun _ => ⟨fun _ => rfl, fun _ => ensures_of_forall (fun child db => ?_)
    fun e _ => attrs_exit _ e⟩, fun _ => rfl⟩, fun _ => rfl⟩
  refine ⟨fun _ => ⟨fun _ => ⟨fun _ => rfl, fun _ => ensures_of_forall (fun _ db => ?_)
    fun e _ => attrs_exit _ e⟩, fun _ => rfl⟩, fun _ => rfl⟩
  exact countLookup_attrs _ _ fun _ => ⟨_, rfl, rfl⟩

theorem link_reply (ino parent : ℕ) (name : Bytes) :
    (link env ino parent name).Ensures s
      (fun reply s' => ∃ attr, s.conn.Linked (asU32 ino) (asU32 parent) name attr s'.conn ∧
        reply = .entry oneSec attr.getFileAttr 0)
      (fun e _ => e.outcome.attrs = none) := by
  unfold link
  simp only [ensures_bind, ensures_writable, ensures_callOr, ensures_toStr, ensures_pure]
  refine ⟨fun _ => ⟨fun _ => ⟨fun _ => rfl, fun _ => ?_⟩, fun _ => rfl⟩, fun _ => rfl⟩
  refine (Sqlite.linkDentry_spec _ _ _ _ _ _).mono (fun attr db h => ?_)
    fun e _ _ => attrs_exit _ e
  refine (countLookup_spec _ _).mono (fun _ s' hs' => ?_) fun e _ h => by rw [h.1]; rfl
  exact ⟨attr, by rw [hs']; exact h, rfl⟩

theorem create_reply (parent : ℕ) (name : Bytes) (mode : ℕ) :
    (create env parent name mode).Ensures s
      (fun reply s' =>
        (∃ a, Sqlite.lookupAttr (asU32 parent) name s.conn = .ok (some a) ∧
          reply = .created oneSec a.getFileAttr 0 0 0 ∧ s.conn.SameUpTo .atimeless s'.conn ∧
          s.conn.Stamped (env.now .lookup) (s.db.recorded ⟨{asU32 parent}, ∅, ∅⟩) s'.conn) ∨
        (s.conn.dentry.find (asU32 parent, name) = none ∧
          ∃ fa, reply = .created oneSec fa 0 0 0 ∧ fa.nlink = 0))
      (fun e _ => e.outcome.attrs = none) := by
  unfold create
  simp only [ensures_bind, ensures_writable, ensures_callOrNoEnt, ensures_toStr, ensures_pure]
  refine ⟨fun _ => ⟨fun _ => ⟨fun _ => rfl, fun _ => ?_⟩, fun _ => rfl⟩, fun _ => rfl⟩
  refine ((Sqlite.lookup_spec _ _ _ _ _).and (Sqlite.lookup_stamps _ _ _ _ _)).mono
    (fun found db h => ?_) fun e _ _ => attrs_exit _ e
  obtain ⟨⟨hfound, hsame⟩, hstamped⟩ := h
  cases found with
  | some a =>
    rw [createInode, ensures_pure]
    refine (countLookup_spec _ _).mono (fun _ s' hs' => Or.inl ⟨a, hfound, rfl, ?_, ?_⟩)
      fun e _ h => by rw [h.1]; rfl
    · rw [hs']
      exact hsame
    · rw [hs']
      exact hstamped
  | none =>
    have hfree := lookupAttr_eq_ok_none hfound
    unfold createInode
    simp only [ensures_bind, ensures_callOrNoEnt, ensures_foundOrNoEnt, ensures_pure]
    refine ⟨fun _ => rfl, fun _ => ensures_of_forall (fun found db => ⟨fun a _ => ?_,
      fun _ => rfl⟩) fun e _ => attrs_exit _ e⟩
    refine ⟨fun _ => rfl, fun _ => ensures_of_forall (fun child db => ?_)
      fun e _ => attrs_exit _ e⟩
    exact countLookup_attrs _ _ fun _ => Or.inr ⟨hfree, _, rfl, rfl⟩

/-! ### The attributes after a request -/

/-- The attributes that are shown after an access, of an inode that has been there. -/
theorem shown_accessed {db db' : Db X} {now : Now} {A : Finset ℕ} {i : ℕ} {a : DBFileAttr}
    (hsame : db.SameUpTo .atimeless db') (hstamp : db.Stamped now ⟨A, ∅, ∅⟩ db')
    (ha : db.shown i = some a) :
    db'.shown i = some { a with atime := if i ∈ A then now.1 else a.atime } := by
  obtain ⟨m, hm, hshows, hn, hb⟩ := Db.shown_eq_some_iff.1 ha
  have hm' := hsame.metadata.find i
  rw [hm, Option.map_some, Option.map_eq_some_iff] at hm'
  obtain ⟨m', hm', heq⟩ := hm'
  obtain ⟨m₀, hm₀, htimes⟩ := hstamp.row i m' (db.sequence_bound i (by rw [hm]; rfl)) hm'
  obtain rfl := Option.some.inj (hm.symm.trans hm₀)
  have hat : m'.atime = if i ∈ A then now.1.throughDatetime else m.atime :=
    congrArg Times.atime htimes
  have hfield : ∀ {α : Type} (g : MetadataRow → α), (∀ m, g m.atimeless = g m) → g m' = g m :=
    fun g hg => ((hg m').symm.trans (congrArg g heq)).trans (hg m)
  rw [Db.shown_eq_some_iff]
  refine ⟨m', hm', ?_, by rw [hsame.dentry]; exact hn, by rw [hsame.data]; exact hb⟩
  refine ⟨hshows.ino.trans (hfield MetadataRow.id fun _ => rfl).symm,
    hshows.size.trans (hfield MetadataRow.size fun _ => rfl).symm, ?_,
    (hfield MetadataRow.mtime fun _ => rfl) ▸ hshows.mtime,
    (hfield MetadataRow.ctime fun _ => rfl) ▸ hshows.ctime,
    (hfield MetadataRow.crtime fun _ => rfl) ▸ hshows.crtime,
    hshows.kind.trans (hfield MetadataRow.kind fun _ => rfl).symm,
    hshows.perm.trans (hfield MetadataRow.mode fun _ => rfl).symm,
    hshows.uid.trans (hfield MetadataRow.uid fun _ => rfl).symm,
    hshows.gid.trans (hfield MetadataRow.gid fun _ => rfl).symm,
    hshows.rdev.trans (hfield MetadataRow.rdev fun _ => rfl).symm,
    hshows.flags.trans (hfield MetadataRow.flags fun _ => rfl).symm⟩
  rw [hat]
  split_ifs
  · exact (stringToSystemtime_throughDatetime _ _).2 ⟨Now.datetime_isSome _, rfl⟩
  · exact hshows.atime

/-- What `lookup` finds has the attributes of its inode, but for the number of blocks. -/
theorem lookupAttr_shown {db : Db X} {p : ℕ} {n : Name} {a : DBFileAttr}
    (h : Sqlite.lookupAttr p n db = .ok (some a)) :
    db.shown a.ino = some { a with blocks := countBlocks db.data.rows a.ino } ∧
      a.blocks = Sqlite.lookupBlocks X.bareRow db.data.rows a.ino ∧
      ∃ e, db.dentry.find (p, n) = some e ∧ e.childId = a.ino := by
  obtain ⟨e, he, hchild, -⟩ := lookupAttr_eq_ok_some h
  obtain ⟨m, hm, -, hlookup, -⟩ := lookupAttr_of_find he
  have hmem := parseAttr_eq_ok_some (hlookup.symm.trans h)
  obtain ⟨hshows, hn, hb⟩ := MetadataRow.attr_eq_some_iff.1 (List.mem_singleton.1 hmem).symm
  rw [hchild] at hm hn hb
  refine ⟨Db.shown_eq_some_iff.2 ⟨m, hm, ?_, hn, rfl⟩, hb, e, he, hchild⟩
  exact ⟨hshows.ino, hshows.size, hshows.atime, hshows.mtime, hshows.ctime, hshows.crtime,
    hshows.kind, hshows.perm, hshows.uid, hshows.gid, hshows.rdev, hshows.flags⟩

/-- The number of entries of an inode that has got a name. -/
theorem countP_linked {db db' : Db X} {i p : ℕ} {n : Name} {attr : DBFileAttr}
    (h : db.Linked i p n attr db') : (db'.dentry.rows.countP fun e => e.childId = i) =
      (db.dentry.rows.countP fun e => e.childId = i) + 1 := by
  have hnew : (⟨p, i, .RegularFile, n⟩ : DentryRow) ∉ db.entries fun e => e.childId = i := by
    rw [Db.mem_entries, h.free]
    simp
  rw [Db.countP_rows, Db.countP_rows, ← Finset.card_insert_of_notMem hnew]
  refine congrArg Finset.card (Finset.ext fun e => ?_)
  rw [Finset.mem_insert, Db.mem_entries, Db.mem_entries, h.dentry]
  obtain ⟨ep, ec, ek, en⟩ := e
  split_ifs with hk
  · obtain ⟨rfl, rfl⟩ := Prod.mk.inj hk
    rw [h.free]
    simp only [Option.some.injEq, DentryRow.mk.injEq, true_and, and_true, reduceCtorEq, false_and,
      or_false]
    exact ⟨fun h => ⟨h.2, h.1.2.symm⟩, fun h => ⟨⟨h.1.symm, h.2.symm⟩, h.1⟩⟩
  · refine ⟨Or.inr, fun h => h.resolve_left fun heq => hk ?_⟩
    simp only [DentryRow.mk.injEq] at heq
    rw [heq.1, heq.2.2.2]

theorem getFileAttr_eq_iff {attr : DBFileAttr} {mtime ctime : SystemTime} {blocks : ℕ} :
    ({ attr with mtime := mtime, ctime := ctime, blocks := blocks } : DBFileAttr).getFileAttr =
      attr.getFileAttr ↔ timespecFrom mtime = timespecFrom attr.mtime ∧
        timespecFrom ctime = timespecFrom attr.ctime ∧ blocks = attr.blocks := by
  simp only [DBFileAttr.getFileAttr, FileAttr.mk.injEq, true_and, and_true]
  tauto

theorem AttrSet.stored_iff {ino : ℕ} {req : SetAttr} {old attr : DBFileAttr}
    (h : AttrSet env s ino req old attr s') : s'.Stored attr.getFileAttr ↔
      SetAttrReplies (env.now .updateInode) s.conn (asU32 ino) req old := by
  obtain ⟨m, hm, hshows, -, hb⟩ := Db.shown_eq_some_iff.1 h.shown
  obtain ⟨hat, hmt, hcrt, hattr⟩ := SetAttr.apply_eq_some h.apply
  have hino : attr.ino = asU32 ino := by
    rw [hattr]
    exact hshows.ino.trans (AuditedTable.key_of_find hm)
  have hsize : attr.size = req.newSize old := by rw [hattr]; rfl
  have hctime : attr.ctime = old.ctime := by rw [hattr]
  have hblocks : attr.blocks = countBlocks s.conn.data.rows (asU32 ino) := by rw [hattr]; exact hb
  have hcount : countBlocks s'.conn.data.rows (asU32 ino) = attr.blocks ↔
      (old.size > attr.size → (s.conn.cutBlocks (asU32 ino) attr.size.toNat).card =
        (s.conn.newBlocks (asU32 ino) attr.size.toNat).card) := by
    by_cases hcut : old.size > attr.size
    · have hblock (k : ℕ) : s'.conn.blocks (asU32 ino) k =
          truncatedBlock attr.size.toNat (s.conn.blocks (asU32 ino)) k := by
        rw [h.updated.blocks, if_pos ⟨hino.symm, decide_eq_true hcut⟩, hino]
      have htrunc := Db.countBlocks_truncated hblock
      rw [hblocks]
      simp only [hcut, true_implies]
      omega
    · rw [h.set.data (decide_eq_false hcut), hblocks]
      simp [hcut]
  have hstored : s'.Stored attr.getFileAttr ↔ (datetime attr.atime.sec).isSome ∧
      (datetime
        (if old.size ≠ attr.size then (env.now .updateInode).1 else attr.mtime).sec).isSome ∧
      (datetime attr.crtime.sec).isSome ∧
      timespecFrom (if old.size ≠ attr.size then (env.now .updateInode).1 else attr.mtime) =
        timespecFrom attr.mtime ∧
      timespecFrom (env.now .updateInode).1 = timespecFrom attr.ctime ∧
      countBlocks s'.conn.data.rows (asU32 ino) = attr.blocks := by
    rw [Stored, show asU32 attr.getFileAttr.ino = asU32 ino from
      (congrArg asU32 hino).trans (asU32_asU32 ino), ← getFileAttr_eq_iff]
    constructor
    · rintro ⟨a, ha, heq⟩
      obtain ⟨h₁, h₂, h₃, rfl⟩ := (h.shown_after a).1 ha
      exact ⟨h₁, h₂, h₃, heq⟩
    · rintro ⟨h₁, h₂, h₃, heq⟩
      exact ⟨_, (h.shown_after _).2 ⟨h₁, h₂, h₃, rfl⟩, heq⟩
  rw [hstored, hcount, hctime, hsize]
  constructor
  · rintro ⟨h₁, h₂, h₃, h₄, h₅, h₆⟩
    refine ⟨fun t ht => ?_, fun t ht => ?_, fun t ht => ?_, h₅.symm, h₆⟩
    · exact Option.some.inj (hat.symm.trans ht) ▸ h₁
    · exact Option.some.inj (hcrt.symm.trans ht) ▸ h₃
    · obtain rfl := Option.some.inj (hmt.symm.trans ht)
      split_ifs with hs
      · rwa [if_neg (not_not_intro hs)] at h₂
      · rw [if_pos hs] at h₄
        exact h₄.symm
  · intro hr
    have hmtime := hr.mtime _ hmt
    refine ⟨hr.atime _ hat, ?_, hr.crtime _ hcrt, ?_, hr.ctime.symm, hr.blocks⟩
    · by_cases hs : old.size = req.newSize old
      · rw [if_pos hs] at hmtime
        rwa [if_neg (not_not_intro hs)]
      · rw [if_pos hs]
        exact Now.datetime_isSome _
    · by_cases hs : old.size = req.newSize old
      · rw [if_neg (not_not_intro hs)]
      · rw [if_neg hs] at hmtime
        rw [if_pos hs]
        exact hmtime.symm

/-- The reply of a `create` that finds the name. -/
theorem stored_created_iff {parent : ℕ} {name : Bytes} {mode : ℕ} {a : DBFileAttr}
    (hs : s.WritableMount) (hfound : Sqlite.lookupAttr (asU32 parent) name s.conn = .ok (some a))
    (hsame : s.conn.SameUpTo .atimeless s'.conn)
    (hstamp : s.conn.Stamped (env.now .lookup) (s.db.recorded ⟨{asU32 parent}, ∅, ∅⟩) s'.conn) :
    s'.Stored a.getFileAttr ↔ RepliesStored env s (.create parent name mode) := by
  obtain ⟨hshown, hblocks, e, he, hchild⟩ := lookupAttr_shown hfound
  have hstamp' : s.conn.Stamped (env.now .lookup)
      ⟨if s.db.timeRecording = true then {asU32 parent} else ∅, ∅, ∅⟩ s'.conn := by
    refine hstamp.congr ?_
    unfold Sqlite.recorded
    split_ifs <;> rfl
  have hafter := shown_accessed hsame hstamp' hshown
  have hino : asU32 a.ino = a.ino := by
    obtain ⟨m, hm, -⟩ := Db.shown_eq_some_iff.1 hshown
    exact Nat.mod_eq_of_lt ((s.conn.sequence_bound _ (by rw [hm]; rfl)).trans_lt hs.sequence_lt)
  have hstored : s'.Stored a.getFileAttr ↔
      countBlocks s.conn.data.rows a.ino = a.blocks ∧
      timespecFrom (if a.ino ∈ (if s.db.timeRecording = true then {asU32 parent} else ∅ : Finset ℕ)
        then (env.now .lookup).1 else a.atime) = timespecFrom a.atime := by
    rw [Stored, show asU32 a.getFileAttr.ino = a.ino from hino, hafter]
    simp only [Option.some.injEq, exists_eq_left', DBFileAttr.getFileAttr, FileAttr.mk.injEq,
      true_and, and_true]
  rw [hstored, hblocks, eq_comm (a := countBlocks _ _), lookupBlocks_eq_countBlocks_iff]
  unfold RepliesStored
  simp only [he, Option.some.injEq, exists_eq_left', hchild, hshown, forall_eq']
  refine and_congr_right fun _ => ?_
  by_cases ht : s.db.timeRecording = true <;> by_cases hp : a.ino = asU32 parent <;>
    simp [ht, hp, eq_comm]

/-- An inode that has got a name is shown with a link more than it was replied with. -/
theorem not_stored_linked {ino parent : ℕ} {name : Bytes} {attr : DBFileAttr}
    (h : s.conn.Linked (asU32 ino) (asU32 parent) name attr s'.conn) :
    ¬ s'.Stored attr.getFileAttr := by
  rintro ⟨a, ha, heq⟩
  obtain ⟨m, hm, hshows, hn, -⟩ := Db.shown_eq_some_iff.1 (inodeAttr_eq_ok_some_iff.1 h.found)
  obtain ⟨m', -, -, hn', -⟩ := Db.shown_eq_some_iff.1 ha
  have hino : attr.getFileAttr.ino = asU32 ino := hshows.ino.trans (AuditedTable.key_of_find hm)
  have hmore := countP_linked h
  rw [hino, asU32_asU32] at hn'
  rw [← nlink_eq_some hn, ← nlink_eq_some hn'] at hmore
  have hsame : a.nlink = attr.nlink := congrArg FileAttr.nlink heq
  omega

/-- The attributes that a request replies, and whether they are the stored ones. -/
theorem stored_iff (h : s.WritableMount) (r : Request) (hr : r.repliesAttrs = true)
    {fa : FileAttr} (hok : (handle env r s).2.attrs = some fa) :
    (s.after (env, r)).Stored fa ↔ RepliesStored env s r := by
  have hnew : ∀ {s' : SqliteFs X} {fa fa' : FileAttr}, fa'.nlink = 0 → some fa' = some fa →
      ¬ s'.Stored fa := by
    rintro s' fa fa' hn heq hstored
    obtain rfl := Option.some.inj heq
    exact absurd hn hstored.nlink_pos.ne'
  have hfailed : ∀ {e : Exit} {P : Prop}, e.outcome.attrs = none → e.outcome.attrs = some fa → P :=
    fun hnone hsome => absurd (hnone.symm.trans hsome) (by simp)
  let P := fun (s' : SqliteFs X) (out : Outcome) =>
    out.attrs = some fa → (s'.Stored fa ↔ RepliesStored env s r)
  suffices hP : P (s.after (env, r)) (handle env r s).2 from hP hok
  cases r with
  | mkdir parent name mode =>
    refine outcome_of_ensures ((mkdir_reply parent name mode).mono ?_ fun e s' he => hfailed he)
    rintro _ s' ⟨fa', rfl, hn⟩ heq
    exact iff_of_false (hnew hn heq) id
  | symlink parent name link =>
    refine outcome_of_ensures ((symlink_reply parent name link).mono ?_ fun e s' he => hfailed he)
    rintro _ s' ⟨fa', rfl, hn⟩ heq
    exact iff_of_false (hnew hn heq) id
  | link ino parent name =>
    refine outcome_of_ensures ((link_reply ino parent name).mono ?_ fun e s' he => hfailed he)
    rintro _ s' ⟨attr, hlinked, rfl⟩ heq
    obtain rfl := Option.some.inj heq
    exact iff_of_false (not_stored_linked hlinked) id
  | create parent name mode =>
    refine outcome_of_ensures ((create_reply parent name mode).mono ?_ fun e s' he => hfailed he)
    rintro _ s' (⟨a, hfound, rfl, hsame, hstamp⟩ | ⟨hfree, fa', rfl, hn⟩) heq
    · obtain rfl := Option.some.inj heq
      exact stored_created_iff h hfound hsame hstamp
    · refine iff_of_false (hnew hn heq) ?_
      rintro ⟨e, he, -⟩
      exact absurd (hfree.symm.trans he) (by simp)
  | setattr ino req =>
    refine outcome_of_ensures ((setattr_spec ino req).mono ?_ fun e s' he =>
      hfailed he.2.failed.attrs_eq_none)
    rintro _ s' ⟨old, attr, hset, rfl⟩ heq
    obtain rfl := Option.some.inj heq
    rw [hset.stored_iff, RepliesStored, hset.shown]
    simp only [Option.some.injEq, forall_eq']
  | _ => exact absurd hr (by simp [Request.repliesAttrs])

/-- **The attributes in a reply are the stored ones** if and only if the request is a `create` of a
name that exists, with all blocks in the table or none, or a `setattr` that changes neither the
times nor the number of blocks that it replies. -/
theorem replies_stored_iff (h : s.WritableMount) (env env' : Env) (r : Request)
    (hr : r.repliesAttrs = true) (fa : FileAttr) (hok : (handle env r s).2.attrs = some fa)
    (hfails : env'.fails .getInode = false) :
    (handle env' (.getattr fa.ino) (s.after (env, r))).2 = .replied (.attr oneSec fa) ↔
      RepliesStored env s r := by
  rw [getattr_eq_iff_stored (h.after (env, r)).rewind hfails, stored_iff h r hr hok]

/-- The time of access of the root is set to the one it has. -/
theorem replies_stored_iff_sample :
    ∃ fa, (handle .sample (.setattr 1 (touch ⟨0, 0⟩)) sample).2.attrs = some fa ∧
      ((handle .sample (.getattr fa.ino) (sample.after (.sample, .setattr 1 (touch ⟨0, 0⟩)))).2 =
        .replied (.attr oneSec fa) ↔ RepliesStored .sample sample (.setattr 1 (touch ⟨0, 0⟩))) := by
  obtain ⟨fa, hfa⟩ := Option.isSome_iff_exists.1
    (show (handle .sample (.setattr 1 (touch ⟨0, 0⟩)) sample).2.attrs.isSome by decide)
  exact ⟨fa, hfa, replies_stored_iff ⟨rfl, rfl, by decide⟩ .sample .sample _ rfl fa hfa rfl⟩

/-- A new directory is replied without a link. -/
theorem mkdir_replies_no_link : ∃ fa fa',
    (handle .sample (.mkdir 1 [97] 0) sample).2.attrs = some fa ∧
      (handle .sample (.getattr fa.ino) (sample.after (.sample, .mkdir 1 [97] 0))).2 =
        .replied (.attr oneSec fa') ∧ fa.nlink = 0 ∧ fa'.nlink = 2 :=
  ⟨_, _, rfl, rfl, rfl, rfl⟩

end SqliteFs

end TemporalFs
