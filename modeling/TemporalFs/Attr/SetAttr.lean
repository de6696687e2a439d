import Mathlib
import TemporalFs.Db.Stamps
import TemporalFs.Fs.Times

/-!
# Setting attributes

`getattr` replies the attributes of the row of an inode, and `setattr` replaces them. What a
`setattr` request names comes back from the next `getattr` as it was given, where it is a time
between the epoch and the end of the year 9999: earlier times come back as the epoch, and a time
that `datetime()` does not keep makes the row unreadable.

## Main definitions

* `Db.shown`: the attributes that `getattr` finds.
* `SqliteFs.SetAttr.apply`: what `setattr` makes of the present attributes.
* `SqliteFs.SetAttr.Survives`: the next `getattr` shows the times that the request names.

## Main results

* `SqliteFs.getattr_reply`, `SqliteFs.setattr_spec`: what the two requests do.
* `SqliteFs.times_survive_iff`: when the times come back.
-/

namespace TemporalFs

variable {X : Externals}

/-! ### The attributes that are shown -/

/-- The attributes of the inode `i`, where every column of its row can be read. -/
def Db.shown (db : Db X) (i : ℕ) : Option DBFileAttr :=
  (db.metadata.find i).bind fun m =>
    m.attr (nlink db.dentry.rows i) (countBlocks db.data.rows i)

/-- The columns of a row from which attributes are read. -/
structure MetadataRow.Shows (m : MetadataRow) (a : DBFileAttr) : Prop where
  ino : a.ino = m.id
  size : a.size = m.size
  atime : stringToSystemtime m.atime = some a.atime
  mtime : stringToSystemtime m.mtime = some a.mtime
  ctime : stringToSystemtime m.ctime = some a.ctime
  crtime : stringToSystemtime m.crtime = some a.crtime
  kind : a.kind = m.kind
  perm : a.perm = m.mode
  uid : a.uid = m.uid
  gid : a.gid = m.gid
  rdev : a.rdev = m.rdev
  flags : a.flags = m.flags

theorem MetadataRow.Shows.readable {m : MetadataRow} {a : DBFileAttr} (h : m.Shows a) :
    m.Readable := by
  have hread {c : TimeColumn} {t : SystemTime} (h : stringToSystemtime c = some t) :
      c.text.isSome := by
    obtain ⟨sec, hsec, -⟩ := Option.map_eq_some_iff.1 h
    exact hsec ▸ rfl
  exact ⟨hread h.atime, hread h.mtime, hread h.ctime, hread h.crtime⟩

theorem MetadataRow.attr_eq_some_iff {m : MetadataRow} {n : Option ℕ} {blocks : ℕ}
    {a : DBFileAttr} : m.attr n blocks = some a ↔
      m.Shows a ∧ n = some a.nlink ∧ a.blocks = blocks := by
  unfold MetadataRow.attr
  constructor
  · intro h
    simp only [Option.bind_eq_bind, Option.bind_eq_some_iff] at h
    obtain ⟨at', hat, mt, hmt, ct, hct, crt, hcrt, n', hn, h⟩ := h
    obtain rfl := Option.some.inj h
    exact ⟨⟨rfl, rfl, hat, hmt, hct, hcrt, rfl, rfl, rfl, rfl, rfl, rfl⟩, hn, rfl⟩
  · rintro ⟨h, rfl, rfl⟩
    simp only [h.atime, h.mtime, h.ctime, h.crtime, Option.bind_eq_bind, Option.bind_some]
    refine congrArg some ?_
    cases a
    simp only [DBFileAttr.mk.injEq]
    exact ⟨h.ino.symm, h.size.symm, trivial, trivial, trivial, trivial, trivial, h.kind.symm,
      h.perm.symm, trivial, h.uid.symm, h.gid.symm, h.rdev.symm, h.flags.symm⟩

theorem Db.shown_eq_some_iff {db : Db X} {i : ℕ} {a : DBFileAttr} :
    db.shown i = some a ↔ ∃ m, db.metadata.find i = some m ∧ m.Shows a ∧
      nlink db.dentry.rows i = some a.nlink ∧ a.blocks = countBlocks db.data.rows i := by
  unfold shown
  simp only [Option.bind_eq_some_iff, MetadataRow.attr_eq_some_iff]

/-- An inode that has a name is shown, where its times can be read. -/
theorem Db.shown_of_readable {db : Db X} {m : MetadataRow} {e : DentryRow}
    (hm : db.metadata.find e.childId = some m) (hr : m.Readable) (he : e ∈ db.dentry.rows) :
    ∃ a, db.shown e.childId = some a := by
  obtain ⟨n, hn⟩ := nlink_of_mem he
  obtain ⟨a, ha, -⟩ := MetadataRow.attr_of_readable hr n (countBlocks db.data.rows e.childId)
  refine ⟨a, ?_⟩
  rw [Db.shown, hm, Option.bind_some, hn, ha]

theorem inodeAttr_eq_ok_some_iff {db : Db X} {i : ℕ} {a : DBFileAttr} :
    inodeAttr i db = .ok (some a) ↔ db.shown i = some a := by
  unfold inodeAttr Db.shown
  cases db.metadata.find i with
  | none => simp [parseAttr]
  | some m =>
    simp only [Option.toList_some, List.map_cons, List.map_nil, Option.bind_some]
    cases m.attr (nlink db.dentry.rows i) (countBlocks db.data.rows i) with
    | none => simp [parseAttr]
    | some a' => simp [parseAttr]

namespace SqliteFs

open Proc

variable {s : SqliteFs X} {env : Env}

theorem inodeAttr_eq_ok_none {i : ℕ} {db : Db X} (h : inodeAttr i db = .ok none) :
    db.shown i = none := by
  rw [Option.eq_none_iff_forall_ne_some]
  intro a ha
  rw [inodeAttr_eq_ok_some_iff.2 ha] at h
  exact absurd h (by simp)

/-- What `getInode` finds are the attributes that are shown. -/
theorem getInode_shown (self : Sqlite) (i : ℕ) (db : Db X) :
    (self.getInode i).Ensures db (fun found db' => db' = db ∧ found = db.shown i)
      (fun e db' => db' = db ∧ db.shown i = none ∧ ∃ kind, e = .err kind) := by
  refine (getInodeLocal_spec db i).mono (fun found db' h => ⟨h.1, ?_⟩) fun e db' h => ⟨h.1, ?_, ?_⟩
  · cases found with
    | none => exact (inodeAttr_eq_ok_none h.2).symm
    | some a => exact (inodeAttr_eq_ok_some_iff.1 h.2).symm
  · rw [Option.eq_none_iff_forall_ne_some]
    intro a ha
    rw [inodeAttr_eq_ok_some_iff.2 ha] at h
    exact absurd h.2 (by simp)
  · cases e with
    | err kind => exact ⟨kind, rfl⟩
    | panic => exact absurd h.2 (by unfold inodeAttr parseAttr; split_ifs <;> simp)

/-- **What `getattr` replies.** -/
theorem getattr_reply (hre : s.rewind = false) (hfails : env.fails .getInode = false) (ino : ℕ) :
    handle env (.getattr ino) s = (s, .replied (match s.conn.shown (asU32 ino) with
      | some a => .attr oneSec a.getFileAttr
      | none => .error .ENOENT)) := by
  have hread : (getattr env ino).Ensures s
      (fun reply s' => s' = s ∧ ∃ a, s.conn.shown (asU32 ino) = some a ∧
        reply = .attr oneSec a.getFileAttr)
      (fun e s' => s' = s ∧ s.conn.shown (asU32 ino) = none ∧
        e = .reply (.error .ENOENT)) := by
    unfold getattr readInode
    simp only [ensures_bind, ensures_get, ensures_callOrNoEnt, hre, hfails, Bool.false_eq_true,
      ↓reduceIte, false_implies, true_and, true_implies, ensures_foundOrNoEnt, ensures_pure]
    refine (getInode_shown s.db (asU32 ino) s.conn).mono (fun found db h => ?_)
      fun e db h => ?_
    · obtain ⟨rfl, rfl⟩ := h
      exact ⟨fun a ha => ⟨rfl, a, ha, rfl⟩, fun hnone => ⟨rfl, hnone, trivial⟩⟩
    · obtain ⟨rfl, hnone, kind, rfl⟩ := h
      exact ⟨rfl, hnone, rfl⟩
  refine outcome_of_ensures (P := fun s' out => (s', out) = (s, Outcome.replied _))
    (hread.mono (fun reply s' h => ?_) fun e s' h => ?_)
  · obtain ⟨rfl, a, ha, rfl⟩ := h
    rw [ha]
  · obtain ⟨rfl, hnone, rfl⟩ := h
    rw [hnone]
    rfl

/-! ### What `setattr` does -/

/-- A time comes back through `datetime()` where that keeps it. -/
theorem stringToSystemtime_throughDatetime (t t' : SystemTime) :
    stringToSystemtime t.throughDatetime = some t' ↔ (datetime t.sec).isSome ∧ t' = t := by
  unfold stringToSystemtime SystemTime.throughDatetime
  rw [Option.map_eq_some_iff]
  constructor
  · rintro ⟨sec, hsec, rfl⟩
    obtain ⟨rfl, -⟩ := datetime_eq_some hsec
    exact ⟨Option.isSome_iff_exists.2 ⟨_, hsec⟩, rfl⟩
  · rintro ⟨hsome, rfl⟩
    obtain ⟨sec, hsec⟩ := Option.isSome_iff_exists.1 hsome
    obtain ⟨rfl, -⟩ := datetime_eq_some hsec
    exact ⟨_, hsec, rfl⟩

/-- A time that a request names, or the present one. -/
def requestedTime (present : SystemTime) : Option Timespec → Option SystemTime
  | none => some present
  | some ts => datetimeFrom ts

/-- The size that a `setattr` asks for. -/
def SetAttr.newSize (req : SetAttr) (old : DBFileAttr) : UInt32 :=
  (req.size.map UInt32.ofNat).getD old.size

/-- What `setattr` makes of the attributes `old`; `none` where it panics. -/
def SetAttr.apply (req : SetAttr) (old : DBFileAttr) : Option DBFileAttr := do
  let atime ← requestedTime old.atime req.atime
  let mtime ← requestedTime old.mtime req.mtime
  let crtime ← requestedTime old.crtime req.crtime
  pure { old with
    perm := (req.mode.map UInt16.ofNat).getD old.perm
    uid := req.uid.getD old.uid
    gid := req.gid.getD old.gid
    size := (req.size.map UInt32.ofNat).getD old.size
    atime := atime, mtime := mtime, crtime := crtime
    flags := req.flags.getD old.flags }

theorem setTime_eq (present : SystemTime) (o : Option Timespec) :
    (setTime present o : Handler X SystemTime) =
      Proc.ofOption (requestedTime present o) (.panic none) := by
  cases o <;> rfl

/-- A `setattr` that has turned the attributes `old` of an inode into `attr`. -/
structure AttrSet (env : Env) (s : SqliteFs X) (ino : ℕ) (req : SetAttr) (old attr : DBFileAttr)
    (s' : SqliteFs X) : Prop where
  calls : env.fails .getInode = false ∧ env.fails .updateInode = false
  shown : s.conn.shown (asU32 ino) = some old
  apply : req.apply old = some attr
  rest : s' = s.withConn s'.conn
  updated : s.conn.Updated attr (old.size > attr.size) s'.conn
  set : Sqlite.InodeSet (env.now .updateInode) old attr (old.size > attr.size) s.conn s'.conn

theorem setattr_spec (ino : ℕ) (req : SetAttr) :
    (setattr env ino req).Ensures s
      (fun reply s' => ∃ old attr, AttrSet env s ino req old attr s' ∧
        reply = .attr oneSec attr.getFileAttr)
      (fun e s' => s' = s ∧ e.Fails) := by
  unfold setattr
  simp only [setTime_eq, ensures_bind, ensures_writable, ensures_callOrNoEnt, ensures_ofOption,
    ensures_foundOrNoEnt, ensures_pure]
  refine ⟨fun _ => ⟨fun _ => ⟨trivial, trivial⟩, fun hget => ?_⟩, fun _ => ⟨trivial, trivial⟩⟩
  unfold Sqlite.getInode
  refine (getInodeLocal_spec s.conn (asU32 ino)).mono (fun found db h => ?_) fun e db h => ?_
  swap
  · exact ⟨by rw [h.1]; rfl, e.exit_fails _⟩
  obtain ⟨rfl, hfound⟩ := h
  rw [withConn_self]
  refine ⟨fun old hold => ?_, fun _ => ⟨rfl, trivial⟩⟩
  subst hold
  refine ⟨fun atime hatime => ⟨fun mtime hmtime => ⟨fun crtime hcrtime =>
    ⟨fun _ => ⟨rfl, trivial⟩, fun hset => ?_⟩, fun _ => ⟨rfl, trivial⟩⟩,
      fun _ => ⟨rfl, trivial⟩⟩, fun _ => ⟨rfl, trivial⟩⟩
  refine ((Sqlite.updateInode_spec _ _ _ _ _).and (Sqlite.updateInode_row _ _ _ _ _)).mono
    (fun _ db h => ?_) fun e db h => ⟨by rw [h.2]; rfl, e.exit_fails _⟩
  obtain ⟨hupdated, old', hrow⟩ := h
  have hino := ino_of_inodeAttr hfound
  have hold : old' = old := by
    have := hrow.found.symm.trans (show inodeAttr old.ino s.conn = _ by rw [hino, hfound])
    simpa using this
  subst hold
  refine ⟨_, _, ⟨⟨hget, hset⟩, inodeAttr_eq_ok_some_iff.1 hfound, ?_, rfl, hupdated, hrow⟩, rfl⟩
  simp only [SetAttr.apply, hatime, hmtime, hcrtime, Option.bind_eq_bind, Option.bind_some,
    Option.pure_def]

/-- A `setattr` of attributes that cannot be read. -/
theorem setattr_refuses {ino : ℕ} (hro : s.readOnly = false)
    (hget : env.fails .getInode = false) (hnone : s.conn.shown (asU32 ino) = none)
    (req : SetAttr) : (setattr env ino req).Ensures s (fun _ _ => False)
      (fun e s' => e = .reply (.error .ENOENT) ∧ s' = s) := by
  unfold setattr
  simp only [ensures_bind, ensures_writable, hro, ensures_callOrNoEnt, hget, ensures_foundOrNoEnt,
    Bool.false_eq_true, not_true_eq_false, false_implies, true_implies, true_and, and_true]
  refine (getInode_shown _ _ _).mono (fun found db h => ?_) fun e db h => ?_
  · obtain ⟨rfl, rfl⟩ := h
    rw [hnone]
    exact ⟨fun _ h => absurd h (by simp), fun _ => rfl⟩
  · obtain ⟨rfl, -, kind, rfl⟩ := h
    exact ⟨rfl, rfl⟩

/-- A `setattr` with times that can be converted succeeds. -/
theorem setattr_returns {ino : ℕ} {req : SetAttr} {old attr : DBFileAttr}
    (hro : s.readOnly = false) (hget : env.fails .getInode = false)
    (hset : env.fails .updateInode = false) (hold : s.conn.shown (asU32 ino) = some old)
    (hattr : req.apply old = some attr) (hdates : inChronoRange attr.atime.sec ∧
      inChronoRange attr.mtime.sec ∧ inChronoRange attr.crtime.sec) :
    (setattr env ino req).Ensures s (fun _ _ => True) (fun _ _ => False) := by
  unfold setattr
  simp only [setTime_eq, ensures_bind, ensures_writable, hro, ensures_callOrNoEnt, hget, hset,
    ensures_ofOption, ensures_foundOrNoEnt, ensures_pure, Bool.false_eq_true, not_true_eq_false,
    false_implies, true_implies, true_and, and_true]
  have hino : old.ino = asU32 ino := ino_of_inodeAttr (inodeAttr_eq_ok_some_iff.2 hold)
  simp only [SetAttr.apply, Option.bind_eq_bind, Option.bind_eq_some_iff, Option.pure_def] at hattr
  obtain ⟨at', hat, mt, hmt, crt, hcrt, hattr⟩ := hattr
  obtain rfl := Option.some.inj hattr
  refine (getInode_shown _ _ _).mono (fun found db h => ?_) fun e db h => ?_
  · obtain ⟨rfl, rfl⟩ := h
    rw [hold]
    refine ⟨fun old' hold' => ?_, fun h => absurd h (by simp)⟩
    obtain rfl := Option.some.inj hold'
    simp only [hat, hmt, hcrt, Option.some.injEq, forall_eq', reduceCtorEq, false_implies,
      and_true]
    refine (Sqlite.updateInode_spec _ _ _ _ _).mono (fun _ _ _ => trivial) fun e db h => ?_
    rcases h.2 with hread | hbad | hbad | hbad
    · exact hread old (inodeAttr_eq_ok_some_iff.2 (hino.symm ▸ hold))
    · exact hbad hdates.1
    · exact hbad hdates.2.1
    · exact hbad hdates.2.2
  · rw [h.2.1] at hold
    exact absurd hold (by simp)

/-- The whole request. -/
theorem setattr_succeeds {ino : ℕ} {req : SetAttr} {old attr : DBFileAttr}
    (hro : s.readOnly = false) (hget : env.fails .getInode = false)
    (hset : env.fails .updateInode = false) (hold : s.conn.shown (asU32 ino) = some old)
    (hattr : req.apply old = some attr) (hdates : inChronoRange attr.atime.sec ∧
      inChronoRange attr.mtime.sec ∧ inChronoRange attr.crtime.sec) :
    (handle env (.setattr ino req) s).2 = .replied (.attr oneSec attr.getFileAttr) ∧
      AttrSet env s ino req old attr (s.after (env, .setattr ino req)) := by
  refine outcome_of_ensures (P := fun s' out =>
    out = .replied (.attr oneSec attr.getFileAttr) ∧ AttrSet env s ino req old attr s')
    (((setattr_spec ino req).and (setattr_returns hro hget hset hold hattr hdates)).mono
      (fun reply s' h => ?_) fun _ _ h => h.2.elim)
  obtain ⟨⟨old', attr', h, rfl⟩, -⟩ := h
  obtain rfl := Option.some.inj (h.shown.symm.trans hold)
  obtain rfl := Option.some.inj (h.apply.symm.trans hattr)
  exact ⟨rfl, h⟩

theorem SetAttr.apply_eq_some {req : SetAttr} {old attr : DBFileAttr}
    (h : req.apply old = some attr) :
    requestedTime old.atime req.atime = some attr.atime ∧
      requestedTime old.mtime req.mtime = some attr.mtime ∧
      requestedTime old.crtime req.crtime = some attr.crtime ∧
      attr = { old with
        perm := (req.mode.map UInt16.ofNat).getD old.perm
        uid := req.uid.getD old.uid
        gid := req.gid.getD old.gid
        size := (req.size.map UInt32.ofNat).getD old.size
        atime := attr.atime, mtime := attr.mtime, crtime := attr.crtime
        flags := req.flags.getD old.flags } := by
  simp only [SetAttr.apply, Option.bind_eq_bind, Option.bind_eq_some_iff, Option.pure_def] at h
  obtain ⟨at', hat, mt, hmt, crt, hcrt, h⟩ := h
  obtain rfl := Option.some.inj h
  exact ⟨hat, hmt, hcrt, rfl⟩

/-- **What `getattr` finds after a `setattr`**: nothing, if a time was not kept. -/
theorem AttrSet.shown_after {ino : ℕ} {req : SetAttr} {old attr : DBFileAttr} {s' : SqliteFs X}
    (h : AttrSet env s ino req old attr s') (a : DBFileAttr) :
    s'.conn.shown (asU32 ino) = some a ↔
      (datetime attr.atime.sec).isSome ∧
      (datetime
        (if old.size ≠ attr.size then (env.now .updateInode).1 else attr.mtime).sec).isSome ∧
      (datetime attr.crtime.sec).isSome ∧
      a = { attr with
        mtime := if old.size ≠ attr.size then (env.now .updateInode).1 else attr.mtime
        ctime := (env.now .updateInode).1
        blocks := countBlocks s'.conn.data.rows (asU32 ino) } := by
  obtain ⟨m, hm, hshows, hn, hb⟩ := Db.shown_eq_some_iff.1 h.shown
  obtain ⟨-, -, -, hattr⟩ := SetAttr.apply_eq_some h.apply
  have hino : attr.ino = asU32 ino := by
    rw [hattr]
    exact hshows.ino.trans (AuditedTable.key_of_find hm)
  have hrow := h.set.row (asU32 ino)
  rw [if_pos hino.symm, hino, hm, Option.map_some] at hrow
  have hnlink : attr.nlink = old.nlink := by rw [hattr]
  have hkind : attr.kind = m.kind := by rw [hattr]; exact hshows.kind
  rw [Db.shown_eq_some_iff]
  simp only [hrow, Option.some.injEq, exists_eq_left', h.updated.dentry, hn]
  constructor
  · rintro ⟨hs, hnl, hb'⟩
    have hat := (stringToSystemtime_throughDatetime _ _).1 hs.atime
    have hmt := (stringToSystemtime_throughDatetime _ _).1 hs.mtime
    have hct := (stringToSystemtime_throughDatetime _ _).1 hs.ctime
    have hcrt := (stringToSystemtime_throughDatetime _ _).1 hs.crtime
    refine ⟨hat.1, hmt.1, hcrt.1, ?_⟩
    obtain ⟨ino', size, blocks, at', mt, ct, crt, kind, perm, nl, uid, gid, rdev, flags⟩ := a
    simp only [DBFileAttr.mk.injEq]
    refine ⟨?_, hs.size, hb', hat.2, hmt.2, hct.2, hcrt.2, hs.kind.trans hkind.symm, hs.perm, ?_,
      hs.uid, hs.gid, hs.rdev, hs.flags⟩
    · exact (hs.ino.trans (AuditedTable.key_of_find hm)).trans hino.symm
    · exact hnl.symm.trans hnlink.symm
  · rintro ⟨hat, hmt, hcrt, rfl⟩
    have hid : attr.ino = m.id := hino.trans (AuditedTable.key_of_find hm).symm
    exact ⟨⟨hid, rfl, (stringToSystemtime_throughDatetime _ _).2 ⟨hat, rfl⟩,
      (stringToSystemtime_throughDatetime _ _).2 ⟨hmt, rfl⟩,
      (stringToSystemtime_throughDatetime _ _).2 ⟨Now.datetime_isSome _, rfl⟩,
      (stringToSystemtime_throughDatetime _ _).2 ⟨hcrt, rfl⟩, hkind, rfl, rfl, rfl, rfl, rfl⟩,
      hnlink.symm, rfl⟩

/-! ### Times that come back -/

/-- A time that was read can be stored again. -/
theorem Visited.datetime_isSome (h : s.Visited) {i : ℕ} {a : DBFileAttr}
    (ha : s.conn.shown i = some a) : (datetime a.atime.sec).isSome ∧
      (datetime a.mtime.sec).isSome ∧ (datetime a.crtime.sec).isSome := by
  obtain ⟨m, hm, hshows, -, -⟩ := Db.shown_eq_some_iff.1 ha
  obtain ⟨hat, hmt, -, hcrt⟩ := h.storable.2 i m hm
  have hkept : ∀ {c : TimeColumn} {t : SystemTime}, c.Storable → stringToSystemtime c = some t →
      (datetime t.sec).isSome := by
    intro c t hc ht
    obtain ⟨sec, hsec, rfl⟩ := Option.map_eq_some_iff.1 ht
    exact Option.isSome_iff_exists.2 ⟨sec, hc sec hsec⟩
  exact ⟨hkept hat hshows.atime, hkept hmt hshows.mtime, hkept hcrt hshows.crtime⟩

/-- The times of access and modification that the request names lie between the epoch and the end of
the year 9999, and the time of creation is one that `datetime()` keeps. -/
structure SetAttr.TimesInRange (req : SetAttr) : Prop where
  times : ∀ ts, req.atime = some ts ∨ req.mtime = some ts → 0 ≤ ts.sec ∧ ts.sec ≤ 253402300799
  crtime : ∀ ts t, req.crtime = some ts → datetimeFrom ts = some t → (datetime t.sec).isSome

/-- The attributes `after` have the times of access and modification that the request names, and
what it does not name is as it was `before`, but for the time of the change. -/
structure SetAttr.Survives (req : SetAttr) (before after : FileAttr) : Prop where
  atime : ∀ ts, req.atime = some ts → after.atime = ts
  mtime : ∀ ts, req.mtime = some ts → after.mtime = ts
  atime_kept : req.atime = none → after.atime = before.atime
  mtime_kept : req.mtime = none → after.mtime = before.mtime
  crtime_kept : req.crtime = none → after.crtime = before.crtime
  perm_kept : req.mode = none → after.perm = before.perm
  uid_kept : req.uid = none → after.uid = before.uid
  gid_kept : req.gid = none → after.gid = before.gid
  flags_kept : req.flags = none → after.flags = before.flags
  ino : after.ino = before.ino
  size : after.size = before.size
  blocks : after.blocks = before.blocks
  kind : after.kind = before.kind
  nlink : after.nlink = before.nlink
  rdev : after.rdev = before.rdev

/-- The time that a request with a second and its part names. -/
theorem datetimeFrom_eq_some {ts : Timespec} {t : SystemTime} (h₀ : 0 ≤ ts.nsec)
    (h₁ : ts.nsec < 1000000000) (h : datetimeFrom ts = some t) :
    t.sec = ts.sec ∧ (t.nsec : ℤ) = ts.nsec := by
  have hmod : ts.nsec % 2 ^ 32 = ts.nsec := by omega
  unfold datetimeFrom at h
  simp only [hmod] at h
  split_ifs at h with hin
  obtain rfl := Option.some.inj h
  have hlt : ts.nsec.toNat < 1000000000 := by omega
  refine ⟨?_, ?_⟩
  · rw [Nat.div_eq_of_lt hlt]
    simp
  · simp only [Fin.val_ofNat, Nat.mod_eq_of_lt hlt]
    omega

/-- A time comes back as it was given if and only if it is not before the epoch. -/
theorem timespecFrom_eq_iff {ts : Timespec} {t : SystemTime} (h₀ : 0 ≤ ts.nsec)
    (h₁ : ts.nsec < 1000000000) (h : datetimeFrom ts = some t) :
    timespecFrom t = ts ↔ 0 ≤ ts.sec := by
  obtain ⟨hsec, hnsec⟩ := datetimeFrom_eq_some h₀ h₁ h
  obtain ⟨sec, nsec⟩ := ts
  unfold timespecFrom
  split_ifs with ht
  · simp only [Timespec.mk.injEq] at hsec hnsec ⊢
    simp only [hsec, hnsec, and_self, true_iff]
    omega
  · simp only [Timespec.mk.injEq] at hsec ⊢
    omega

variable {s' : SqliteFs X} {ino : ℕ} {req : SetAttr} {old attr : DBFileAttr}

/-- What is read again of a requested time. -/
theorem requestedTime_kept {present t : SystemTime} {o : Option Timespec}
    (h : requestedTime present o = some t)
    (ho : ∀ ts, o = some ts → 0 ≤ ts.nsec ∧ ts.nsec < 1000000000) :
    (∀ ts, o = some ts → t.sec = ts.sec ∧ (timespecFrom t = ts ↔ 0 ≤ ts.sec)) ∧
      (o = none → t = present) := by
  cases o with
  | none => exact ⟨fun _ h => absurd h (by simp), fun _ => (Option.some.inj h).symm⟩
  | some ts =>
    obtain ⟨h₀, h₁⟩ := ho ts rfl
    refine ⟨fun ts' hts' => ?_, fun h => absurd h (by simp)⟩
    obtain rfl := Option.some.inj hts'
    exact ⟨(datetimeFrom_eq_some h₀ h₁ h).1, timespecFrom_eq_iff h₀ h₁ h⟩

theorem datetime_isSome_iff (sec : ℤ) :
    (datetime sec).isSome ↔ -62167219200 ≤ sec ∧ sec ≤ 253402300799 := by
  unfold datetime
  split_ifs with h <;> simp [h]

/-- The attributes that are shown after a `setattr` without a change of the size. -/
theorem AttrSet.survives_iff (h : AttrSet env s ino req old attr s') (hs : s.Visited)
    (hsize : attr.size = old.size)
    (htimes : ∀ ts, req.atime = some ts ∨ req.mtime = some ts →
      0 ≤ ts.nsec ∧ ts.nsec < 1000000000) :
    (∃ a, s'.conn.shown (asU32 ino) = some a ∧
        req.Survives old.getFileAttr a.getFileAttr) ↔ req.TimesInRange := by
  obtain ⟨hat, hmt, hcrt, hattr⟩ := SetAttr.apply_eq_some h.apply
  obtain ⟨hkat, hkmt, hkcrt⟩ := hs.datetime_isSome h.shown
  obtain ⟨hnat, hoat⟩ := requestedTime_kept hat fun ts hts => htimes ts (Or.inl hts)
  obtain ⟨hnmt, homt⟩ := requestedTime_kept hmt fun ts hts => htimes ts (Or.inr hts)
  have hmtime : (if old.size ≠ attr.size then (env.now .updateInode).1 else attr.mtime) =
      attr.mtime := if_neg fun hne => hne hsize.symm
  have hblocks : countBlocks s'.conn.data.rows (asU32 ino) = old.blocks := by
    obtain ⟨-, -, -, -, hb⟩ := Db.shown_eq_some_iff.1 h.shown
    rw [h.set.data (by simp [hsize]), hb]
  constructor
  · rintro ⟨a, ha, hsurvives⟩
    obtain ⟨hdat, hdmt, hdcrt, rfl⟩ := (h.shown_after a).1 ha
    rw [hmtime] at hdmt
    refine ⟨fun ts hts => ?_, fun ts t hts ht => ?_⟩
    · rcases hts with hts | hts
      · obtain ⟨hsec, hiff⟩ := hnat ts hts
        rw [datetime_isSome_iff, hsec] at hdat
        exact ⟨hiff.1 (hsurvives.atime ts hts), hdat.2⟩
      · obtain ⟨hsec, hiff⟩ := hnmt ts hts
        rw [datetime_isSome_iff, hsec] at hdmt
        have hshown := hsurvives.mtime ts hts
        simp only [DBFileAttr.getFileAttr, hmtime] at hshown
        exact ⟨hiff.1 hshown, hdmt.2⟩
    · rw [hts, requestedTime, ht] at hcrt
      exact Option.some.inj hcrt ▸ hdcrt
  · intro hrange
    refine ⟨_, (h.shown_after _).2 ⟨?_, ?_, ?_, rfl⟩, ?_⟩
    · cases hreq : req.atime with
      | none => exact hoat hreq ▸ hkat
      | some ts =>
        have := hrange.times ts (Or.inl hreq)
        rw [datetime_isSome_iff, (hnat ts hreq).1]
        omega
    · rw [hmtime]
      cases hreq : req.mtime with
      | none => exact homt hreq ▸ hkmt
      | some ts =>
        have := hrange.times ts (Or.inr hreq)
        rw [datetime_isSome_iff, (hnmt ts hreq).1]
        omega
    · cases hreq : req.crtime with
      | none =>
        rw [hreq, requestedTime] at hcrt
        exact Option.some.inj hcrt ▸ hkcrt
      | some ts =>
        rw [hreq, requestedTime] at hcrt
        exact hrange.crtime ts _ hreq hcrt
    · rw [hmtime, hblocks, hattr]
      constructor
      · exact fun ts hts => (hnat ts hts).2.2 (hrange.times ts (Or.inl hts)).1
      · exact fun ts hts => (hnmt ts hts).2.2 (hrange.times ts (Or.inr hts)).1
      · exact fun hnone => congrArg timespecFrom (hoat hnone)
      · exact fun hnone => congrArg timespecFrom (homt hnone)
      · intro hnone
        rw [hnone, requestedTime] at hcrt
        exact congrArg timespecFrom (Option.some.inj hcrt).symm
      · exact fun hnone => by simp [DBFileAttr.getFileAttr, hnone]
      · exact fun hnone => by simp [DBFileAttr.getFileAttr, hnone]
      · exact fun hnone => by simp [DBFileAttr.getFileAttr, hnone]
      · exact fun hnone => by simp [DBFileAttr.getFileAttr, hnone]
      · rfl
      · exact congrArg UInt32.toNat ((congrArg DBFileAttr.size hattr).symm.trans hsize)
      · rfl
      · rfl
      · rfl
      · rfl

/-- The reply to a successful `setattr`, and the state it leaves. -/
theorem attrSet_of_replied {ttl : Timespec} {fa : FileAttr}
    (hok : (handle env (.setattr ino req) s).2 = .replied (.attr ttl fa)) :
    ∃ old attr, AttrSet env s ino req old attr (s.after (env, .setattr ino req)) ∧
      fa = attr.getFileAttr := by
  have h := outcome_of_ensures (P := fun s' out => (∃ old attr, AttrSet env s ino req old attr s' ∧
      out = .replied (.attr oneSec attr.getFileAttr)) ∨ out.Failed)
    ((show (setattr env ino req).Ensures s _ _ from setattr_spec ino req).mono
      (fun _ _ ⟨old, attr, h, hreply⟩ => Or.inl ⟨old, attr, h, hreply ▸ rfl⟩)
      fun _ _ h => Or.inr h.2.failed)
  change (∃ old attr, AttrSet env s ino req old attr (s.after (env, .setattr ino req)) ∧
    (handle env (.setattr ino req) s).2 = _) ∨ (handle env (.setattr ino req) s).2.Failed at h
  rw [hok] at h
  rcases h with ⟨old, attr, h, hreply⟩ | hfailed
  · obtain ⟨-, rfl⟩ := Reply.attr.inj (Outcome.replied.inj hreply)
    exact ⟨old, attr, h, rfl⟩
  · exact hfailed.elim

/-- **Times survive a round trip** through `setattr` and `getattr` if and only if those of access
and modification lie between the epoch and the end of the year 9999, and the time of creation is not
lost by `datetime()`. -/
theorem times_survive_iff (h : s.Visited) (env env' : Env) (ino : ℕ) (req : SetAttr)
    (old : DBFileAttr) (hold : s.conn.shown (asU32 ino) = some old)
    (hsize : ∀ n, req.size = some n → UInt32.ofNat n = old.size)
    (htimes : ∀ ts, req.atime = some ts ∨ req.mtime = some ts →
      inChronoRange ts.sec ∧ 0 ≤ ts.nsec ∧ ts.nsec < 1000000000)
    (hok : ∃ ttl fa, (handle env (.setattr ino req) s).2 = .replied (.attr ttl fa))
    (hfails : env'.fails .getInode = false) :
    (∃ ttl fa, (handle env' (.getattr ino) (s.after (env, .setattr ino req))).2 =
        .replied (.attr ttl fa) ∧ req.Survives old.getFileAttr fa) ↔ req.TimesInRange := by
  obtain ⟨ttl, fa, hok⟩ := hok
  obtain ⟨old', attr, hset, -⟩ := attrSet_of_replied hok
  obtain rfl := Option.some.inj (hold.symm.trans hset.shown)
  have hattr : attr.size = old.size := by
    rw [(SetAttr.apply_eq_some hset.apply).2.2.2]
    cases hreq : req.size with
    | none => rfl
    | some n => exact hsize n hreq
  have hre : (s.after (env, .setattr ino req)).rewind = false :=
    (h.storable.1.after (env, .setattr ino req)).rewind
  rw [← hset.survives_iff h hattr fun ts hts => (htimes ts hts).2, getattr_reply hre hfails]
  cases hshown : (s.after (env, .setattr ino req)).conn.shown (asU32 ino) with
  | none => simp
  | some a =>
    simp only [Outcome.replied.injEq, Reply.attr.injEq, Option.some.injEq, exists_eq_left']
    constructor
    · rintro ⟨ttl', fa', ⟨-, rfl⟩, hs⟩
      exact hs
    · exact fun hs => ⟨oneSec, _, ⟨rfl, rfl⟩, hs⟩

/-- A request that names a time of access. -/
def touch (ts : Timespec) : SetAttr := ⟨none, none, none, none, some ts, none, none, none⟩

/-- The time of access of the root is set to the seventh second. -/
theorem times_survive_iff_sample :
    (∃ ttl fa, (handle .sample (.getattr 1) (sample.after (.sample, .setattr 1 (touch ⟨7, 5⟩)))).2 =
        .replied (.attr ttl fa) ∧
      (touch ⟨7, 5⟩).Survives
        ((sample.conn.shown 1).getD (Sqlite.sampleAttr .Directory)).getFileAttr
        fa) ↔ (touch ⟨7, 5⟩).TimesInRange :=
  times_survive_iff visited_sample .sample .sample 1 (touch ⟨7, 5⟩) _ (by decide) (by decide)
    (fun ts hts => by
      obtain rfl := Option.some.inj (hts.resolve_right (by simp [touch]))
      decide)
    ⟨oneSec, _, rfl⟩ rfl

/-- The second before the epoch comes back as the epoch, and the year 10000 not at all. -/
theorem times_out_of_range_are_lost :
    (∃ ttl fa, (handle .sample (.setattr 1 (touch ⟨-1, 0⟩)) sample).2 =
        .replied (.attr ttl fa)) ∧ inChronoRange (-1) ∧
      (¬ ∃ ttl fa, (handle .sample (.getattr 1)
        (sample.after (.sample, .setattr 1 (touch ⟨-1, 0⟩)))).2 = .replied (.attr ttl fa) ∧
          (touch ⟨-1, 0⟩).Survives
            ((sample.conn.shown 1).getD (Sqlite.sampleAttr .Directory)).getFileAttr fa) ∧
      (handle .sample (.getattr 1)
        (sample.after (.sample, .setattr 1 (touch ⟨253402300800, 0⟩)))).2 =
          .replied (.error .ENOENT) := by
  refine ⟨⟨_, _, rfl⟩, by decide, ?_, by decide⟩
  rintro ⟨ttl, fa, hfa, hsurvives⟩
  obtain ⟨ttl', fa', hfa', hepoch⟩ : ∃ ttl' fa', (handle .sample (.getattr 1)
      (sample.after (.sample, .setattr 1 (touch ⟨-1, 0⟩)))).2 = .replied (.attr ttl' fa') ∧
        fa'.atime = ⟨0, 0⟩ := ⟨_, _, rfl, rfl⟩
  rw [hfa] at hfa'
  obtain ⟨-, rfl⟩ : ttl = ttl' ∧ fa = fa' := by simpa using hfa'
  exact absurd ((hsurvives.atime ⟨-1, 0⟩ rfl).symm.trans hepoch) (by decide)

end SqliteFs

end TemporalFs
