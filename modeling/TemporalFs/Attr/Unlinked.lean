import Mathlib
import TemporalFs.Fs.Files

/-!
# Inodes without a name

An inode that is looked up stays when its last name is removed. Its contents are read and written as
before, but its attributes are not found any more: the number of its links is a `NULL` then. A
request that sets a size and a time of modification at once has the second replaced by the clock,
named or not.

## Main definitions

* `SqliteFs.Usable`: `getattr`, `setattr`, `read` and `write` of the inode do what they should.
* `SqliteFs.SetAttr.KeepsMtime`: the time of modification that a request names is not replaced.

## Main results

* `SqliteFs.usable_iff_named`: it is so as long as a name is left, for requests of this kind.
-/

namespace TemporalFs

variable {X : Externals}

namespace SqliteFs

open Proc

/-- The times that the request names can be stored, and its size fits into a `u32`. -/
structure SetAttr.Valid (req : SetAttr) : Prop where
  times : ∀ ts, req.atime = some ts ∨ req.mtime = some ts ∨ req.crtime = some ts →
    ∃ t, datetimeFrom ts = some t ∧ (datetime t.sec).isSome
  size : ∀ n, req.size = some n → n < 2 ^ 32

/-- The row `m'` has everything that the request asks for, and where the request asks for nothing
the mode, the owner, the size and the flags of the row `m`. -/
structure SetAttr.Changes (req : SetAttr) (m m' : MetadataRow) : Prop where
  size : m'.size = (req.size.map UInt32.ofNat).getD m.size
  mode : m'.mode = (req.mode.map UInt16.ofNat).getD m.mode
  uid : m'.uid = req.uid.getD m.uid
  gid : m'.gid = req.gid.getD m.gid
  flags : m'.flags = req.flags.getD m.flags
  atime : ∀ ts t, req.atime = some ts → datetimeFrom ts = some t → m'.atime = t.throughDatetime
  mtime : ∀ ts t, req.mtime = some ts → datetimeFrom ts = some t → m'.mtime = t.throughDatetime
  crtime : ∀ ts t, req.crtime = some ts → datetimeFrom ts = some t → m'.crtime = t.throughDatetime

/-- The request takes effect on the inode `i`: its row is changed, and its bytes are cut where it is
to be smaller. -/
structure SetAttr.TakesEffect (req : SetAttr) (db : Db X) (i : ℕ) (db' : Db X) : Prop where
  row : ∃ m m', db.metadata.find i = some m ∧ db'.metadata.find i = some m' ∧ req.Changes m m'
  bytes : ∀ p, db'.bytes i p =
    if p < db'.fileSize i ∨ db.fileSize i ≤ db'.fileSize i then db.bytes i p else 0

/-- The time of modification that the request names for the row `m` is not replaced by the reading
of the clock: no size comes with it that differs from the present one, or the clock reads the same
time. -/
def SetAttr.KeepsMtime (req : SetAttr) (now : Now) (m : MetadataRow) : Prop :=
  ∀ n ts t, req.size = some n → req.mtime = some ts → datetimeFrom ts = some t →
    UInt32.ofNat n ≠ m.size → now.1.throughDatetime = t.throughDatetime

/-- **The inode `i` can be used** in the surroundings `env`, in which no call fails: its attributes
are read and are set as `req` asks for, and its bytes are read and written. -/
structure Usable (s : SqliteFs X) (i : ℕ) (env : Env) (req : SetAttr) : Prop where
  getattr : ∃ m a, s.conn.metadata.find i = some m ∧
    (handle env (.getattr i) s).2 = .replied (.attr oneSec a.getFileAttr) ∧ m.Shows a ∧
      a.nlink = s.conn.dentry.rows.countP fun e => e.childId = i
  setattr : (∃ ttl fa, (handle env (.setattr i req) s).2 = .replied (.attr ttl fa)) ∧
    req.TakesEffect s.conn i (s.after (env, .setattr i req)).conn
  read : ∀ (fh : ℕ) (offset : ℤ) (size : ℕ), 0 ≤ offset → offset + size < 2 ^ 32 →
    (handle env (.read i fh offset size) s).2 =
      .replied (.data (stretch (s.conn.bytes i) offset.toNat size))
  write : s.db.extensions = true → ∀ (fh : ℕ) (offset : ℤ) (data : Bytes), data ≠ [] →
    0 ≤ offset → offset + data.length < 2 ^ 32 →
      (handle env (.write i fh offset data) s).2 = .replied (.written data.length) ∧
        s.conn.Overwritten i offset.toNat data.length data
          (s.after (env, .write i fh offset data)).conn

variable {s s' : SqliteFs X} {env : Env} {ino i : ℕ} {req : SetAttr} {old attr : DBFileAttr}

/-- A time that can be stored is set, or the present one is kept. -/
theorem datetime_isSome_of_requested {present t : SystemTime} {o : Option Timespec}
    (h : requestedTime present o = some t) (hpresent : (datetime present.sec).isSome)
    (hvalid : ∀ ts, o = some ts → ∃ t, datetimeFrom ts = some t ∧ (datetime t.sec).isSome) :
    (datetime t.sec).isSome := by
  cases o with
  | none => exact Option.some.inj h ▸ hpresent
  | some ts =>
    obtain ⟨t', ht', hsome⟩ := hvalid ts rfl
    exact Option.some.inj (ht'.symm.trans h) ▸ hsome

theorem SetAttr.Valid.exists_apply (h : req.Valid) (old : DBFileAttr) :
    ∃ attr, req.apply old = some attr := by
  have hrequested : ∀ (present : SystemTime) (o : Option Timespec),
      (∀ ts, o = some ts → ∃ t, datetimeFrom ts = some t ∧ (datetime t.sec).isSome) →
        ∃ t, requestedTime present o = some t := by
    intro present o ho
    cases o with
    | none => exact ⟨present, rfl⟩
    | some ts =>
      obtain ⟨t, ht, -⟩ := ho ts rfl
      exact ⟨t, ht⟩
  obtain ⟨at', hat⟩ := hrequested old.atime req.atime fun ts hts => h.times ts (Or.inl hts)
  obtain ⟨mt, hmt⟩ := hrequested old.mtime req.mtime fun ts hts => h.times ts (Or.inr (Or.inl hts))
  obtain ⟨crt, hcrt⟩ := hrequested old.crtime req.crtime fun ts hts =>
    h.times ts (Or.inr (Or.inr hts))
  simp [SetAttr.apply, hat, hmt, hcrt]

/-- A time that the request names is the one that the attributes get. -/
theorem requestedTime_of_some {present t t' : SystemTime} {o : Option Timespec} {ts : Timespec}
    (h : requestedTime present o = some t) (ho : o = some ts) (ht : datetimeFrom ts = some t') :
    t = t' := by
  rw [ho, requestedTime, ht] at h
  exact (Option.some.inj h).symm

/-- The row that `setattr` leaves of the inode. -/
theorem AttrSet.row (h : AttrSet env s ino req old attr s') :
    ∃ m, s.conn.metadata.find (asU32 ino) = some m ∧ m.Shows old ∧
      s'.conn.metadata.find (asU32 ino) = some (Sqlite.setInode attr attr.atime
        (if old.size ≠ attr.size then (env.now .updateInode).1 else attr.mtime)
        (env.now .updateInode).1 attr.crtime m) := by
  obtain ⟨m, hm, hshows, -, -⟩ := Db.shown_eq_some_iff.1 h.shown
  obtain ⟨-, -, -, hattr⟩ := SetAttr.apply_eq_some h.apply
  have hino : attr.ino = asU32 ino := by
    rw [hattr]
    exact hshows.ino.trans (AuditedTable.key_of_find hm)
  have hrow := h.set.row (asU32 ino)
  rw [if_pos hino.symm, hino, hm, Option.map_some] at hrow
  exact ⟨m, hm, hshows, hrow⟩

/-- What `setattr` leaves of the bytes of the inode. -/
theorem AttrSet.bytes (h : AttrSet env s ino req old attr s') (p : ℕ) :
    s'.conn.bytes (asU32 ino) p =
      if p < s'.conn.fileSize (asU32 ino) ∨
          s.conn.fileSize (asU32 ino) ≤ s'.conn.fileSize (asU32 ino) then
        s.conn.bytes (asU32 ino) p
      else 0 := by
  obtain ⟨m, hm, hshows, -, -⟩ := Db.shown_eq_some_iff.1 h.shown
  obtain ⟨-, -, -, hattr⟩ := SetAttr.apply_eq_some h.apply
  have hino : attr.ino = asU32 ino := by
    rw [hattr]
    exact hshows.ino.trans (AuditedTable.key_of_find hm)
  have hsize : s.conn.fileSize (asU32 ino) = old.size.toNat :=
    fileSize_of_inodeAttr (inodeAttr_eq_ok_some_iff.2 h.shown)
  rw [← hino, h.updated.bytes, h.updated.fileSize, if_pos rfl, hino, hsize]
  have hcut : (decide (old.size > attr.size)) = true ↔ attr.size.toNat < old.size.toNat := by
    rw [decide_eq_true_iff, gt_iff_lt, UInt32.lt_iff_toNat_lt]
  by_cases hlt : attr.size.toNat < old.size.toNat
  · rw [if_pos (hcut.2 hlt)]
    exact if_congr (by omega) rfl rfl
  · rw [if_neg fun hc => hlt (hcut.1 hc), if_pos (Or.inr (not_lt.1 hlt))]

/-- **`setattr` takes effect** if and only if it keeps the time of modification that it is given. -/
theorem AttrSet.takesEffect_iff (h : AttrSet env s ino req old attr s') {m : MetadataRow}
    (hm : s.conn.metadata.find (asU32 ino) = some m) :
    req.TakesEffect s.conn (asU32 ino) s'.conn ↔ req.KeepsMtime (env.now .updateInode) m := by
  obtain ⟨m', hm', hshows, hrow⟩ := h.row
  obtain rfl := Option.some.inj (hm.symm.trans hm')
  obtain ⟨hat, hmt, hcrt, hattr⟩ := SetAttr.apply_eq_some h.apply
  have hnew : attr.size = (req.size.map UInt32.ofNat).getD m.size := by
    rw [hattr, hshows.size]
  constructor
  · rintro ⟨⟨m₁, m₂, hm₁, hm₂, hchanges⟩, -⟩ n ts t hn hts ht hne
    have hmtime := hchanges.mtime ts t hts ht
    have hdiffers : old.size ≠ attr.size := by
      rw [hnew, hn, hshows.size]
      exact fun heq => hne heq.symm
    rw [Option.some.inj (hm₂.symm.trans hrow), Sqlite.setInode, if_pos hdiffers] at hmtime
    exact hmtime
  · refine fun hkeeps => ⟨⟨m, _, hm, hrow, ?_⟩, h.bytes⟩
    constructor
    · rw [Sqlite.setInode, hnew]
    · rw [Sqlite.setInode, hattr, hshows.perm]
    · rw [Sqlite.setInode, hattr, hshows.uid]
    · rw [Sqlite.setInode, hattr, hshows.gid]
    · rw [Sqlite.setInode, hattr, hshows.flags]
    · exact fun ts t hts ht =>
        congrArg SystemTime.throughDatetime (requestedTime_of_some hat hts ht)
    · intro ts t hts ht
      by_cases hsame : old.size = attr.size
      · rw [Sqlite.setInode, if_neg (not_not.2 hsame), requestedTime_of_some hmt hts ht]
      · rw [Sqlite.setInode, if_pos hsame]
        cases hn : req.size with
        | none =>
          rw [hnew, hn] at hsame
          exact absurd hshows.size hsame
        | some n =>
          refine hkeeps n ts t hn hts ht fun heq => hsame ?_
          rw [hnew, hn, hshows.size]
          exact heq.symm
    · exact fun ts t hts ht =>
        congrArg SystemTime.throughDatetime (requestedTime_of_some hcrt hts ht)

/-- What a `setattr` request does to an inode that has a name and a row that can be read, whatever
it names: it succeeds, and stores what `AttrSet` says. -/
theorem setattr_of_named (h : s.Visited) {i : ℕ} {m : MetadataRow}
    (hcalls : ∀ c, env.fails c = false) (hvalid : req.Valid)
    (hnamed : ∃ e ∈ s.conn.dentry.rows, e.childId = i) (hm : s.conn.metadata.find i = some m)
    (hr : m.Readable) : asU32 i = i ∧ ∃ old attr, s.conn.shown i = some old ∧
      (handle env (.setattr i req) s).2 = .replied (.attr oneSec attr.getFileAttr) ∧
        AttrSet env s i req old attr (s.after (env, .setattr i req)) := by
  have hw := h.storable.1
  obtain ⟨e, he, rfl⟩ := hnamed
  have hlt := (s.conn.sequence_bound _ (by rw [hm]; rfl)).trans_lt hw.sequence_lt
  have hi : asU32 e.childId = e.childId := Nat.mod_eq_of_lt hlt
  obtain ⟨old, hold⟩ := s.conn.shown_of_readable hm hr he
  obtain ⟨attr, hattr⟩ := hvalid.exists_apply old
  obtain ⟨hat, hmt, hcrt, -⟩ := SetAttr.apply_eq_some hattr
  have hdates := h.datetime_isSome hold
  have hsucceeds := setattr_succeeds hw.readOnly (hcalls _) (hcalls _) (hi.symm ▸ hold) hattr
    ⟨inChronoRange_of_datetime (datetime_isSome_of_requested hat hdates.1 fun ts hts =>
        hvalid.times ts (Or.inl hts)),
      inChronoRange_of_datetime (datetime_isSome_of_requested hmt hdates.2.1 fun ts hts =>
        hvalid.times ts (Or.inr (Or.inl hts))),
      inChronoRange_of_datetime (datetime_isSome_of_requested hcrt hdates.2.2 fun ts hts =>
        hvalid.times ts (Or.inr (Or.inr hts)))⟩
  exact ⟨hi, old, attr, hold, hsucceeds.1, hsucceeds.2⟩

/-- What `getattr` replies if it shows the attributes of an inode: they come from the row of the
inode itself, which can be read, and an entry names the inode. -/
theorem named_of_getattr {i : ℕ} {m : MetadataRow} {a : FileAttr} (hrewind : s.rewind = false)
    (hcalls : ∀ c, env.fails c = false) (hm : s.conn.metadata.find i = some m)
    (hino : a.ino = i) (hreply : (handle env (.getattr i) s).2 = .replied (.attr oneSec a)) :
    (∃ e ∈ s.conn.dentry.rows, e.childId = i) ∧ m.Readable := by
  rw [getattr_reply hrewind (hcalls _)] at hreply
  cases hshown : s.conn.shown (asU32 i) with
  | none => simp [hshown] at hreply
  | some a' =>
    obtain ⟨m', hm', hshows', hn, -⟩ := Db.shown_eq_some_iff.1 hshown
    simp only [hshown, Outcome.replied.injEq, Reply.attr.injEq, true_and] at hreply
    have hi : asU32 i = i := by
      have hid : m'.id = asU32 i := AuditedTable.key_of_find hm'
      rw [← hid, ← hshows'.ino]
      exact (congrArg FileAttr.ino hreply).trans hino
    rw [hi] at hm' hn
    obtain rfl := Option.some.inj (hm'.symm.trans hm)
    exact ⟨exists_of_nlink hn, hshows'.readable⟩

/-- **An inode can be used** if and only if a name of it is left, its times can be read, and no time
of modification is set together with a new size. -/
theorem usable_iff_named (h : s.Visited) (i : ℕ) (hcalls : ∀ c, env.fails c = false)
    (hvalid : req.Valid) :
    s.Usable i env req ↔ (∃ e ∈ s.conn.dentry.rows, e.childId = i) ∧
      ∃ m, s.conn.metadata.find i = some m ∧ m.Readable ∧
        req.KeepsMtime (env.now .updateInode) m := by
  have hw := h.storable.1
  constructor
  · intro hu
    obtain ⟨m, a, hm, hreply, hshows, -⟩ := hu.getattr
    obtain ⟨hnamed, hr⟩ := named_of_getattr hw.rewind hcalls hm
      (hshows.ino.trans (AuditedTable.key_of_find hm)) hreply
    obtain ⟨hi, old, attr, -, -, hattrSet⟩ := setattr_of_named h hcalls hvalid hnamed hm hr
    have hiff := hattrSet.takesEffect_iff (hi.symm ▸ hm)
    rw [hi] at hiff
    exact ⟨hnamed, m, hm, hr, hiff.1 hu.setattr.2⟩
  · rintro ⟨hnamed, m, hm, hr, hkeeps⟩
    obtain ⟨hi, old, attr, hold, hreply, hattrSet⟩ :=
      setattr_of_named h hcalls hvalid hnamed hm hr
    have hrow : (s.conn.metadata.find (asU32 i)).isSome := by
      rw [hi, hm, Option.isSome_some]
    constructor
    · obtain ⟨m', hm', hshows, hn, -⟩ := Db.shown_eq_some_iff.1 hold
      refine ⟨m', old, hm', ?_, hshows, nlink_eq_some hn⟩
      rw [getattr_reply hw.rewind (hcalls _), hi, hold]
    · have hiff := hattrSet.takesEffect_iff (hi.symm ▸ hm)
      rw [hi] at hiff
      exact ⟨⟨_, _, hreply⟩, hiff.2 hkeeps⟩
    · intro fh offset size hoffset hfits
      have hread := (read_replies hw.rewind hcalls i fh hoffset hfits).1
      rwa [hi] at hread
    · intro hext fh offset data hdata hoffset hfits
      have hlen : asU32 data.length = data.length := Nat.mod_eq_of_lt (by omega)
      have hoff : i64AsU32 offset = offset.toNat := by
        unfold i64AsU32
        omega
      have hpos := List.length_pos_iff.2 hdata
      have hstart : 1 ≤ i64AsU32 offset + asU32 data.length := by omega
      have hend : i64AsU32 offset + asU32 data.length < 2 ^ 32 := by omega
      have hwrite := write_succeeds hcalls hw.readOnly hext hrow fh hstart hend
      rwa [hlen, hoff, hi] at hwrite

/-- In a new file, whose size is to be set. -/
theorem usable_iff_named_sample :
    (sample.after (.sample, .create 1 [97] 0)).Usable 2 .sample (.ofSize 7) ↔
      (∃ e ∈ (sample.after (.sample, .create 1 [97] 0)).conn.dentry.rows, e.childId = 2) ∧
        ∃ m, (sample.after (.sample, .create 1 [97] 0)).conn.metadata.find 2 = some m ∧
          m.Readable ∧ (SetAttr.ofSize 7).KeepsMtime (Env.sample.now .updateInode) m :=
  usable_iff_named (visited_sample.handled (.sample, .create 1 [97] 0)) 2 (fun _ => rfl)
    ⟨fun ts hts => by simp [SetAttr.ofSize] at hts, fun n hn => by
      rw [← Option.some.inj hn]
      decide⟩

/-- A file is made and removed while it is still in use. -/
def removedInUse : SqliteFs .sample :=
  sample.run [(.sample, .create 1 [97] 0), (.sample, .unlink 1 [97])]

/-- Its attributes can neither be read nor set. -/
theorem removed_in_use_is_not_found : removedInUse.Visited ∧
    removedInUse.lookupCount.lookup 2 = some 1 ∧ (removedInUse.conn.metadata.find 2).isSome ∧
      (handle .sample (.getattr 2) removedInUse).2 = .replied (.error .ENOENT) ∧
      (handle .sample (.setattr 2 (.ofSize 7)) removedInUse).2 = .replied (.error .ENOENT) ∧
      ¬ removedInUse.Usable 2 .sample (.ofSize 7) := by
  refine ⟨(visited_sample.handled _).handled _, by decide, by decide, by decide, by decide,
    fun hu => ?_⟩
  obtain ⟨m, a, -, hreply, -⟩ := hu.getattr
  have hnone : (handle .sample (.getattr 2) removedInUse).2 = .replied (.error .ENOENT) := by decide
  exact absurd (hreply.symm.trans hnone) (by simp)

end SqliteFs

end TemporalFs
