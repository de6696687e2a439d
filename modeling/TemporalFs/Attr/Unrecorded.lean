import Mathlib
import TemporalFs.Attr.SetAttr
import TemporalFs.Fs.Invariants

/-!
# Mounts that do not record times

On a mount made by `newNoTimeRecording` the methods record no times, but `updateInode` stores
its reading of the clock as the time of the change whatever the mount, and as the time of
modification when the size changes.

Each method asks for the setting at the place where it would record a time, so that on such a
connection it stamps nothing (`Db.Stamps`). An inode that is made anew has the times that the
handler gives it; it is the inodes that were there before whose times are compared, and an inode
that was deleted is not asked about.

## Main definitions

* `Db.KeepsTimes`: the inodes that are left have the times they had.
* `SqliteFs.SetsOwnTimes`: a `setattr` that stores no times but those it names.

## Main results

* `SqliteFs.HandlerCall.keepsTimes`: the methods record no times.
* `SqliteFs.times_kept_of_run`: in every run of such requests no other times change.
-/

namespace TemporalFs

variable {X : Externals}

/-- The inodes of `db` that are left in `db'` have the times they had. -/
def Db.KeepsTimes (db db' : Db X) : Prop := db.Stamped epoch .none db'

namespace Db.KeepsTimes

variable {db db' db'' : Db X} {now : Now} {S : Stamps}

theorem refl (db : Db X) : db.KeepsTimes db := Stamped.refl epoch db

theorem trans (h : db.KeepsTimes db') (h' : db'.KeepsTimes db'') : db.KeepsTimes db'' :=
  h.trans_none h'

theorem of_stamped (h : db.Stamped now .none db') : db.KeepsTimes db' := ⟨h.sequence_le, h.row⟩

theorem of_eq (h : db' = db) : db.KeepsTimes db' := h ▸ refl db

end Db.KeepsTimes

namespace SqliteFs

open Proc

variable {s s' : SqliteFs X} {env : Env}

/-- **The methods record no times** on a connection that is not to record them. -/
theorem HandlerCall.keepsTimes {α : Type} {c : Call} {m : Sqlite → Conn X α}
    (h : HandlerCall env c m) {self : Sqlite} (hrec : self.timeRecording = false) (db : Db X) :
    db.KeepsTimes (m self db).1 := by
  have hnone : ∀ {S : Stamps} {now : Now} {db' : Db X}, db.Stamped now (self.recorded S) db' →
      db.KeepsTimes db' := fun h =>
    .of_stamped (h.congr (Sqlite.recorded_of_not_recording hrec _))
  have hafter : ∀ {β : Type} {x : Conn X β} {Q : β → Db X → Prop} {E : Stop → Db X → Prop},
      x.Ensures db Q E → (∀ a db', Q a db' → db.KeepsTimes db') →
        (∀ e db', E e db' → db.KeepsTimes db') → db.KeepsTimes (x db).1 :=
    fun hx hQ hE => (hx.mono hQ hE).fst
  have hsame : ∀ {β : Type} {x : Conn X β}, x.Keeps (· = db) → db.KeepsTimes (x db).1 :=
    fun hx => .of_eq (hx.fst rfl)
  have hquery : ∀ {β : Type} (f : Db X → Except Stop β), (query f : Conn X β).Keeps (· = db) := by
    rintro β f db' rfl
    exact (ensures_query f db').2 ⟨fun _ _ => rfl, fun _ _ => rfl⟩
  cases h with
  | deleteAllNorefInode =>
    refine hafter (self.deleteAllNorefInode_spec db) (fun _ db' h => ?_) fun _ _ h => h.elim
    exact h ▸ .foldl (fun db i => .deleteMetadata db i) _ _
  | deleteInodeIfNoref i =>
    refine hafter (self.deleteInodeIfNoref_spec db i) (fun _ db' h => ?_) fun _ _ h => h.elim
    exact h ▸ .collect db i
  | lookup rewind p n =>
    cases rewind with
    | true => exact hsame (self.keeps_queryTemp _)
    | false => exact hafter (self.lookup_stamps _ db p n) (fun _ _ => hnone) fun _ _ => hnone
  | getInode rewind i =>
    cases rewind with
    | true => exact hsame (self.keeps_queryTemp _)
    | false => exact hsame (hquery _)
  | getData rewind i k length =>
    cases rewind with
    | true =>
      refine hsame (keeps_atomically (keeps_bind (self.keeps_queryTemp _) fun _ => ?_))
      rw [hrec]
      exact keeps_bind (keeps_pure ()) fun _ => keeps_pure _
    | false =>
      refine hafter (self.getData_stamps _ db i k length) (fun _ db' h => ?_) fun _ _ h => h.elim
      split_ifs at h with hro
      · exact .of_stamped h
      · exact hnone h
  | addInodeAndDentry p n attr =>
    exact hafter (self.addInodeAndDentry_stamps _ db p n attr) (fun _ _ => hnone) fun _ _ => .of_eq
  | deleteDentry p n =>
    exact hafter (self.deleteDentry_stamps _ db p n) (fun _ _ => hnone) fun _ _ => .of_eq
  | checkDirectoryIsEmpty i => exact .refl db
  | writeData i k data size =>
    exact hafter (self.writeData_stamps _ db i k data size) (fun _ _ => hnone) fun _ _ => .of_eq
  | moveDentry p n p' n' =>
    exact hafter (self.moveDentry_stamps _ db p n p' n') (fun _ _ ⟨_, _, h⟩ => hnone h)
      fun _ _ => .of_eq
  | linkDentry i p n =>
    exact hafter (self.linkDentry_stamps _ db i p n) (fun _ _ => hnone) fun _ _ => .of_eq
  | getDentry rewind i =>
    cases rewind with
    | true => exact hsame (self.keeps_queryTemp fun t => .ok (Sqlite.dentryList t.tdentry i))
    | false => exact .refl db
  | setXattr i key value =>
    exact hafter (self.setXattr_stamps _ db i key value) (fun _ _ => hnone) fun _ _ => .of_eq
  | getXattr rewind i key =>
    cases rewind with
    | true => exact hsame (self.keeps_queryTemp _)
    | false =>
      exact hsame (keeps_bind keeps_get fun _ => keeps_bind keeps_ofOption fun _ => keeps_pure _)
  | listXattr rewind i =>
    cases rewind with
    | true => exact hsame (self.keeps_queryTemp fun t => .ok (Sqlite.xattrList t.txattr i))
    | false => exact .refl db
  | deleteXattr i key =>
    exact hafter (self.deleteXattr_stamps _ db i key) (fun _ _ => hnone) fun _ _ h => h.elim

end SqliteFs

/-! ### Requests -/

/-- The request is a `setattr` on the inode `i` that names the time `c`, as it is stored, in the
given field. -/
def Request.Names (r : Request) (field : SqliteFs.SetAttr → Option Timespec) (i : ℕ)
    (c : TimeColumn) :
    Prop :=
  ∃ ino req ts t, r = .setattr ino req ∧ asU32 ino = i ∧ field req = some ts ∧
    datetimeFrom ts = some t ∧ c = t.throughDatetime

/-- The times `t'` of the inode `i` are the times `t`, but for those that a `setattr` of the run has
named. -/
structure Times.NamedIn (rs : List (Env × Request)) (i : ℕ) (t t' : Times) : Prop where
  atime : t'.atime = t.atime ∨ ∃ r ∈ rs, r.2.Names SqliteFs.SetAttr.atime i t'.atime
  mtime : t'.mtime = t.mtime ∨ ∃ r ∈ rs, r.2.Names SqliteFs.SetAttr.mtime i t'.mtime
  ctime : t'.ctime = t.ctime
  crtime : t'.crtime = t.crtime ∨ ∃ r ∈ rs, r.2.Names SqliteFs.SetAttr.crtime i t'.crtime

/-- The inodes of `db` that are left in `db'` have the times they had, but for those that a
`setattr` of the run has named. -/
def Db.NamesTimes (rs : List (Env × Request)) (db db' : Db X) : Prop :=
  ∀ i m', i ≤ db.sqliteSequence → db'.metadata.find i = some m' →
    ∃ m, db.metadata.find i = some m ∧ m.times.NamedIn rs i m'.times

/-- The request stores no reading of the clock: a `setattr` finds the time of the change, and where
the size changes also the time of modification, to be the time of the request already, or to be
named. -/
def Request.SetsOwnTimes (env : Env) (s : SqliteFs X) : Request → Prop
  | .setattr ino req => env.fails .getInode = false → env.fails .updateInode = false →
    ∀ old, s.conn.shown (asU32 ino) = some old → (req.apply old).isSome →
      old.ctime = (env.now .updateInode).1 ∧
      (old.size ≠ req.newSize old → old.mtime = (env.now .updateInode).1 ∨
        ∃ ts, req.mtime = some ts ∧ datetimeFrom ts = some (env.now .updateInode).1)
  | _ => True

namespace Times.NamedIn

variable {rs rs' : List (Env × Request)} {i : ℕ} {t t' t'' : Times}

theorem of_eq (h : t' = t) : t.NamedIn rs i t' := by
  subst h
  exact ⟨Or.inl rfl, Or.inl rfl, rfl, Or.inl rfl⟩

theorem trans (h : t.NamedIn rs i t') (h' : t'.NamedIn rs' i t'') :
    t.NamedIn (rs ++ rs') i t'' := by
  have hcolumn : ∀ {c c' c'' : TimeColumn} {P : Request → TimeColumn → Prop},
      (c' = c ∨ ∃ r ∈ rs, P r.2 c') → (c'' = c' ∨ ∃ r ∈ rs', P r.2 c'') →
        c'' = c ∨ ∃ r ∈ rs ++ rs', P r.2 c'' := by
    rintro c c' c'' P h (rfl | ⟨r, hr, hP⟩)
    · exact h.imp_right fun ⟨r, hr, hP⟩ => ⟨r, List.mem_append_left _ hr, hP⟩
    · exact Or.inr ⟨r, List.mem_append_right _ hr, hP⟩
  exact ⟨hcolumn (P := fun r => r.Names SqliteFs.SetAttr.atime i) h.atime h'.atime,
    hcolumn (P := fun r => r.Names SqliteFs.SetAttr.mtime i) h.mtime h'.mtime,
    h'.ctime.trans h.ctime,
    hcolumn (P := fun r => r.Names SqliteFs.SetAttr.crtime i) h.crtime h'.crtime⟩

end Times.NamedIn

namespace SqliteFs

open Proc

variable {s s' : SqliteFs X} {env : Env}

/-- A column that can be read is stored again as it was, where `datetime()` keeps its time. -/
theorem throughDatetime_of_read {c : TimeColumn} {t : SystemTime}
    (h : stringToSystemtime c = some t) (ht : (datetime t.sec).isSome) : t.throughDatetime = c := by
  obtain ⟨sec, hsec, rfl⟩ := Option.map_eq_some_iff.1 h
  obtain ⟨sec', hsec'⟩ := Option.isSome_iff_exists.1 ht
  obtain ⟨rfl, -⟩ := datetime_eq_some hsec'
  obtain ⟨text, nsec⟩ := c
  dsimp only at hsec hsec'
  rw [SystemTime.throughDatetime, hsec', hsec]

/-- What `setattr` stores in a column that it does not set to the time of the request. -/
theorem named_column {ino : ℕ} {req : SetAttr} {field : SetAttr → Option Timespec}
    {c : TimeColumn} {present t : SystemTime} (hread : stringToSystemtime c = some present)
    (hkept : (datetime present.sec).isSome) (ht : requestedTime present (field req) = some t) :
    t.throughDatetime = c ∨
      ∃ r ∈ [(env, Request.setattr ino req)], r.2.Names field (asU32 ino) t.throughDatetime := by
  cases hreq : field req with
  | none =>
    rw [hreq, requestedTime] at ht
    obtain rfl := Option.some.inj ht
    exact Or.inl (throughDatetime_of_read hread hkept)
  | some ts =>
    rw [hreq, requestedTime] at ht
    exact Or.inr ⟨_, List.mem_singleton_self _, ino, req, ts, t, rfl, rfl, hreq, ht, rfl⟩

theorem AttrSet.namesTimes {ino : ℕ} {req : SetAttr} {old attr : DBFileAttr}
    (h : AttrSet env s ino req old attr s') (hs : s.Visited)
    (hctime : old.ctime = (env.now .updateInode).1)
    (hmtime : old.size ≠ req.newSize old → old.mtime = (env.now .updateInode).1 ∨
      ∃ ts, req.mtime = some ts ∧ datetimeFrom ts = some (env.now .updateInode).1) :
    s.conn.NamesTimes [(env, .setattr ino req)] s'.conn := by
  obtain ⟨m₀, hm₀, hshows, -, -⟩ := Db.shown_eq_some_iff.1 h.shown
  obtain ⟨hat, hmt, hcrt, hattr⟩ := SetAttr.apply_eq_some h.apply
  obtain ⟨hkat, hkmt, hkcrt⟩ := hs.datetime_isSome h.shown
  have hino : attr.ino = asU32 ino := by
    rw [hattr]
    exact hshows.ino.trans (AuditedTable.key_of_find hm₀)
  have hsize : attr.size = req.newSize old := by rw [hattr]; rfl
  have hstored : ∀ t : SystemTime,
      t = (if old.size ≠ attr.size then (env.now .updateInode).1 else attr.mtime) →
      t.throughDatetime = m₀.mtime ∨ ∃ r ∈ [(env, Request.setattr ino req)],
        r.2.Names SetAttr.mtime (asU32 ino) t.throughDatetime := by
    rintro t rfl
    split_ifs with hne
    · rcases hmtime (hsize ▸ hne) with heq | ⟨ts, hts, ht⟩
      · rw [← heq]
        exact Or.inl (throughDatetime_of_read hshows.mtime hkmt)
      · exact Or.inr ⟨_, List.mem_singleton_self _, ino, req, ts, _, rfl, rfl, hts, ht, rfl⟩
    · exact named_column hshows.mtime hkmt hmt
  intro i m' _ hm'
  rw [h.set.row, hino] at hm'
  by_cases hi : i = asU32 ino
  · subst hi
    rw [if_pos rfl, hm₀, Option.map_some, Option.some.injEq] at hm'
    subst hm'
    refine ⟨m₀, hm₀, named_column hshows.atime hkat hat, hstored _ rfl, ?_,
      named_column hshows.crtime hkcrt hcrt⟩
    change (env.now .updateInode).1.throughDatetime = m₀.ctime
    rw [← hctime]
    exact throughDatetime_of_read hshows.ctime (hctime ▸ Now.datetime_isSome _)
  · rw [if_neg hi] at hm'
    exact ⟨m', hm', .of_eq rfl⟩

/-- Every request records no times but those it names. -/
theorem namesTimes_after (h : s.Visited) (hrec : s.db.timeRecording = false) (r : Env × Request)
    (hr : r.2.SetsOwnTimes r.1 s) : s.conn.NamesTimes [r] (s.after r).conn := by
  obtain ⟨env, r⟩ := r
  have hkept : ∀ {db' : Db X}, s.conn.KeepsTimes db' → s.conn.NamesTimes [(env, r)] db' := by
    intro db' hdb i m' hi hm'
    obtain ⟨m, hm, htimes⟩ := hdb.row i m' hi hm'
    exact ⟨m, hm, .of_eq htimes⟩
  have hI : HandlerInvariant env fun s' : SqliteFs X =>
      s'.db.timeRecording = false ∧ s.conn.KeepsTimes s'.conn :=
    ⟨fun _ _ h => h, fun hcall s' hs' => ⟨hs'.1, hs'.2.trans (hcall.keepsTimes hs'.1 s'.conn)⟩⟩
  have hstart := And.intro hrec (Db.KeepsTimes.refl s.conn)
  by_cases hopens : r.opensOrCloses = true
  · exact hkept (opens_keeps hI (fun _ _ _ h => h) hopens hstart).2
  by_cases hset : r.isSetattr = true
  swap
  · exact hkept (hI.handle (by simpa using hopens) (by simpa using hset) hstart).2
  cases r with
  | setattr ino req =>
    refine outcome_of_ensures (P := fun s' _ => s.conn.NamesTimes [(env, .setattr ino req)] s'.conn)
      ((setattr_spec ino req).mono ?_ fun _ _ he => ?_)
    · rintro reply s' ⟨old, attr, hset, -⟩
      obtain ⟨hctime, hmtime⟩ := hr hset.calls.1 hset.calls.2 old hset.shown
        (Option.isSome_iff_exists.2 ⟨attr, hset.apply⟩)
      exact hset.namesTimes h hctime hmtime
    · exact he.1 ▸ hkept (.refl s.conn)
  | _ => exact absurd hset (by simp [Request.isSetattr])

/-- No request of the run stores a reading of the clock. -/
def SetsOwnTimes (s : SqliteFs X) : List (Env × Request) → Prop
  | [] => True
  | r :: rs => r.2.SetsOwnTimes r.1 s ∧ (s.after r).SetsOwnTimes rs

theorem namesTimes_run (h : s.Visited) (hrec : s.db.timeRecording = false)
    (rs : List (Env × Request)) (hrs : s.SetsOwnTimes rs) :
      s.conn.NamesTimes rs (s.run rs).conn := by
  induction rs generalizing s with
  | nil => exact fun i m' _ hm' => ⟨m', hm', .of_eq rfl⟩
  | cons r rs ih =>
    have heffect := h.storable.1.handle_effect r
    intro i m' hi hm'
    obtain ⟨m₁, hm₁, hnamed⟩ := ih (h.handled r) (heffect.sameMount.db ▸ hrec) hrs.2 i m'
      (hi.trans heffect.sequence_le) hm'
    obtain ⟨m, hm, hnamed'⟩ := namesTimes_after h hrec r hrs.1 i m₁ hi hm₁
    exact ⟨m, hm, hnamed'.trans hnamed⟩

/-- **A mount that does not record times records none** in a run in which no request stores a
reading of the clock: of the inodes there before and after it, only times of access, modification
and creation have changed, and those are times that a `setattr` of the run has named. -/
theorem times_kept_of_run (h : s.Visited) (hrec : s.db.timeRecording = false)
    (rs : List (Env × Request)) (hrs : s.SetsOwnTimes rs) (i : ℕ) (m m' : MetadataRow)
    (hm : s.conn.metadata.find i = some m) (hm' : (s.run rs).conn.metadata.find i = some m') :
    m.times.NamedIn rs i m'.times := by
  obtain ⟨m₀, hm₀, hnamed⟩ := namesTimes_run h hrec rs hrs i m'
    (s.conn.sequence_bound i (by rw [hm]; rfl)) hm'
  obtain rfl := Option.some.inj (hm₀.symm.trans hm)
  exact hnamed

/-- A mount that does not record times. -/
def unrecorded : SqliteFs .sample :=
  newWithDb .newNoTimeRecording (Sqlite.newNoTimeRecording.init epoch (Db.empty .sample id)).1

theorem visited_unrecorded : unrecorded.Visited :=
  .mounted id (show newNoTimeRecording epoch (Db.empty .sample id) = some unrecorded from rfl)

/-- Surroundings a second after the epoch. -/
def laterEnv : Env := { Env.sample with now := fun _ => ⟨⟨1, 0⟩, by decide⟩ }

/-- The root gets another time of access at the epoch, and a directory a second later. -/
def touchedAndMade : List (Env × Request) :=
  [(.sample, .setattr 1 (touch ⟨7, 5⟩)), (laterEnv, .mkdir 1 [97] 0)]

/-- The time of access of the root is named and a directory is made in it. -/
theorem times_kept_of_run_sample : ∃ m m', unrecorded.conn.metadata.find 1 = some m ∧
    (unrecorded.run touchedAndMade).conn.metadata.find 1 = some m' ∧
      m.times.NamedIn touchedAndMade 1 m'.times := by
  obtain ⟨m, hm⟩ := Option.isSome_iff_exists.1
    (show (unrecorded.conn.metadata.find 1).isSome by decide)
  obtain ⟨m', hm'⟩ := Option.isSome_iff_exists.1
    (show ((unrecorded.run touchedAndMade).conn.metadata.find 1).isSome by decide)
  refine ⟨m, m', hm, hm', times_kept_of_run visited_unrecorded rfl touchedAndMade
    ⟨?_, trivial, trivial⟩ 1 m m' hm hm'⟩
  intro _ _ old hold _
  have hctime : (unrecorded.conn.shown 1).map DBFileAttr.ctime = some epoch.1 := by decide
  change unrecorded.conn.shown 1 = some old at hold
  rw [hold] at hctime
  exact ⟨Option.some.inj hctime, fun hsize => absurd rfl hsize⟩

/-- A change of the mode. -/
def chmod (mode : ℕ) : SetAttr := ⟨some mode, none, none, none, none, none, none, none⟩

/-- A change of the mode sets the time of the change. -/
theorem chmod_records_ctime : ∃ m m', unrecorded.conn.metadata.find 1 = some m ∧
    (unrecorded.run [(laterEnv, .setattr 1 (chmod 0o755))]).conn.metadata.find 1 = some m' ∧
      m'.ctime ≠ m.ctime :=
  ⟨_, _, rfl, rfl, by decide⟩

end SqliteFs

end TemporalFs
