import Mathlib
import TemporalFs.Db.Init
import TemporalFs.Db.Panics
import TemporalFs.Fs.Mounts

/-!
# Stored times

A request stores readings of the clock, and times that went through `datetime()`. What holds of
these holds of all stored times, in every state that a mount reaches.

A property of times is carried through the effects of a request: rows that an effect does not touch
keep their times, rows that it touches get readings of the clock, and `setattr` may give times of
its own, which `datetime()` has passed. The argument is made once for any property of times, and
used for those that the other modules need: that a time is a date, and that it can be stored again.

## Main definitions

* `Clockwork`: a property of such times; `ReadingsIn`: one of the readings alone.
* `TimeColumn.Storable`: a time that `datetime()` keeps.
* `SqliteFs.Visited`: the states of writable mounts, whatever the kernel sends.

## Main results

* `SqliteFs.Effect.allTimes_of`, `SqliteFs.Effect.allTimes`: such a property is kept by every
  request.
-/

namespace TemporalFs

variable {X : Externals}

/-- The readings of the clock and the times that went through `datetime()` satisfy `ok`. -/
structure Clockwork (ok : TimeColumn → Prop) : Prop where
  formatted : ∀ now : Now, ok now.1.formatted
  throughDatetime : ∀ t : SystemTime, ok t.throughDatetime

/-- The readings of the clock satisfy `ok`, before and after they went through `datetime()`. -/
structure ReadingsIn (ok : TimeColumn → Prop) : Prop where
  formatted : ∀ now : Now, ok now.1.formatted
  clockIn : ClockIn ok

theorem Clockwork.readings {ok : TimeColumn → Prop} (h : Clockwork ok) : ReadingsIn ok :=
  ⟨h.formatted, fun now => h.throughDatetime now.1⟩

theorem clockwork_dated : Clockwork TimeColumn.Dated where
  formatted now _ h := Option.some.inj h ▸ now.inChronoRange
  throughDatetime := SystemTime.dated_throughDatetime

/-- A stored time that `datetime()` keeps, where it can be read. -/
def TimeColumn.Storable (c : TimeColumn) : Prop := ∀ t, c.text = some t → datetime t = some t

theorem datetime_eq_some {t t' : ℤ} (h : datetime t = some t') : t' = t ∧ datetime t = some t := by
  unfold datetime at h ⊢
  split_ifs at h ⊢ with hin
  exact ⟨(Option.some.inj h).symm, rfl⟩

theorem Now.datetime_eq (now : Now) : datetime now.1.sec = some now.1.sec := by
  obtain ⟨t, ht⟩ := Option.isSome_iff_exists.1 now.datetime_isSome
  exact (datetime_eq_some ht).2

theorem clockwork_storable : Clockwork TimeColumn.Storable where
  formatted now sec h := Option.some.inj h ▸ now.datetime_eq
  throughDatetime t sec h := by
    obtain ⟨rfl, h⟩ := datetime_eq_some (show datetime t.sec = some sec from h)
    exact h

theorem AllTimes.collect {ok : TimeColumn → Prop} {db : Db X} (h : AllTimes ok db.metadata)
    (i : ℕ) : AllTimes ok (db.collect i).metadata := by
  intro j m hm
  unfold Db.collect at hm
  split_ifs at hm
  · rw [Db.metadata_find_deleteMetadata] at hm
    split_ifs at hm
    exact h j m hm
  · exact h j m hm

theorem AllTimes.deleteAll {ok : TimeColumn → Prop} {db : Db X} (h : AllTimes ok db.metadata)
    (l : List ℕ) : AllTimes ok (db.deleteAll l).metadata := by
  intro j m hm
  rw [Db.metadata_find_deleteAll] at hm
  split_ifs at hm
  exact h j m hm

theorem AllTimes.collects {ok : TimeColumn → Prop} (l : List ℕ) {db : Db X}
    (h : AllTimes ok db.metadata) : AllTimes ok (l.foldl Db.collect db).metadata := by
  induction l generalizing db with
  | nil => exact h
  | cons i l ih => exact ih (h.collect i)

theorem AllTimes.writeSteps {ok : TimeColumn → Prop} (hok : ClockIn ok) {i : ℕ} {db db' : Db X}
    (hsteps : Relation.ReflTransGen (Db.WriteStep i) db db') (h : AllTimes ok db.metadata) :
    AllTimes ok db'.metadata := by
  induction hsteps with
  | refl => exact h
  | tail _ hstep ih =>
    rcases hstep with hstep | ⟨k, bytes, size, hstep⟩
    · exact hstep.metadata.times ok hok ih
    · exact hstep.times ok hok ih

/-- The row of an inode that a handler makes. -/
theorem ReadingsIn.inserted {ok : TimeColumn → Prop} (h : ReadingsIn ok) (env : Env)
    (kind : FileType) (perm : UInt16) (gid : UInt32) (id : ℕ) :
    ((SqliteFs.newAttr env kind perm gid).inserted id).TimesIn ok :=
  ⟨h.formatted _, h.formatted _, h.formatted _, h.formatted _⟩

namespace SqliteFs

open Proc

variable {env : Env} {s s' : SqliteFs X} {r : Request} {out : Outcome}

theorem Finishes.allTimes {ok : TimeColumn → Prop} {db : Db X} {res : Option ℕ}
    (h : s.Finishes env db res s' out) (hdb : AllTimes ok db.metadata) :
    AllTimes ok s'.conn.metadata := by
  rcases h.conn_eq_or with h | ⟨j, -, h⟩
  · exact h ▸ hdb
  · exact h ▸ hdb.collect j

/-- **A request stores no other times** than readings of the clock and those of a `setattr`. -/
theorem Effect.allTimes_of {ok : TimeColumn → Prop} (hclock : ReadingsIn ok)
    (hset : ∀ ino req old attr, r = .setattr ino req →
      inodeAttr (asU32 ino) s.conn = .ok (some old) →
      req.Applied old attr → ok attr.atime.throughDatetime ∧ ok attr.mtime.throughDatetime ∧
        ok attr.crtime.throughDatetime)
    (h : Effect env s r s' out) (hs : AllTimes ok s.conn.metadata) :
    AllTimes ok s'.conn.metadata := by
  have hok := hclock.clockIn
  have hadded : ∀ {kind perm gid child p n} {db₁ db₂ : Db X}, s.conn.SameUpTo .atimeless db₁ →
      db₁.Added p n (newAttr env kind perm gid) child db₂ →
        AllTimes ok db₂.metadata := fun hdb hadd =>
    hadd.times _ hok (hclock.inserted ..) (hdb.metadata.times _ hok hs)
  cases h with
  | quiet h => exact h.conn.metadata.times _ hok hs
  | looked_up _ hdb _ hs' => exact hs'.conn_eq ▸ hdb.metadata.times _ hok hs
  | made _ hdb hadd hcont hs' =>
    rw [hs'.conn_eq]
    rcases hcont with rfl | ⟨link, -, -, hlink⟩
    · exact hadded hdb hadd
    · exact hlink.times _ hok (hadded hdb hadd)
  | half_made _ hdb hadd hs' => exact hs' ▸ hadded hdb hadd
  | linked h hs' => exact hs'.conn_eq ▸ h.rest.metadata.times _ hok hs
  | removed _ hdb h _ hs' =>
    exact hs'.allTimes (h.rest.metadata.times _ hok (hdb.metadata.times _ hok hs))
  | renamed _ h hs' => exact hs'.allTimes (h.rest.metadata.times _ hok hs)
  | renamed_onto_itself _ h hs' => exact hs'.allTimes (h.rest.metadata.times _ hok hs)
  | forgot h =>
    cases h with
    | ignored => exact hs
    | counted_down _ _ hconn =>
      rw [hconn]
      split_ifs
      · exact hs.collect _
      · exact hs
    | too_much _ _ _ hconn => exact hconn ▸ hs
  | swept _ hs' => exact hs' ▸ hs.deleteAll _
  | destroyed _ hs' => exact hs' ▸ AllTimes.collects _ hs
  | wrote h hs' => exact hs' ▸ AllTimes.writeSteps hok h hs
  | updated hold hattr h hs' =>
    obtain ⟨hat, hmt, hcrt⟩ := hset _ _ _ _ rfl hold hattr
    exact hs' ▸ h.times _ hok hat hmt hcrt hs
  | xattr_changed _ h hs' => exact hs' ▸ h.metadata.times _ hok hs

theorem Effect.allTimes {ok : TimeColumn → Prop} (hclock : Clockwork ok)
    (h : Effect env s r s' out) (hs : AllTimes ok s.conn.metadata) :
    AllTimes ok s'.conn.metadata :=
  h.allTimes_of hclock.readings (fun _ _ _ _ _ _ _ => ⟨hclock.throughDatetime _,
    hclock.throughDatetime _, hclock.throughDatetime _⟩) hs

/-! ### States of writable mounts -/

theorem allTimes_empty (ok : TimeColumn → Prop) (clock : ℕ → ℕ) :
    AllTimes ok (Db.empty X clock).metadata := fun i m hm => by
  simp [Db.empty] at hm

theorem allTimes_init {ok : TimeColumn → Prop} (hclock : ReadingsIn ok) (self : Sqlite) (now : Now)
    (db : Db X) (hdb : db.sqliteSequence < 2 ^ 32) (hok : AllTimes ok db.metadata) :
    (self.init now).Ensures db
      (fun _ db' => db'.sqliteSequence < 2 ^ 32 ∧ AllTimes ok db'.metadata) (fun _ _ => True) := by
  refine self.init_ensures (I := fun db' : Db X =>
    db'.sqliteSequence < 2 ^ 32 ∧ AllTimes ok db'.metadata) now (fun db h => ?_)
      (fun n _ db h => ?_) (fun _ _ h => h) ⟨hdb, hok⟩
  · refine (addInodeLocal_spec db _).mono (fun child db' hadd => ?_) fun _ _ h => h
    obtain ⟨-, hlt, -, -, -, hs, hm⟩ := hadd
    refine ⟨hs.trans_lt hlt, fun i m hi => ?_⟩
    rw [hm] at hi
    split_ifs at hi
    · obtain rfl := Option.some.inj hi
      exact ⟨hclock.formatted now, hclock.formatted now, hclock.formatted now, hclock.formatted now⟩
    · exact h.2 i m hi
  · refine (addDentry_spec db _).mono (fun _ db' hadd => ?_) fun _ _ _ => trivial
    exact ⟨hadd.2.2.2.2.2.1.trans_lt h.1, hadd.2.2.1 ▸ h.2⟩

theorem allTimes_of_mount {ok : TimeColumn → Prop} (hclock : ReadingsIn ok) {db : Sqlite}
    {now : Now} {conn : Db X} (h : mount db now conn false false = some s)
    (hlt : conn.sqliteSequence < 2 ^ 32) (hok : AllTimes ok conn.metadata) :
    s.WritableMount ∧ AllTimes ok s.conn.metadata := by
  obtain ⟨conn', ⟨hlt', hok'⟩, rfl⟩ := opened_of_mount h (allTimes_init hclock db now conn hlt hok)
  exact ⟨⟨rfl, rfl, hlt'⟩, hok'⟩

/-- The states of writable mounts of a database made by `init`, whatever the kernel sends. -/
inductive Visited : SqliteFs X → Prop
  | mounted {s : SqliteFs X} {db : Sqlite} {now : Now} (clock : ℕ → ℕ)
      (h : mount db now (Db.empty X clock) false false = some s) : Visited s
  | handled {s : SqliteFs X} (h : Visited s) (r : Env × Request) : Visited (s.after r)
  | remounted {s s' : SqliteFs X} {db : Sqlite} {now : Now} (h : Visited s)
      (hs : mount db now s.conn false false = some s') : Visited s'

/-- **The stored times are kept by `datetime()`**, where they can be read, in every state. -/
theorem Visited.storable (h : s.Visited) :
    s.WritableMount ∧ AllTimes TimeColumn.Storable s.conn.metadata := by
  induction h with
  | mounted clock h =>
    exact allTimes_of_mount clockwork_storable.readings h (show 0 < 2 ^ 32 by decide)
      (allTimes_empty _ clock)
  | handled h r ih => exact ⟨ih.1.after r, (ih.1.handle_effect r).allTimes clockwork_storable ih.2⟩
  | remounted h hs ih =>
    exact allTimes_of_mount clockwork_storable.readings hs ih.1.sequence_lt ih.2

theorem visited_sample : sample.Visited :=
  .mounted id (show mount .new epoch (Db.empty .sample id) false false = some sample from rfl)

end SqliteFs

end TemporalFs
