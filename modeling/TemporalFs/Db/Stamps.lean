import Mathlib
import TemporalFs.Db.Contents

/-!
# Which times the methods record

A method that records times sets some of them, of some inodes, to its reading of the clock. On a
connection that does not record times it sets none, but for `updateInode`, which stores the times
that it is given and always its reading of the clock as the time of the change.

The inodes are those that had a number before the call; numbers are not used twice.

## Main definitions

* `Times`: the times of a row; `Stamps`: the inodes whose times are set.
* `Db.Stamped`: the times after a call; `Sqlite.recorded`: what a connection records.

## Main results

* `Sqlite.linkDentry_stamps`, `Sqlite.moveDentry_stamps` and so on: what each method records.
* `Sqlite.updateInode_row`: the row that `updateInode` leaves.
-/

namespace TemporalFs

variable {X : Externals}

/-- The times of a row. -/
@[ext]
structure Times where
  atime : TimeColumn
  mtime : TimeColumn
  ctime : TimeColumn
  crtime : TimeColumn

/-- The four times of a row. -/
def MetadataRow.times (m : MetadataRow) : Times := ⟨m.atime, m.mtime, m.ctime, m.crtime⟩

/-- The inodes whose times of access, modification and change are set. -/
@[ext]
structure Stamps where
  atime : Finset ℕ
  mtime : Finset ℕ
  ctime : Finset ℕ

/-- No time of any inode is set. -/
def Stamps.none : Stamps := ⟨∅, ∅, ∅⟩

/-- The times of the inode `i` after the stamps at `now`. -/
def Times.stamped (now : Now) (S : Stamps) (i : ℕ) (t : Times) : Times where
  atime := if i ∈ S.atime then now.1.throughDatetime else t.atime
  mtime := if i ∈ S.mtime then now.1.throughDatetime else t.mtime
  ctime := if i ∈ S.ctime then now.1.throughDatetime else t.ctime
  crtime := t.crtime

/-- The inodes of `db` that are left in `db'` have the times of `db`, but for the stamps. -/
structure Db.Stamped (now : Now) (S : Stamps) (db db' : Db X) : Prop where
  sequence_le : db.sqliteSequence ≤ db'.sqliteSequence
  row : ∀ i m', i ≤ db.sqliteSequence → db'.metadata.find i = some m' →
    ∃ m, db.metadata.find i = some m ∧ m'.times = m.times.stamped now S i

namespace Db.Stamped

variable {now now' : Now} {S : Stamps} {db db' db'' : Db X}

variable (now) in
theorem of_metadata (hm : db'.metadata = db.metadata)
    (hs : db'.sqliteSequence = db.sqliteSequence) : db.Stamped now .none db' :=
  ⟨hs.ge, fun _ m' _ hm' => ⟨m', hm ▸ hm', rfl⟩⟩

variable (now) in
theorem of_sameButDentry (h : db.SameButDentry id db') : db.Stamped now .none db' :=
  ⟨h.sqliteSequence.ge, fun i m' _ hm' => ⟨m', by simpa [hm'] using (h.metadata.find i).symm, rfl⟩⟩

theorem refl (now : Now) (db : Db X) : db.Stamped now .none db := of_metadata now rfl rfl

/-- What the first call stamps is not touched by the second. -/
theorem trans_none (h : db.Stamped now S db') (h' : db'.Stamped now' .none db'') :
    db.Stamped now S db'' where
  sequence_le := h.sequence_le.trans h'.sequence_le
  row i m'' hi hm'' := by
    obtain ⟨m', hm', ht'⟩ := h'.row i m'' (hi.trans h.sequence_le) hm''
    obtain ⟨m, hm, ht⟩ := h.row i m' hi hm'
    exact ⟨m, hm, ht'.trans ht⟩

/-- The order and the number of the stamps do not matter. -/
theorem congr {S' : Stamps} (h : db.Stamped now S db') (hS : S = S') : db.Stamped now S' db' :=
  hS ▸ h

/-- A change of one row that sets some of its times. -/
theorem updateMetadata {S' : Stamps} (h : db.Stamped now S db') (i : ℕ)
    (f : MetadataRow → MetadataRow)
    (hf : ∀ (m : MetadataRow) (t : Times), m.times = t.stamped now S i →
      (f m).times = t.stamped now S' i)
    (hS : ∀ j ≠ i, ∀ t : Times, t.stamped now S' j = t.stamped now S j) :
    db.Stamped now S' (db'.updateMetadata i f) where
  sequence_le := h.sequence_le
  row j m' hj hm' := by
    rw [Db.metadata_find_updateMetadata] at hm'
    by_cases hji : j = i
    · rw [if_pos hji] at hm'
      obtain ⟨m₁, hm₁, rfl⟩ := Option.map_eq_some_iff.1 hm'
      obtain ⟨m, hm, ht⟩ := h.row j m₁ hj (hji ▸ hm₁)
      exact ⟨m, hm, hji ▸ hf m₁ m.times (hji ▸ ht)⟩
    · rw [if_neg hji] at hm'
      obtain ⟨m, hm, ht⟩ := h.row j m' hj hm'
      exact ⟨m, hm, ht.trans (hS j hji m.times).symm⟩

theorem deleteMetadata (db : Db X) (i : ℕ) : db.Stamped now .none (db.deleteMetadata i) where
  sequence_le := (db.sqliteSequence_deleteMetadata i).ge
  row j m' _ hm' := by
    rw [Db.metadata_find_deleteMetadata] at hm'
    split_ifs at hm'
    exact ⟨m', hm', rfl⟩

theorem collect (db : Db X) (i : ℕ) : db.Stamped now .none (db.collect i) := by
  unfold Db.collect
  split_ifs
  · exact deleteMetadata db i
  · exact refl now db

theorem foldl {β : Type} {f : Db X → β → Db X} (hf : ∀ (db : Db X) b, db.Stamped now .none (f db b))
    (l : List β) (db : Db X) : db.Stamped now .none (l.foldl f db) := by
  induction l generalizing db with
  | nil => exact refl now db
  | cons b l ih => exact (hf db b).trans_none (ih _)

end Db.Stamped

open Proc

/-! ### Rules for the statements -/

section Rules

variable {Q : Unit → Db X → Prop} {E : Stop → Db X → Prop} {now : Now} {S : Stamps}
  {db db' : Db X}

theorem ensures_updateAtime_stamped (i : ℕ) (h : db.Stamped now S db')
    (hQ : ∀ db'', db.Stamped now { S with atime := insert i S.atime } db'' → Q () db'') :
    (updateAtime i now).Ensures db' Q E := by
  refine hQ _ (h.updateMetadata i _ (fun m t ht => ?_) fun j hj t => ?_)
  · rw [Times.ext_iff] at ht ⊢
    exact ⟨by simp [MetadataRow.times, Times.stamped], ht.2⟩
  · simp [Times.stamped, hj]

theorem ensures_updateMtime_stamped (i : ℕ) (h : db.Stamped now S db')
    (hQ : ∀ db'', db.Stamped now { S with mtime := insert i S.mtime } db'' → Q () db'') :
    (updateMtime i now).Ensures db' Q E := by
  refine hQ _ (h.updateMetadata i _ (fun m t ht => ?_) fun j hj t => ?_)
  · rw [Times.ext_iff] at ht ⊢
    exact ⟨ht.1, by simp [MetadataRow.times, Times.stamped], ht.2.2⟩
  · simp [Times.stamped, hj]

theorem ensures_updateCtime_stamped (i : ℕ) (h : db.Stamped now S db')
    (hQ : ∀ db'', db.Stamped now { S with ctime := insert i S.ctime } db'' → Q () db'') :
    (updateCtime i now).Ensures db' Q E := by
  refine hQ _ (h.updateMetadata i _ (fun m t ht => ?_) fun j hj t => ?_)
  · rw [Times.ext_iff] at ht ⊢
    exact ⟨ht.1, ht.2.1, by simp [MetadataRow.times, Times.stamped], ht.2.2.2⟩
  · simp [Times.stamped, hj]

end Rules

/-! ### The methods -/

namespace Sqlite

variable (self : Sqlite)

/-- The stamps `S`, if the connection records times. -/
def recorded (S : Stamps) : Stamps := if self.timeRecording then S else .none

theorem recorded_of_recording {self : Sqlite} (h : self.timeRecording = true) (S : Stamps) :
    self.recorded S = S :=
  if_pos h

theorem recorded_of_not_recording {self : Sqlite} (h : self.timeRecording = false) (S : Stamps) :
    self.recorded S = .none :=
  if_neg (by simp [h])

variable {Q : Unit → Db X → Prop} {E : Stop → Db X → Prop} {now : Now} {S : Stamps}
  {db db' : Db X}

/-- The end of a method, where the times are recorded. -/
theorem ensures_recorded {x : Conn X Unit} (h : db.Stamped now .none db')
    (hx : x.Ensures db' (fun _ db'' => db.Stamped now S db'') E) :
    (Proc.when self.timeRecording x).Ensures db'
      (fun _ db'' => db.Stamped now (self.recorded S) db'') E := by
  refine (ensures_when _ _).2 ⟨fun hrec => hx.mono (fun _ _ h => ?_) fun _ _ h => h, fun hrec => ?_⟩
  · exact h.congr (recorded_of_recording hrec S).symm
  · exact h.congr (recorded_of_not_recording (by simpa using hrec) S).symm

variable (now) (db)

theorem lookup_stamps (p : ℕ) (n : Name) :
    (self.lookup now p n).Ensures db
      (fun _ db' => db.Stamped now (self.recorded ⟨{p}, ∅, ∅⟩) db')
      (fun _ db' => db.Stamped now (self.recorded ⟨{p}, ∅, ∅⟩) db') := by
  unfold lookup
  simp only [ensures_bind, ensures_get]
  refine (self.ensures_recorded (E := fun _ db' => db.Stamped now _ db') (.refl now db)
    (ensures_updateAtime_stamped p (.refl now db) fun _ h => h)).mono (fun _ db' h => ?_)
    fun _ _ h => h
  exact (ensures_query _ db').2 ⟨fun _ _ => h, fun _ _ => h⟩

theorem getData_stamps (i k length : ℕ) :
    (self.getData now i k length).Ensures db
      (fun _ db' => db.Stamped now (if self.readOnly then .none else self.recorded ⟨{i}, ∅, ∅⟩) db')
      (fun _ _ => False) := by
  unfold getData
  simp only [ensures_atomically, ensures_bind, ensures_get, ensures_pure]
  refine (ensures_when _ _).2 ⟨fun hy => ?_, fun hn => ?_⟩
  · rw [if_neg hy.1, recorded_of_recording hy.2]
    exact ensures_updateAtime_stamped i (.refl now db) fun _ h => h
  · by_cases hro : self.readOnly = true
    · exact (Db.Stamped.refl now db).congr (if_pos hro).symm
    · rw [if_neg hro, recorded_of_not_recording (by simpa using fun h => hn ⟨hro, h⟩)]
      exact .refl now db

theorem addInodeAndDentry_stamps (p : ℕ) (n : Name) (attr : DBFileAttr) :
    (self.addInodeAndDentry now p n attr).Ensures db
      (fun _ db' => db.Stamped now (self.recorded ⟨∅, {p}, {p}⟩) db') (fun _ db' => db' = db) := by
  unfold addInodeAndDentry
  simp only [ensures_atomically, ensures_bind, ensures_pure]
  refine (addInodeLocal_spec db attr).mono (fun child db₁ h₁ => ?_) fun _ _ _ => trivial
  obtain ⟨hchild, -, -, -, -, hs₁, hm₁⟩ := h₁
  have hstamp₁ : db.Stamped now .none db₁ := by
    refine ⟨by omega, fun i m' hi hm' => ?_⟩
    rw [hm₁, if_neg (by omega)] at hm'
    exact ⟨m', hm', rfl⟩
  refine (addDentry_spec db₁ _).mono (fun _ db₂ h₂ => ?_) fun _ _ _ => trivial
  have hstamp₂ := hstamp₁.trans_none (.of_metadata now h₂.2.2.1 h₂.2.2.2.2.2.1)
  have hend : ∀ db₃ : Db X, db.Stamped now .none db₃ →
      (Proc.when self.timeRecording do
        updateMtime p now
        updateCtime p now).Ensures db₃
          (fun _ db' => db.Stamped now (self.recorded ⟨∅, {p}, {p}⟩) db') (fun _ _ => True) := by
    intro db₃ h₃
    refine self.ensures_recorded h₃ ((ensures_bind _ _).2 ?_)
    exact ensures_updateMtime_stamped p h₃ fun _ h₄ =>
      ensures_updateCtime_stamped p h₄ fun _ h₅ => h₅
  refine (ensures_when _ _).2 ⟨fun _ => (ensures_bind _ _).2 ?_, fun _ => hend db₂ hstamp₂⟩
  refine (addDentry_spec db₂ _).mono (fun _ db₃ h₃ => ?_) fun _ _ _ => trivial
  refine (addDentry_spec db₃ _).mono (fun _ db₄ h₄ => ?_) fun _ _ _ => trivial
  have hstamp₃ := hstamp₂.trans_none (.of_metadata now h₃.2.2.1 h₃.2.2.2.2.2.1)
  exact hend db₄ (hstamp₃.trans_none (.of_metadata now h₄.2.2.1 h₄.2.2.2.2.2.1))

theorem linkDentry_stamps (i p : ℕ) (n : Name) :
    (self.linkDentry now i p n).Ensures db
      (fun _ db' => db.Stamped now (self.recorded ⟨∅, {i, p}, {p}⟩) db')
        (fun _ db' => db' = db) := by
  unfold linkDentry
  simp only [ensures_atomically, ensures_bind, ensures_ofOption, ensures_require, ensures_pure]
  refine (getInodeLocal_spec db i).mono (fun found db₁ h₁ => ?_) fun _ _ _ => trivial
  refine ⟨fun attr _ => ⟨fun _ => ?_, fun _ => trivial⟩, fun _ => trivial⟩
  refine (getDentrySingle_spec db₁ p n).mono (fun new_inode db₂ h₂ => ?_) fun _ _ h => h.elim
  refine ⟨fun _ => ?_, fun _ => trivial⟩
  obtain rfl := h₂.1.trans h₁.1
  refine (addDentry_spec db₂ _).mono (fun _ db₃ h₃ => ?_) fun _ _ _ => trivial
  have hstamp := Db.Stamped.of_metadata now h₃.2.2.1 h₃.2.2.2.2.2.1
  refine self.ensures_recorded hstamp ((ensures_bind _ _).2 ?_)
  refine ensures_updateMtime_stamped i hstamp fun _ h₄ => (ensures_bind _ _).2 ?_
  refine ensures_updateMtime_stamped p h₄ fun _ h₅ => ?_
  refine ensures_updateCtime_stamped p h₅ fun _ h₆ => h₆.congr ?_
  simp only [Stamps.none, insert_empty_eq, Finset.pair_comm]

theorem deleteDentry_stamps (p : ℕ) (n : Name) :
    (self.deleteDentry now p n).Ensures db
      (fun child db' => db.Stamped now (self.recorded ⟨∅, {p}, {child, p}⟩) db')
      (fun _ db' => db' = db) := by
  unfold deleteDentry
  simp only [ensures_atomically, ensures_bind, ensures_get, ensures_ofOption, ensures_pure]
  refine ⟨fun e _ => ?_, fun _ => trivial⟩
  refine (deleteDentryLocal_spec db id p n).mono (fun _ db₁ h₁ => ?_) fun _ _ h => h.elim
  refine (deleteSubDentry_spec db₁ id e.childId).mono (fun _ db₂ h₂ => ?_) fun _ _ h => h.elim
  have hstamp := Db.Stamped.of_sameButDentry now (h₁.1.trans h₂.1)
  refine self.ensures_recorded hstamp ((ensures_bind _ _).2 ?_)
  refine ensures_updateCtime_stamped e.childId hstamp fun _ h₃ => (ensures_bind _ _).2 ?_
  refine ensures_updateMtime_stamped p h₃ fun _ h₄ => ?_
  refine ensures_updateCtime_stamped p h₄ fun _ h₅ => h₅.congr ?_
  simp only [Stamps.none, insert_empty_eq, Finset.pair_comm]

theorem moveDentry_stamps (p : ℕ) (n : Name) (p' : ℕ) (n' : Name) :
    (self.moveDentry now p n p' n').Ensures db
      (fun _ db' => ∃ e, db.dentry.find (p, n) = some e ∧
        db.Stamped now (self.recorded ⟨∅, {p, p'}, {e.childId, p, p'}⟩) db')
      (fun _ db' => db' = db) := by
  unfold moveDentry
  simp only [ensures_atomically, ensures_bind, ensures_ofOption, ensures_pure]
  refine (getDentrySingle_spec db p n).mono (fun entry db₀ h₀ => ?_) fun _ _ h => h.elim
  obtain ⟨rfl, hentry⟩ := h₀
  refine ⟨fun dentry hd => ?_, fun _ => trivial⟩
  rw [hd] at hentry
  obtain ⟨e, he, rfl⟩ := Option.map_eq_some_iff.1 hentry.symm
  refine (getDentrySingle_spec db₀ p' n').mono (fun exist db₁ h₁ => ?_) fun _ _ h => h.elim
  obtain ⟨rfl, rfl⟩ := h₁
  refine (overwriteDentry_spec db₁ id e.fileType p' n').mono (fun res db₂ h₂ => ?_)
    fun _ _ _ => trivial
  have hstamp₂ := Db.Stamped.of_sameButDentry now h₂.2.2.1
  have hstep : ∀ {db₃ db₄ : Db X} {k : ℕ} {name : Name} {g : DentryRow → DentryRow},
      db₁.Stamped now .none db₃ → db₃.updateDentry k name g = some db₄ →
        db₁.Stamped now .none db₄ := by
    intro db₃ db₄ k name g h₃ h₄
    cases hx : db₃.dentry.find (k, name) with
    | none =>
      rw [Db.updateDentry_of_find_none hx] at h₄
      exact Option.some.inj h₄ ▸ h₃
    | some x =>
      obtain ⟨-, -, hm, -, -, -, hs⟩ := Db.updateDentry_eq_some hx h₄
      exact h₃.trans_none (.of_metadata now hm hs)
  have hend : ∀ db₃ : Db X, db₁.Stamped now .none db₃ →
      (Proc.when self.timeRecording do
        updateCtime e.childId now
        updateMtime p now
        updateCtime p now
        Proc.when (p ≠ p') do
          updateMtime p' now
          updateCtime p' now).Ensures db₃
        (fun _ db' => ∃ e, db₁.dentry.find (p, n) = some e ∧
          db₁.Stamped now (self.recorded ⟨∅, {p, p'}, {e.childId, p, p'}⟩) db')
        (fun _ _ => True) := by
    intro db₃ h₃
    refine (self.ensures_recorded h₃ (E := fun _ _ => True) ?_).mono (fun _ _ h => ⟨e, he, h⟩)
      fun _ _ h => h
    refine (ensures_bind _ _).2 (ensures_updateCtime_stamped e.childId h₃ fun _ h₄ => ?_)
    refine (ensures_bind _ _).2 (ensures_updateMtime_stamped p h₄ fun _ h₅ => ?_)
    refine (ensures_bind _ _).2 (ensures_updateCtime_stamped p h₅ fun _ h₆ => ?_)
    refine (ensures_when _ _).2 ⟨fun _ => (ensures_bind _ _).2 ?_, fun hpp => h₆.congr ?_⟩
    · refine ensures_updateMtime_stamped p' h₆ fun _ h₇ => ?_
      refine ensures_updateCtime_stamped p' h₇ fun _ h₈ => h₈.congr ?_
      ext i <;> simp only [Stamps.none, Finset.mem_insert, Finset.notMem_empty,
        Finset.mem_singleton] <;> tauto
    · obtain rfl := not_not.1 hpp
      ext i <;> simp only [Stamps.none, Finset.mem_insert, Finset.notMem_empty,
        Finset.mem_singleton] <;> tauto
  refine (ensures_step _ _).2 ⟨fun db₃ h₃ => ?_, fun _ => trivial⟩
  have hstamp₃ := hstep hstamp₂ h₃
  refine (ensures_when _ _).2 ⟨fun _ => ?_, fun _ => hend db₃ hstamp₃⟩
  exact (ensures_step _ _).2 ⟨fun db₄ h₄ => hend db₄ (hstep hstamp₃ h₄), fun _ => trivial⟩

theorem writeData_stamps (i k : ℕ) (data : Bytes) (size : UInt32) :
    (self.writeData now i k data size).Ensures db
      (fun _ db' => db.Stamped now (self.recorded ⟨∅, {i}, {i}⟩) db') (fun _ db' => db' = db) := by
  unfold writeData execute executeAll
  simp only [ensures_atomically, ensures_bind, ensures_get, ensures_ofOption, ensures_require]
  refine ⟨fun row _ => ⟨fun _ => ?_, fun _ => trivial⟩, fun _ => trivial⟩
  refine (ensures_step _ _).2 ⟨fun db₁ h₁ => ?_, fun _ => trivial⟩
  obtain ⟨-, hm₁, -, -, hs₁, -⟩ := Db.upsertData_eq_some h₁
  have hstamp₁ := Db.Stamped.of_metadata now hm₁ hs₁
  have hend : ∀ db₂ : Db X, db.Stamped now .none db₂ →
      (Proc.when self.timeRecording do
        updateMtime i now
        updateCtime i now).Ensures db₂
          (fun _ db' => db.Stamped now (self.recorded ⟨∅, {i}, {i}⟩) db') (fun _ _ => True) := by
    intro db₂ h₂
    refine self.ensures_recorded h₂ ((ensures_bind _ _).2 ?_)
    exact ensures_updateMtime_stamped i h₂ fun _ h₃ =>
      ensures_updateCtime_stamped i h₃ fun _ h₄ => h₄
  refine (ensures_when _ _).2 ⟨fun _ => ?_, fun _ => hend db₁ hstamp₁⟩
  exact hend _ (hstamp₁.updateMetadata i _ (fun _ _ h => h) fun _ _ _ => rfl)

theorem setXattr_stamps (i : ℕ) (key : Name) (value : Bytes) :
    (self.setXattr now i key value).Ensures db
      (fun _ db' => db.Stamped now (self.recorded ⟨∅, ∅, {i}⟩) db') (fun _ db' => db' = db) := by
  unfold setXattr execute
  simp only [ensures_atomically, ensures_bind]
  refine (ensures_step _ _).2 ⟨fun db₁ h₁ => ?_, fun _ => trivial⟩
  obtain ⟨-, hm₁, -, -, -, hs₁⟩ := Db.replaceXattr_eq_some h₁
  have hstamp₁ := Db.Stamped.of_metadata now hm₁ hs₁
  exact self.ensures_recorded hstamp₁ (ensures_updateCtime_stamped i hstamp₁ fun _ h => h)

theorem deleteXattr_stamps (i : ℕ) (key : Name) :
    (self.deleteXattr now i key).Ensures db
      (fun _ db' => db.Stamped now (self.recorded ⟨∅, ∅, {i}⟩) db') (fun _ _ => False) := by
  unfold deleteXattr executeAll
  simp only [ensures_atomically, ensures_bind, ensures_modify]
  have hstamp₁ : db.Stamped now .none (db.deleteXattrRow i key) := .of_metadata now rfl rfl
  exact self.ensures_recorded hstamp₁ (ensures_updateCtime_stamped i hstamp₁ fun _ h => h)

/-- The row that `updateInode` leaves, where the inode had the attributes `old`. -/
structure InodeSet (now : Now) (old attr : DBFileAttr) (truncate : Bool) (db db' : Db X) :
    Prop where
  found : inodeAttr attr.ino db = .ok (some old)
  row : ∀ j, db'.metadata.find j = if j = attr.ino then (db.metadata.find attr.ino).map
    (setInode attr attr.atime (if old.size ≠ attr.size then now.1 else attr.mtime) now.1
      attr.crtime) else db.metadata.find j
  data : truncate = false → db'.data = db.data

theorem updateInode_row (attr : DBFileAttr) (truncate : Bool) :
    (self.updateInode now attr truncate).Ensures db
      (fun _ db' => ∃ old, InodeSet now old attr truncate db db') (fun _ db' => db' = db) := by
  unfold updateInode utcFrom executeAll
  simp only [ensures_atomically, ensures_bind, ensures_ofOption]
  refine (getInodeLocal_spec db attr.ino).mono (fun found db₁ h₁ => ?_) fun _ _ _ => trivial
  obtain ⟨rfl, hfound⟩ := h₁
  refine ⟨fun old hold => ?_, fun _ => trivial⟩
  subst hold
  obtain ⟨m₀, hm₀, -⟩ := inodeAttr_eq_ok_some hfound
  have hdone : ∀ mtime : SystemTime,
      mtime = (if old.size ≠ attr.size then now.1 else attr.mtime) →
      (Proc.when truncate (TemporalFs.releaseData attr.ino attr.size)).Ensures
        (db₁.updateMetadata attr.ino (setInode attr attr.atime mtime now.1 attr.crtime))
        (fun _ db' => ∃ old, InodeSet now old attr truncate db₁ db') (fun _ _ => True) := by
    rintro mtime rfl
    generalize hmtime : (if old.size ≠ attr.size then now.1 else attr.mtime) = mtime
    have hrow := Db.metadata_find_updateMetadata db₁ attr.ino
      (setInode attr attr.atime mtime now.1 attr.crtime)
    refine (ensures_when _ _).2 ⟨fun htrunc => ?_, fun _ => ?_⟩
    · refine (releaseData_spec _ attr.ino attr.size ?_).mono (fun _ db' h => ?_) fun _ _ h => h.elim
      · rw [hrow, if_pos rfl, hm₀]
        rfl
      · refine ⟨old, hfound, fun j => ?_, fun hf => absurd (hf.symm.trans htrunc) (by decide)⟩
        rw [h.1, hrow, hmtime]
        rfl
    · refine ⟨old, hfound, fun j => ?_, fun _ => rfl⟩
      rw [hrow, hmtime]
      rfl
  simp only [ensures_bind, ensures_require, ensures_pure, ensures_modify, ensures_ite]
  exact ⟨fun _ => ⟨fun hsize => ⟨fun _ => hdone _ (if_pos hsize).symm, fun _ => trivial⟩,
    fun hsize => ⟨fun _ => ⟨fun _ => hdone _ (if_neg hsize).symm, fun _ => trivial⟩,
      fun _ => trivial⟩⟩, fun _ => trivial⟩

end Sqlite

end TemporalFs
