import Mathlib
import TemporalFs.Db.Methods
import TemporalFs.Db.Effects

/-!
# Initialised databases

`Sqlite::init` adds the root directory and its entries `.` and `..` where they are missing, and
builds the table `bdata`. On a new database it leaves the root alone; where the root is in place it
leaves the live tables as they are.

A mount calls `init` whatever the database holds, so that both cases are needed: the first mount of
a run starts from the empty tables, every later one from what the mount before has left. The blocks
of `bdata` are rebuilt from the log each time, and whether that succeeds is not looked at.

## Main definitions

* `Db.RootInPlace`: the root directory and its own entries are in place.
* `Db.OnlyRoot`: what a new database holds after `init`.

## Main results

* `Sqlite.init_of_rootInPlace`: `init` on a database that is initialised already.
* `Db.onlyRoot_initialised`: `init` on a new database.
-/

namespace TemporalFs

open Proc

variable {X : Externals}

/-- The root directory and its own entries are in place. -/
structure Db.RootInPlace (db : Db X) : Prop where
  root : (db.metadata.find 1).isSome
  dot : db.dentry.find (1, dot) = some ⟨1, 1, .Directory, TemporalFs.dot⟩
  dotdot : db.dentry.find (1, dotdot) = some ⟨1, 1, .Directory, TemporalFs.dotdot⟩

/-- On an initialised database `init` only builds the table `bdata`. -/
theorem Sqlite.init_eq_of_rootInPlace (self : Sqlite) (now : Now) {db : Db X}
    (h : db.RootInPlace) : self.init now db = ((applyDiffs self.extensions db).1, .ok ()) := by
  have hroot : ¬ db.metadata.find 1 = none := fun hn => by simpa [hn] using h.root
  have hdot : ¬ db.dentry.find (1, TemporalFs.dot) = none := by simp [h.dot]
  have hdotdot : ¬ db.dentry.find (1, TemporalFs.dotdot) = none := by simp [h.dotdot]
  have hspec : (self.init now).Ensures db (fun _ db' => db' = (applyDiffs self.extensions db).1)
      (fun _ _ => False) := by
    unfold Sqlite.init executeAll
    simp only [ensures_bind, ensures_get, ensures_when, ensures_modify, hroot, hdot, hdotdot,
      not_false_eq_true, true_implies, false_implies, true_and]
  obtain ⟨_, db', heq, rfl⟩ := hspec.exists_ok
  exact heq

theorem Sqlite.init_of_rootInPlace (self : Sqlite) (now : Now) {db : Db X} (h : db.RootInPlace) :
    (self.init now db).1 = (applyDiffs self.extensions db).1 := by
  rw [self.init_eq_of_rootInPlace now h]

/-- The attributes that `init` gives to the root directory. -/
def rootAttr (now : Now) : DBFileAttr :=
  ⟨1, 0, 0, now.1, now.1, now.1, now.1, .Directory, UInt16.ofNat 0o40777, 0, 0, 0, 0, 0⟩

/-- **What `init` does**: it builds `bdata` after what the new root and new entries keep. -/
theorem Sqlite.init_applies_diffs {I : Db X → Prop} (self : Sqlite) (now : Now)
    (hroot : ∀ db, I db → (addInodeLocal (rootAttr now)).Ensures db (fun _ db' => I db')
      fun _ _ => True)
    (hentry : ∀ n, n = dotdot ∨ n = dot → ∀ db, I db →
      (addDentry ⟨1, 1, .Directory, n⟩).Ensures db (fun _ db' => I db') fun _ _ => True)
    {db : Db X} (hdb : I db) : (self.init now).Ensures db
      (fun _ db' => ∃ db₁, I db₁ ∧ db' = (applyDiffs self.extensions db₁).1)
      (fun _ _ => True) := by
  have hwhen : ∀ {c : Prop} [Decidable c] {x : Conn X Unit} {db : Db X}, I db →
      x.Ensures db (fun _ db' => I db') (fun _ _ => True) →
        (Proc.when c x).Ensures db (fun _ db' => I db') fun _ _ => True :=
    fun hdb hx => (ensures_when _ _).2 ⟨fun _ => hx, fun _ => hdb⟩
  have hadded : (do let _ ← addInodeLocal (rootAttr now); pure () : Conn X Unit).Ensures db
      (fun _ db' => I db') fun _ _ => True :=
    (ensures_bind _ _).2 (hroot db hdb)
  unfold Sqlite.init
  rw [ensures_bind, ensures_get, ensures_bind]
  refine (hwhen hdb hadded).mono (fun _ db₁ h₁ => ?_) fun _ _ h => h
  rw [ensures_bind, ensures_get, ensures_bind]
  refine (hwhen h₁ (hentry _ (Or.inr rfl) db₁ h₁)).mono (fun _ db₂ h₂ => ?_) fun _ _ h => h
  rw [ensures_bind, ensures_get, ensures_bind]
  refine (hwhen h₂ (hentry _ (Or.inl rfl) db₂ h₂)).mono (fun _ db₃ h₃ => ?_) fun _ _ h => h
  exact ⟨db₃, h₃, rfl⟩

/-- **What `init` keeps**: what the new root, new entries and a new table `bdata` keep. -/
theorem Sqlite.init_ensures {I : Db X → Prop} (self : Sqlite) (now : Now)
    (hroot : ∀ db, I db → (addInodeLocal (rootAttr now)).Ensures db (fun _ db' => I db')
      fun _ _ => True)
    (hentry : ∀ n, n = dotdot ∨ n = dot → ∀ db, I db →
      (addDentry ⟨1, 1, .Directory, n⟩).Ensures db (fun _ db' => I db') fun _ _ => True)
    (hbdata : ∀ (db : Db X) rows, I db → I { db with bdata := rows }) {db : Db X} (hdb : I db) :
    (self.init now).Ensures db (fun _ db' => I db') (fun _ _ => True) := by
  refine (self.init_applies_diffs now hroot hentry hdb).mono (fun _ db' h => ?_) fun _ _ h => h
  obtain ⟨db₁, h₁, rfl⟩ := h
  exact (keeps_applyDiffs hbdata _).fst h₁

/-- The row of the root directory. -/
def rootRow (now : Now) : MetadataRow := (rootAttr now).inserted 1

/-- The database holds the root directory and nothing else. -/
structure Db.OnlyRoot (now : Now) (db : Db X) : Prop where
  metadata : ∀ i, db.metadata.find i = if i = 1 then some (rootRow now) else none
  dentry : ∀ k, db.dentry.find k = if k = (1, dot) ∨ k = (1, dotdot) then
    some ⟨1, 1, .Directory, k.2⟩ else none
  data : ∀ k, db.data.find k = none
  xattr : ∀ k, db.xattr.find k = none
  sqliteSequence : db.sqliteSequence = 1

/-- An entry of the root for itself is added where the name is free. -/
theorem addDentry_root_spec {db : Db X} (hroot : (db.metadata.find 1).isSome) {n : Name}
    (hfree : db.dentry.find (1, n) = none) :
    (addDentry ⟨1, 1, .Directory, n⟩).Ensures db (fun _ db' => db'.metadata = db.metadata ∧
        db'.data = db.data ∧ db'.xattr = db.xattr ∧ db'.sqliteSequence = db.sqliteSequence ∧
        ∀ k, db'.dentry.find k = if k = (1, n) then some ⟨1, 1, .Directory, n⟩
          else db.dentry.find k)
      (fun _ _ => False) := by
  refine (ensures_step _ _).2 ⟨fun db' h => ?_, fun h =>
    Db.insertDentry_eq_none h ⟨hfree, hroot, hroot⟩⟩
  obtain ⟨-, -, -, hm, hd, hb, hx, hs⟩ := Db.insertDentry_eq_some h
  refine ⟨hm, hb, hx, hs, fun k => ?_⟩
  rw [hd, AuditedTable.find_put, dentrySpec_key]
  simp only [eq_comm]

/-- The first inode of a new database. -/
theorem addInodeLocal_empty (clock : ℕ → ℕ) (now : Now) :
    (addInodeLocal (rootAttr now)).Ensures (Db.empty X clock)
      (fun _ db' => (∀ i, db'.metadata.find i = if i = 1 then some ((rootAttr now).inserted 1)
          else none) ∧ (∀ k, db'.dentry.find k = none) ∧ (∀ k, db'.data.find k = none) ∧
        (∀ k, db'.xattr.find k = none) ∧ db'.sqliteSequence = 1)
      (fun _ _ => False) := by
  have hrange : inChronoRange now.1.sec :=
    ⟨by have := now.2.1; omega, by have := now.2.2; omega⟩
  have hatime : inChronoRange (rootAttr now).atime.sec := hrange
  have hmtime : inChronoRange (rootAttr now).mtime.sec := hrange
  have hctime : inChronoRange (rootAttr now).ctime.sec := hrange
  have hcrtime : inChronoRange (rootAttr now).crtime.sec := hrange
  unfold addInodeLocal utcFrom executeAll
  simp only [ensures_bind, ensures_get, ensures_modify, ensures_require, ensures_pure, hatime,
    hmtime, hctime, hcrtime, not_true_eq_false, false_implies, and_true, true_implies,
    Db.sqliteSequence_insertMetadata]
  refine ⟨fun _ => ⟨fun i => ?_, fun _ => rfl, fun _ => rfl, fun _ => rfl, rfl⟩, fun h => ?_⟩
  · exact (Db.metadata_find_insertMetadata ..).trans rfl
  · exact h (by simp [Db.empty])

/-- `init` on a new database adds the root directory. -/
theorem Db.onlyRoot_initialised (clock : ℕ → ℕ) (self : Sqlite) (now : Now) :
    (Db.initialised X clock self now).OnlyRoot now := by
  have hbdata : ∀ (db : Db X) rows, db.OnlyRoot now → { db with bdata := rows }.OnlyRoot now :=
    fun _ _ h => ⟨h.metadata, h.dentry, h.data, h.xattr, h.sqliteSequence⟩
  have hspec : (self.init now).Ensures (Db.empty X clock) (fun _ db' => db'.OnlyRoot now)
      (fun _ _ => False) := by
    unfold Sqlite.init
    refine (ensures_bind _ _).2 (ensures_get.2 ((ensures_bind _ _).2 ((ensures_when _ _).2
      ⟨fun _ => (ensures_bind _ _).2 ?_, fun h => absurd rfl h⟩)))
    refine (addInodeLocal_empty clock now).mono (fun _ db₁ h₁ => ?_) fun _ _ h => h
    obtain ⟨hm₁, hd₁, hb₁, hx₁, hs₁⟩ := h₁
    have hroot₁ : (db₁.metadata.find 1).isSome := by simp [hm₁]
    refine (ensures_bind _ _).2 (ensures_get.2 ((ensures_bind _ _).2 ((ensures_when _ _).2
      ⟨fun _ => ?_, fun h => absurd (hd₁ _) h⟩)))
    refine (addDentry_root_spec hroot₁ (hd₁ _)).mono (fun _ db₂ h₂ => ?_) fun _ _ h => h
    obtain ⟨hm₂, hb₂, hx₂, hs₂, hd₂⟩ := h₂
    have hfree₂ : db₂.dentry.find (1, dotdot) = none := by simp [hd₂, hd₁, dot, dotdot]
    refine (ensures_bind _ _).2 (ensures_get.2 ((ensures_bind _ _).2 ((ensures_when _ _).2
      ⟨fun _ => ?_, fun h => absurd hfree₂ h⟩)))
    refine (addDentry_root_spec (hm₂ ▸ hroot₁) hfree₂).mono (fun _ db₃ h₃ => ?_) fun _ _ h => h
    obtain ⟨hm₃, hb₃, hx₃, hs₃, hd₃⟩ := h₃
    refine (keeps_applyDiffs hbdata self.extensions).fst ⟨fun i => ?_, fun k => ?_, fun k => ?_,
      fun k => ?_, ?_⟩
    · rw [hm₃, hm₂, hm₁, rootRow]
    · rw [hd₃, hd₂, hd₁]
      by_cases hk : k = (1, dotdot)
      · simp [hk]
      · by_cases hk' : k = (1, dot)
        · simp [hk', dot, dotdot]
        · simp [hk, hk']
    · rw [hb₃, hb₂, hb₁]
    · rw [hx₃, hx₂, hx₁]
    · rw [hs₃, hs₂, hs₁]
  unfold Ensures at hspec
  split at hspec <;> rename_i heq <;> rw [Db.initialised, heq]
  · exact hspec
  · exact hspec.elim

theorem Db.OnlyRoot.rootInPlace {now : Now} {db : Db X} (h : db.OnlyRoot now) :
    db.RootInPlace where
  root := by simp [h.metadata]
  dot := by simp [h.dentry]
  dotdot := by simp [h.dentry]

end TemporalFs
