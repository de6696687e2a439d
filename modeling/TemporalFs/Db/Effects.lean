import Mathlib
import TemporalFs.Db.Steps

/-!
# What the methods do to the tables

One specification for each method of `Sqlite`, in terms of what lookups find in the tables after
it. A method that fails leaves the database as it was; a method that succeeds has the effect that
its specification states, up to the times that it records.

The specifications speak of the rows before and after the call, one equation for each table, with no
reference to the statements in between. The effects are structures, `Db.Added`, `Db.Linked`,
`Db.Unlinked`, `Db.Moved`, so that later modules can name the part that they need. The columns of
times are left out here, since they depend on the settings of the connection.

## Main definitions

* `Db.SameUpTo`: two databases that differ in some columns of `metadata` only.

## Main results

* `Sqlite.addInodeAndDentry_spec`, `Sqlite.linkDentry_spec`, `Sqlite.deleteDentry_spec`,
  `Sqlite.moveDentry_spec`: the namespace.
* `Sqlite.moveDentry_returns`, `Sqlite.deleteDentry_returns`: when a method succeeds.
-/

namespace TemporalFs

variable {X : Externals}

/-- The row without its access time, which reads change. -/
def MetadataRow.atimeless (m : MetadataRow) : MetadataRow := { m with atime := ⟨none, 0⟩ }

/-- The row without its times: what the namespace and the contents depend on. -/
def MetadataRow.timeless (m : MetadataRow) : MetadataRow :=
  { m with atime := ⟨none, 0⟩, mtime := ⟨none, 0⟩, ctime := ⟨none, 0⟩, crtime := ⟨none, 0⟩ }

/-- All four times of the row satisfy `ok`. -/
def MetadataRow.TimesIn (ok : TimeColumn → Prop) (m : MetadataRow) : Prop :=
  ok m.atime ∧ ok m.mtime ∧ ok m.ctime ∧ ok m.crtime

/-- All times of all rows of the table satisfy `ok`. -/
def AllTimes (ok : TimeColumn → Prop) (t : AuditedTable metadataSpec) : Prop :=
  ∀ i m, t.find i = some m → m.TimesIn ok

/-- The columns that a reading of the clock gives satisfy `ok`. -/
def ClockIn (ok : TimeColumn → Prop) : Prop := ∀ now : Now, ok now.1.throughDatetime

/-- The tables find the same, up to the columns that `f` blanks, and no times but readings of the
clock have been stored. -/
structure SameRows (f : MetadataRow → MetadataRow) (t t' : AuditedTable metadataSpec) : Prop where
  find : ∀ i, (t'.find i).map f = (t.find i).map f
  times : ∀ ok, ClockIn ok → AllTimes ok t → AllTimes ok t'

namespace SameRows

variable {f : MetadataRow → MetadataRow} {t t' t'' : AuditedTable metadataSpec}

theorem refl (f : MetadataRow → MetadataRow) (t : AuditedTable metadataSpec) : SameRows f t t :=
  ⟨fun _ => rfl, fun _ _ h => h⟩

theorem of_eq (f : MetadataRow → MetadataRow) (h : t' = t) : SameRows f t t' := h ▸ refl f t

theorem trans (h : SameRows f t t') (h' : SameRows f t' t'') : SameRows f t t'' :=
  ⟨fun i => (h'.find i).trans (h.find i), fun ok hok ht => h'.times ok hok (h.times ok hok ht)⟩

/-- What is computed from a row without the blanked columns is the same. -/
theorem find_map {β : Type} (h : SameRows f t t') (g : MetadataRow → β) (hg : ∀ m, g (f m) = g m)
    (i : ℕ) : (t'.find i).map g = (t.find i).map g := by
  have := congrArg (Option.map g) (h.find i)
  simpa only [Option.map_map, Function.comp_def, hg] using this

/-- A coarser view sees no more differences. -/
theorem map {g : MetadataRow → MetadataRow} (hg : ∀ m, g (f m) = g m) (h : SameRows f t t') :
    SameRows g t t' :=
  ⟨h.find_map g hg, h.times⟩

theorem isSome (h : SameRows f t t') (i : ℕ) : (t'.find i).isSome = (t.find i).isSome := by
  simpa only [Option.isSome_map] using congrArg Option.isSome (h.find i)

end SameRows

/-- The databases find the same, up to the columns of `metadata` that `f` blanks. -/
structure Db.SameUpTo (f : MetadataRow → MetadataRow) (db db' : Db X) : Prop where
  metadata : SameRows f db.metadata db'.metadata
  dentry : db'.dentry = db.dentry
  data : db'.data = db.data
  xattr : db'.xattr = db.xattr
  sqliteSequence : db'.sqliteSequence = db.sqliteSequence

namespace Db.SameUpTo

variable {f : MetadataRow → MetadataRow} {db db' db'' : Db X}

theorem refl (f : MetadataRow → MetadataRow) (db : Db X) : db.SameUpTo f db :=
  ⟨.refl _ _, rfl, rfl, rfl, rfl⟩

theorem trans (h : db.SameUpTo f db') (h' : db'.SameUpTo f db'') : db.SameUpTo f db'' :=
  ⟨h.metadata.trans h'.metadata, h'.dentry.trans h.dentry, h'.data.trans h.data,
    h'.xattr.trans h.xattr, h'.sqliteSequence.trans h.sqliteSequence⟩

theorem timeless (h : db.SameUpTo .atimeless db') : db.SameUpTo .timeless db' :=
  ⟨.map (f := MetadataRow.atimeless) (fun _ => rfl) h.metadata, h.dentry, h.data, h.xattr,
    h.sqliteSequence⟩

theorem updateMetadata (db : Db X) (i : ℕ) (g : MetadataRow → MetadataRow)
    (hg : ∀ m, f ((g m).withId m.id) = f m)
    (htimes : ∀ ok, ClockIn ok → ∀ m, m.TimesIn ok → (g m).TimesIn ok) :
    db.SameUpTo f (db.updateMetadata i g) where
  metadata := by
    refine ⟨fun j => ?_, fun ok hok h j m hm => ?_⟩
    · rw [Db.metadata_find_updateMetadata]
      split_ifs with hj
      · rw [hj, Option.map_map]
        exact congrArg (Option.map · _) (funext hg)
      · rfl
    · rw [Db.metadata_find_updateMetadata] at hm
      split_ifs at hm with hj
      · obtain ⟨m', hm', rfl⟩ := Option.map_eq_some_iff.1 hm
        exact htimes ok hok m' (h i m' hm')
      · exact h j m hm
  dentry := rfl
  data := rfl
  xattr := rfl
  sqliteSequence := rfl

end Db.SameUpTo

/-- The databases find the same outside `dentry`, up to the columns of `metadata` that `f`
blanks. -/
structure Db.SameButDentry (f : MetadataRow → MetadataRow) (db db' : Db X) : Prop where
  metadata : SameRows f db.metadata db'.metadata
  data : db'.data = db.data
  xattr : db'.xattr = db.xattr
  sqliteSequence : db'.sqliteSequence = db.sqliteSequence

theorem Db.SameUpTo.sameButDentry {f : MetadataRow → MetadataRow} {db db' : Db X}
    (h : db.SameUpTo f db') : db.SameButDentry f db' :=
  ⟨h.metadata, h.data, h.xattr, h.sqliteSequence⟩

theorem Db.SameButDentry.refl (f : MetadataRow → MetadataRow) (db : Db X) :
    db.SameButDentry f db :=
  (Db.SameUpTo.refl f db).sameButDentry

theorem Db.SameButDentry.trans {f : MetadataRow → MetadataRow} {db db' db'' : Db X}
    (h : db.SameButDentry f db') (h' : db'.SameButDentry f db'') : db.SameButDentry f db'' :=
  ⟨h.metadata.trans h'.metadata, h'.data.trans h.data, h'.xattr.trans h.xattr,
    h'.sqliteSequence.trans h.sqliteSequence⟩

open Proc

section Times

variable {E : Stop → Db X → Prop} (i : ℕ) (now : Now) (db : Db X)

theorem ensures_updateAtime {Q : Unit → Db X → Prop}
    (h : ∀ db', db.SameUpTo .atimeless db' → Q () db') :
    (updateAtime i now : Conn X Unit).Ensures db Q E :=
  h _ (.updateMetadata db i _ (fun _ => rfl) fun _ hok _ hm => ⟨hok now, hm.2⟩)

theorem ensures_updateMtime {Q : Unit → Db X → Prop}
    (h : ∀ db', db.SameUpTo .timeless db' → Q () db') :
    (updateMtime i now : Conn X Unit).Ensures db Q E :=
  h _ (.updateMetadata db i _ (fun _ => rfl) fun _ hok _ hm => ⟨hm.1, hok now, hm.2.2⟩)

theorem ensures_updateCtime {Q : Unit → Db X → Prop}
    (h : ∀ db', db.SameUpTo .timeless db' → Q () db') :
    (updateCtime i now : Conn X Unit).Ensures db Q E :=
  h _ (.updateMetadata db i _ (fun _ => rfl) fun _ hok _ hm =>
    ⟨hm.1, hm.2.1, hok now, hm.2.2.2⟩)

end Times

section Local

variable (db : Db X) (f : MetadataRow → MetadataRow)

theorem deleteDentryLocal_spec (p : ℕ) (n : Name) :
    (deleteDentryLocal p n).Ensures db
      (fun _ db' => db.SameButDentry f db' ∧ ∀ k, db'.dentry.find k =
        if k = (p, n) ∧ ¬ (n = dotdot ∨ n = dot) then none else db.dentry.find k)
      (fun _ _ => False) := by
  unfold deleteDentryLocal executeAll
  rw [ensures_when, ensures_modify]
  constructor
  · intro hn
    refine ⟨⟨.refl _ _, rfl, rfl, rfl⟩, fun k => ?_⟩
    rw [Db.dentry_find_deleteDentryRow]
    simp only [hn, not_false_eq_true, and_true]
  · intro hn
    exact ⟨.refl _ _, fun k => by simp only [hn, and_false, ↓reduceIte]⟩

theorem deleteSubDentry_spec (i : ℕ) :
    (deleteSubDentry i).Ensures db
      (fun _ db' => db.SameButDentry f db' ∧ ∀ k, db'.dentry.find k =
        (db.dentry.find k).filter fun x => x.parentId ≠ i)
      (fun _ _ => False) := by
  refine (ensures_modify _).2 ⟨⟨.of_eq _ (by simp), by simp, by simp, by simp⟩, fun k => ?_⟩
  rw [Db.dentry_find_deleteDentryWhere]
  exact congrArg (Option.filter · _) (funext fun x => by simp)

theorem addDentry_spec (entry : DEntry) :
    (addDentry entry).Ensures db
      (fun _ db' => db.dentry.find (entry.parentIno, entry.filename) = none ∧
        (db.metadata.find entry.parentIno).isSome ∧ db'.metadata = db.metadata ∧
        db'.data = db.data ∧ db'.xattr = db.xattr ∧ db'.sqliteSequence = db.sqliteSequence ∧
        ∀ k, db'.dentry.find k = if k = (entry.parentIno, entry.filename) then
          some ⟨entry.parentIno, entry.childIno, entry.fileType, entry.filename⟩
          else db.dentry.find k)
      (fun _ db' => db' = db) := by
  refine (ensures_step _ _).2 ⟨fun db' h => ?_, fun _ => rfl⟩
  obtain ⟨hfree, hp, -, hm, hd, hb, hx, hs⟩ := Db.insertDentry_eq_some h
  refine ⟨hfree, hp, hm, hb, hx, hs, fun k => ?_⟩
  rw [hd, AuditedTable.find_put, dentrySpec_key]
  simp only [eq_comm]

/-- The row that `addInodeLocal` inserts, with its times as they are formatted. -/
def DBFileAttr.inserted (attr : DBFileAttr) (id : ℕ) : MetadataRow :=
  ⟨id, attr.size, attr.atime.formatted, attr.mtime.formatted, attr.ctime.formatted,
    attr.crtime.formatted, attr.kind, attr.perm, attr.uid, attr.gid, attr.rdev, attr.flags⟩

theorem addInodeLocal_spec (attr : DBFileAttr) :
    (addInodeLocal attr).Ensures db
      (fun child db' => child = db.sqliteSequence + 1 ∧ child < 2 ^ 32 ∧
        db'.dentry = db.dentry ∧ db'.data = db.data ∧ db'.xattr = db.xattr ∧
        db'.sqliteSequence = child ∧ ∀ i, db'.metadata.find i =
          if i = child then some (attr.inserted child) else db.metadata.find i)
      (fun _ _ => True) := by
  unfold addInodeLocal utcFrom executeAll
  simp only [ensures_bind, ensures_require, ensures_pure, ensures_modify, ensures_get,
    Db.sqliteSequence_insertMetadata, implies_true, and_true]
  intro _ _ _ _ hlt
  exact ⟨trivial, hlt, rfl, rfl, rfl, trivial, fun i => Db.metadata_find_insertMetadata ..⟩

omit db f in
theorem ensures_query {α : Type} (g : Db X → Except Stop α) {Q : α → Db X → Prop}
    {E : Stop → Db X → Prop} (db : Db X) : (query g).Ensures db Q E ↔
      (∀ a, g db = .ok a → Q a db) ∧ ∀ e, g db = .error e → E e db := by
  unfold query
  rw [ensures_bind, ensures_get]
  cases g db with
  | ok a => simp
  | error e => simp

theorem getInodeLocal_spec (i : ℕ) :
    (getInodeLocal i).Ensures db (fun found db' => db' = db ∧ inodeAttr i db = .ok found)
      (fun e db' => db' = db ∧ inodeAttr i db = .error e) := by
  unfold getInodeLocal
  exact (ensures_query _ db).2 ⟨fun _ h => ⟨rfl, h⟩, fun _ h => ⟨rfl, h⟩⟩

theorem getDentrySingle_spec (p : ℕ) (n : Name) :
    (getDentrySingle p n).Ensures db (fun entry db' => db' = db ∧
      entry = (db.dentry.find (p, n)).map fun e => ⟨p, e.childId, e.fileType, n⟩)
      (fun _ _ => False) := by
  unfold getDentrySingle
  rw [ensures_bind, ensures_get, ensures_pure]
  exact ⟨rfl, rfl⟩

/-- A row whose columns are set moves to its new key, which was free unless it is the old one. -/
theorem updateDentry_spec {p : ℕ} {n : Name} {e : DentryRow} (he : db.dentry.find (p, n) = some e)
    (g : DentryRow → DentryRow) :
    (execute fun db => db.updateDentry p n g).Ensures db
      (fun _ db' => (((g e).parentId, (g e).name) = (p, n) ∨
          db.dentry.find ((g e).parentId, (g e).name) = none) ∧
        (db.metadata.find (g e).parentId).isSome ∧ db.SameButDentry f db' ∧
        ∀ k, db'.dentry.find k = if k = ((g e).parentId, (g e).name) then some (g e)
          else if k = (p, n) then none else db.dentry.find k)
      (fun _ db' => db' = db) := by
  refine (ensures_step _ _).2 ⟨fun db' h => ?_, fun _ => rfl⟩
  obtain ⟨hp, -, hm, hd, hb, hx, hs⟩ := Db.updateDentry_eq_some he h
  exact ⟨AuditedTable.find_key_of_rekey he hd, hp, ⟨.of_eq _ hm, hb, hx, hs⟩,
    AuditedTable.find_rekey he hd⟩

theorem overwriteDentry_spec (t : FileType) (p : ℕ) (n : Name) :
    (Sqlite.overwriteDentry t p n
        ((db.dentry.find (p, n)).map fun e => ⟨p, e.childId, e.fileType, n⟩)).Ensures db
      (fun res db' => res = (db.dentry.find (p, n)).map DentryRow.childId ∧
        (∀ v, db.dentry.find (p, n) = some v → t = v.fileType ∧
          (v.fileType = .Directory → directoryIsEmpty db.dentry.rows v.childId = true)) ∧
        db.SameButDentry f db' ∧ ∀ k, db'.dentry.find k =
          if k = (p, n) ∧ ¬ (n = dotdot ∨ n = dot) then none else db.dentry.find k)
      (fun _ _ => True) := by
  cases hv : db.dentry.find (p, n) with
  | none =>
    refine ⟨rfl, fun v h => by simp at h, .refl _ _, fun k => ?_⟩
    split_ifs with hk
    · rw [hk.1, hv]
    · rfl
  | some v =>
    unfold Sqlite.overwriteDentry checkDirectoryIsEmptyLocal
    simp only [Option.map_some, ensures_bind, ensures_require, ensures_when, ensures_get,
      ensures_pure, implies_true, and_true]
    intro ht
    constructor
    · intro hdir hempty
      refine (deleteDentryLocal_spec db f p n).mono (fun _ db' h => ?_) fun _ _ _ => trivial
      exact ⟨trivial, fun v' hv' => Option.some.inj hv' ▸ ⟨ht, fun _ => hempty⟩, h⟩
    · intro hdir
      refine (deleteDentryLocal_spec db f p n).mono (fun _ db' h => ?_) fun _ _ _ => trivial
      exact ⟨trivial, fun v' hv' => Option.some.inj hv' ▸ ⟨ht, fun h => absurd h hdir⟩, h⟩

end Local

/-! ### The effects on the namespace -/

/-- An inode `child` was added under the name `n` in `p`, with its own entries if it is a
directory. -/
structure Db.Added (db : Db X) (p : ℕ) (n : Name) (attr : DBFileAttr) (child : ℕ) (db' : Db X) :
    Prop where
  child_eq : child = db.sqliteSequence + 1
  child_lt : child < 2 ^ 32
  sqliteSequence : db'.sqliteSequence = child
  data : db'.data = db.data
  xattr : db'.xattr = db.xattr
  free : db.dentry.find (p, n) = none
  parent : (db.metadata.find p).isSome ∨ p = child
  metadata : ∀ i, (db'.metadata.find i).map .timeless =
    if i = child then some (attr.inserted child).timeless else (db.metadata.find i).map .timeless
  times : ∀ ok, ClockIn ok → (attr.inserted child).TimesIn ok → AllTimes ok db.metadata →
    AllTimes ok db'.metadata
  dentry : ∀ k, db'.dentry.find k =
    if attr.kind = .Directory ∧ k = (child, dot) then some ⟨child, child, .Directory, dot⟩
    else if attr.kind = .Directory ∧ k = (child, dotdot) then
      some ⟨child, p, .Directory, dotdot⟩
    else if k = (p, n) then some ⟨p, child, attr.kind, n⟩
    else db.dentry.find k

/-- The regular file `inode` got the name `n` in `p`, beside the names it had; all else but times is
as it was. -/
structure Db.Linked (db : Db X) (inode p : ℕ) (n : Name) (attr : DBFileAttr) (db' : Db X) :
    Prop where
  found : inodeAttr inode db = .ok (some attr)
  kind : attr.kind = .RegularFile
  free : db.dentry.find (p, n) = none
  parent : (db.metadata.find p).isSome
  rest : db.SameButDentry .timeless db'
  dentry : ∀ k, db'.dentry.find k =
    if k = (p, n) then some ⟨p, inode, .RegularFile, n⟩ else db.dentry.find k

/-- The entry `n` of `p` was removed, unless it is one of the directory's own, and so were the
entries in its inode. -/
structure Db.Unlinked (db : Db X) (p : ℕ) (n : Name) (child : ℕ) (db' : Db X) : Prop where
  found : ∃ e, db.dentry.find (p, n) = some e ∧ e.childId = child
  rest : db.SameButDentry .timeless db'
  dentry : ∀ k, db'.dentry.find k =
    if k = (p, n) ∧ ¬ (n = dotdot ∨ n = dot) then none
    else (db.dentry.find k).filter fun x => x.parentId ≠ child

/-- The entries after `e` has got the place `n'` in `p'`. -/
def Db.movedEntry (db : Db X) (p : ℕ) (n : Name) (p' : ℕ) (n' : Name) (e : DentryRow)
    (k : ℕ × Name) : Option DentryRow :=
  if k = (p', n') then some { e with parentId := p', name := n' }
  else if k = (p, n) then none
  else db.dentry.find k

/-- The entry `e`, which was `n` in `p`, is now `n'` in `p'`, where it has replaced what was
there. -/
structure Db.Moved (db : Db X) (p : ℕ) (n : Name) (p' : ℕ) (n' : Name) (e : DentryRow)
    (res : Option ℕ) (db' : Db X) : Prop where
  source : db.dentry.find (p, n) = some e
  res_eq : res = (db.dentry.find (p', n')).map DentryRow.childId
  same_type : ∀ v, db.dentry.find (p', n') = some v → e.fileType = v.fileType
  no_dots : ∀ v, db.dentry.find (p', n') = some v → ¬ (n' = dotdot ∨ n' = dot)
  empty : ∀ v, db.dentry.find (p', n') = some v → v.fileType = .Directory →
    directoryIsEmpty db.dentry.rows v.childId = true
  parent : (db.metadata.find p').isSome
  rest : db.SameButDentry .timeless db'
  dentry : ∀ k, db'.dentry.find k =
    if p ≠ p' ∧ e.fileType = .Directory ∧ k = (e.childId, dotdot) then
      (db.movedEntry p n p' n' e k).map fun x => { x with childId := p' }
    else db.movedEntry p n p' n' e k

/-- The entry `e` was renamed to its own place: it is gone, unless it is one of the directory's
own. -/
structure Db.MovedOntoItself (db : Db X) (p : ℕ) (n : Name) (e : DentryRow) (db' : Db X) :
    Prop where
  found : db.dentry.find (p, n) = some e
  empty : e.fileType = .Directory → directoryIsEmpty db.dentry.rows e.childId = true
  rest : db.SameButDentry .timeless db'
  dentry : ∀ k, db'.dentry.find k =
    if k = (p, n) ∧ ¬ (n = dotdot ∨ n = dot) then none else db.dentry.find k

/-- What a rename to another place asks of the tables: the source is there, and so is the new
parent; what is in its place is of the same type, is no own entry of a directory, and is empty if it
is a directory. -/
def Db.CanMove (db : Db X) (p : ℕ) (n : Name) (p' : ℕ) (n' : Name) : Prop :=
  (p, n) ≠ (p', n') ∧ (db.metadata.find p').isSome ∧ ∃ e, db.dentry.find (p, n) = some e ∧
    ∀ v, db.dentry.find (p', n') = some v → ¬ (n' = dotdot ∨ n' = dot) ∧
      e.fileType = v.fileType ∧
        (v.fileType = .Directory → directoryIsEmpty db.dentry.rows v.childId = true)

theorem Db.Moved.canMove {db db' : Db X} {p p' : ℕ} {n n' : Name} {e : DentryRow} {res : Option ℕ}
    (h : db.Moved p n p' n' e res db') (hne : (p, n) ≠ (p', n')) : db.CanMove p n p' n' :=
  ⟨hne, h.parent, e, h.source, fun v hv => ⟨h.no_dots v hv, h.same_type v hv, h.empty v hv⟩⟩

namespace Sqlite

variable (self : Sqlite)

theorem addInodeAndDentry_spec (now : Now) (p : ℕ) (n : Name) (attr : DBFileAttr) (db : Db X) :
    (self.addInodeAndDentry now p n attr).Ensures db (fun child db' => db.Added p n attr child db')
      (fun _ db' => db' = db) := by
  unfold addInodeAndDentry
  rw [ensures_atomically, ensures_bind]
  refine (addInodeLocal_spec db attr).mono (fun child db₁ h₁ => ?_) fun _ _ _ => rfl
  obtain ⟨hchild, hlt, hd₁, hb₁, hx₁, hs₁, hm₁⟩ := h₁
  rw [ensures_bind]
  refine (addDentry_spec db₁ _).mono (fun _ db₂ h₂ => ?_) fun _ _ _ => rfl
  obtain ⟨hfree, hp, hm₂, hb₂, hx₂, hs₂, hd₂⟩ := h₂
  simp only at hfree hp hd₂
  have hpost : ∀ db₃ db' : Db X, db₃.metadata = db₂.metadata → db₃.data = db₂.data →
      db₃.xattr = db₂.xattr → db₃.sqliteSequence = db₂.sqliteSequence →
      (∀ k, db₃.dentry.find k =
        if attr.kind = .Directory ∧ k = (child, dot) then some ⟨child, child, .Directory, dot⟩
        else if attr.kind = .Directory ∧ k = (child, dotdot) then
          some ⟨child, p, .Directory, dotdot⟩
        else db₂.dentry.find k) → db₃.SameUpTo .timeless db' → db.Added p n attr child db' := by
    intro db₃ db' hm hb hx hs hd h
    refine ⟨hchild, hlt, ?_, ?_, ?_, ?_, ?_, fun i => ?_, fun ok hok hattr ht => ?_, fun k => ?_⟩
    · rw [h.sqliteSequence, hs, hs₂, hs₁]
    · rw [h.data, hb, hb₂, hb₁]
    · rw [h.xattr, hx, hx₂, hx₁]
    · rw [← hd₁]
      exact hfree
    · rw [hm₁] at hp
      by_cases hpc : p = child
      · exact Or.inr hpc
      · exact Or.inl (by rwa [if_neg hpc] at hp)
    · rw [h.metadata.find i, hm, hm₂, hm₁]
      split_ifs <;> rfl
    · refine h.metadata.times ok hok fun i m hi => ?_
      rw [hm, hm₂, hm₁] at hi
      split_ifs at hi
      · exact Option.some.inj hi ▸ hattr
      · exact ht i m hi
    · rw [h.dentry, hd k, hd₂ k, hd₁]
  rw [ensures_bind, ensures_when]
  constructor
  · intro hdir
    rw [ensures_bind]
    refine (addDentry_spec db₂ _).mono (fun _ db₃ h₃ => ?_) fun _ _ _ => rfl
    obtain ⟨-, -, hm₃, hb₃, hx₃, hs₃, hd₃⟩ := h₃
    refine (addDentry_spec db₃ _).mono (fun _ db₄ h₄ => ?_) fun _ _ _ => rfl
    obtain ⟨-, -, hm₄, hb₄, hx₄, hs₄, hd₄⟩ := h₄
    have hpost₄ := fun db' => hpost db₄ db' (hm₄.trans hm₃) (hb₄.trans hb₃) (hx₄.trans hx₃)
      (hs₄.trans hs₃) (fun k => by simp only [hd₄ k, hd₃ k, hdir, true_and])
    simp only [ensures_bind, ensures_when, ensures_pure]
    refine ⟨fun _ => ?_, fun _ => hpost₄ db₄ (.refl _ _)⟩
    exact ensures_updateMtime _ _ _ fun db₅ h₅ => ensures_updateCtime _ _ _ fun db₆ h₆ =>
      hpost₄ db₆ (h₅.trans h₆)
  · intro hdir
    have hpost₂ := fun db' => hpost db₂ db' rfl rfl rfl rfl
      (fun k => by simp only [hdir, false_and, ↓reduceIte])
    simp only [ensures_bind, ensures_when, ensures_pure]
    refine ⟨fun _ => ?_, fun _ => hpost₂ db₂ (.refl _ _)⟩
    exact ensures_updateMtime _ _ _ fun db₅ h₅ => ensures_updateCtime _ _ _ fun db₆ h₆ =>
      hpost₂ db₆ (h₅.trans h₆)

theorem linkDentry_spec (now : Now) (inode p : ℕ) (n : Name) (db : Db X) :
    (self.linkDentry now inode p n).Ensures db (fun attr db' => db.Linked inode p n attr db')
      (fun _ db' => db' = db) := by
  unfold linkDentry
  simp only [ensures_atomically, ensures_bind, ensures_ofOption, ensures_require, ensures_pure]
  refine (getInodeLocal_spec db inode).mono (fun found db₁ h₁ => ?_) fun _ _ _ => trivial
  obtain ⟨rfl, hattr⟩ := h₁
  refine ⟨fun attr hfound => ⟨fun hkind => ?_, fun _ => trivial⟩, fun _ => trivial⟩
  subst hfound
  refine (getDentrySingle_spec db₁ p n).mono (fun new_inode db₂ h₂ => ?_) fun _ _ h => h.elim
  obtain ⟨rfl, hnew⟩ := h₂
  refine ⟨fun hnone => ?_, fun _ => trivial⟩
  refine (addDentry_spec db₂ _).mono (fun _ db₃ h₃ => ?_) fun _ _ _ => trivial
  obtain ⟨hfree, hp, hm₃, hb₃, hx₃, hs₃, hd₃⟩ := h₃
  have hpost : ∀ db', db₃.SameUpTo .timeless db' → db₂.Linked inode p n attr db' := by
    intro db' h
    refine ⟨hattr, hkind, hfree, hp, ⟨hm₃ ▸ h.metadata, ?_, ?_, ?_⟩, fun k => ?_⟩
    · rw [h.data, hb₃]
    · rw [h.xattr, hx₃]
    · rw [h.sqliteSequence, hs₃]
    · rw [h.dentry, hd₃ k]
  refine (ensures_when _ _).2 ⟨fun _ => ?_, fun _ => hpost db₃ (.refl _ _)⟩
  refine (ensures_bind _ _).2 (ensures_updateMtime _ _ _ fun db₄ h₄ => ?_)
  refine (ensures_bind _ _).2 (ensures_updateMtime _ _ _ fun db₅ h₅ => ?_)
  exact ensures_updateCtime _ _ _ fun db₆ h₆ => hpost db₆ ((h₄.trans h₅).trans h₆)

theorem deleteDentry_spec (now : Now) (p : ℕ) (n : Name) (db : Db X) :
    (self.deleteDentry now p n).Ensures db (fun child db' => db.Unlinked p n child db')
      (fun _ db' => db' = db) := by
  unfold deleteDentry
  simp only [ensures_atomically, ensures_bind, ensures_get, ensures_ofOption, ensures_pure]
  refine ⟨fun e he => ?_, fun _ => trivial⟩
  refine (deleteDentryLocal_spec db .timeless p n).mono (fun _ db₁ hself => ?_)
    fun _ _ h => h.elim
  obtain ⟨h₁, hd₁⟩ := hself
  refine (deleteSubDentry_spec db₁ .timeless e.childId).mono (fun _ db₂ hsub => ?_)
    fun _ _ h => h.elim
  obtain ⟨h₂, hd₂⟩ := hsub
  have hpost : ∀ db' : Db X, db₂.SameUpTo .timeless db' → db.Unlinked p n e.childId db' := by
    intro db' h
    refine ⟨⟨e, he, rfl⟩, (h₁.trans h₂).trans h.sameButDentry, fun k => ?_⟩
    rw [h.dentry, hd₂ k, hd₁ k]
    split_ifs
    · rfl
    · rfl
  refine (ensures_when _ _).2 ⟨fun _ => ?_, fun _ => hpost db₂ (.refl _ _)⟩
  refine (ensures_bind _ _).2 (ensures_updateCtime _ _ _ fun db₃ h₃ => ?_)
  refine (ensures_bind _ _).2 (ensures_updateMtime _ _ _ fun db₄ h₄ => ?_)
  exact ensures_updateCtime _ _ _ fun db₅ h₅ => hpost db₅ ((h₃.trans h₄).trans h₅)

theorem moveDentry_spec (now : Now) {p p' : ℕ} {n n' : Name} (hne : (p, n) ≠ (p', n'))
    (db : Db X) :
    (self.moveDentry now p n p' n').Ensures db
      (fun res db' => ∃ e, db.Moved p n p' n' e res db') (fun _ db' => db' = db) := by
  unfold moveDentry
  rw [ensures_atomically, ensures_bind]
  refine (getDentrySingle_spec db p n).mono (fun entry db₀ h₀ => ?_) fun _ _ h => h.elim
  obtain ⟨rfl, hentry⟩ := h₀
  rw [ensures_bind, ensures_ofOption]
  refine ⟨fun dentry hd => ?_, fun _ => rfl⟩
  rw [hd] at hentry
  obtain ⟨e, he, rfl⟩ := Option.map_eq_some_iff.1 hentry.symm
  rw [ensures_bind]
  refine (getDentrySingle_spec db₀ p' n').mono (fun exist db₁ h₁ => ?_) fun _ _ h => h.elim
  obtain ⟨rfl, rfl⟩ := h₁
  rw [ensures_bind]
  refine (overwriteDentry_spec db₁ .timeless e.fileType p' n').mono (fun res db₂ h₂ => ?_)
    fun _ _ _ => rfl
  obtain ⟨hres, hchecks, hrest₂, hd₂⟩ := h₂
  have he₂ : db₂.dentry.find (p, n) = some e := by
    rw [hd₂, if_neg fun h => hne h.1, he]
  rw [ensures_bind]
  refine (updateDentry_spec db₂ .timeless he₂ _).mono (fun _ db₃ h₃ => ?_) fun _ _ _ => rfl
  obtain ⟨hfree, hp', hrest₃, hd₃⟩ := h₃
  simp only at hfree hp' hd₃
  have hfree₂ := hfree.resolve_left fun h => hne h.symm
  have hmoved : ∀ k, db₃.dentry.find k = db₁.movedEntry p n p' n' e k := by
    intro k
    rw [hd₃ k, Db.movedEntry, hd₂ k]
    by_cases hk : k = (p', n')
    · simp only [hk, ↓reduceIte]
    · simp only [hk, false_and, ↓reduceIte]
  have hdots : ∀ v, db₁.dentry.find (p', n') = some v → ¬ (n' = dotdot ∨ n' = dot) := by
    intro v hv hn
    rw [hd₂, if_neg fun h => h.2 hn, hv] at hfree₂
    exact absurd hfree₂ (by simp)
  have hpar : (db₁.metadata.find p').isSome := by
    have := congrArg Option.isSome (hrest₂.metadata.find p')
    simpa only [Option.isSome_map, hp', eq_comm] using this
  have hpost : ∀ db₄ db' : Db X, db₃.SameButDentry .timeless db₄ →
      (∀ k, db₄.dentry.find k =
        if p ≠ p' ∧ e.fileType = .Directory ∧ k = (e.childId, dotdot) then
          (db₁.movedEntry p n p' n' e k).map fun x => { x with childId := p' }
        else db₁.movedEntry p n p' n' e k) → db₄.SameUpTo .timeless db' →
      ∃ e, db₁.Moved p n p' n' e res db' := by
    intro db₄ db' hrest₄ hd₄ h
    refine ⟨e, he, hres, fun v hv => (hchecks v hv).1, hdots, fun v hv => (hchecks v hv).2, hpar,
      ((hrest₂.trans hrest₃).trans hrest₄).trans h.sameButDentry, fun k => ?_⟩
    rw [h.dentry, hd₄ k]
  have htimes : ∀ db₄ : Db X, (∀ db', db₄.SameUpTo .timeless db' →
      ∃ e, db₁.Moved p n p' n' e res db') →
      (do Proc.when self.timeRecording do
            updateCtime e.childId now
            updateMtime p now
            updateCtime p now
            Proc.when (p ≠ p') do
              updateMtime p' now
              updateCtime p' now
          pure res : Conn X (Option ℕ)).Ensures db₄
        (fun res db' => ∃ e, db₁.Moved p n p' n' e res db') (fun _ _ => db₁ = db₁) := by
    intro db₄ h₄
    simp only [ensures_bind, ensures_when, ensures_pure]
    refine ⟨fun _ => ?_, fun _ => h₄ db₄ (.refl _ _)⟩
    refine ensures_updateCtime _ _ _ fun db₅ h₅ => ensures_updateMtime _ _ _ fun db₆ h₆ =>
      ensures_updateCtime _ _ _ fun db₇ h₇ => ?_
    refine ⟨fun _ => ?_, fun _ => h₄ db₇ ((h₅.trans h₆).trans h₇)⟩
    exact ensures_updateMtime _ _ _ fun db₈ h₈ => ensures_updateCtime _ _ _ fun db₉ h₉ =>
      h₄ db₉ ((((h₅.trans h₆).trans h₇).trans h₈).trans h₉)
  rw [ensures_bind, ensures_when]
  constructor
  · rintro ⟨hpp, hdir⟩
    cases hx : db₃.dentry.find (e.childId, dotdot) with
    | none =>
      refine (ensures_step _ _).2 ⟨fun db₄ h₄ => ?_, fun _ => rfl⟩
      rw [Db.updateDentry_of_find_none hx] at h₄
      obtain rfl := Option.some.inj h₄
      refine htimes db₃ fun db' h => hpost db₃ db' (.refl _ _) (fun k => ?_) h
      split_ifs with hk
      · rw [hk.2.2, ← hmoved, hx, Option.map_none]
      · exact hmoved k
    | some x =>
      refine (updateDentry_spec db₃ .timeless hx _).mono (fun _ db₄ h₄ => ?_) fun _ _ _ => rfl
      obtain ⟨-, -, hrest₄, hd₄⟩ := h₄
      have hkey := AuditedTable.key_of_find hx
      simp only [dentrySpec_key, Prod.mk.injEq] at hkey
      refine htimes db₄ fun db' h => hpost db₄ db' hrest₄ (fun k => ?_) h
      rw [hd₄ k]
      simp only [hkey.1, hkey.2]
      by_cases hk : k = (e.childId, dotdot)
      · rw [if_pos hk, if_pos ⟨hpp, hdir, hk⟩, hk, ← hmoved, hx, Option.map_some, hkey.1, hkey.2]
      · rw [if_neg hk, if_neg hk, if_neg fun h => hk h.2.2, hmoved]
  · intro hn
    refine htimes db₃ fun db' h => hpost db₃ db' (.refl _ _) (fun k => ?_) h
    rw [if_neg fun h => hn ⟨h.1, h.2.1⟩, hmoved]

/-- The source removes the target first and then finds no row to update. -/
theorem moveDentry_onto_itself_spec (now : Now) (p : ℕ) (n : Name) (db : Db X) :
    (self.moveDentry now p n p n).Ensures db
      (fun res db' => ∃ e, res = some e.childId ∧ db.MovedOntoItself p n e db')
      (fun _ db' => db' = db) := by
  unfold moveDentry
  rw [ensures_atomically, ensures_bind]
  refine (getDentrySingle_spec db p n).mono (fun entry db₀ h₀ => ?_) fun _ _ h => h.elim
  obtain ⟨rfl, hentry⟩ := h₀
  rw [ensures_bind, ensures_ofOption]
  refine ⟨fun dentry hd => ?_, fun _ => rfl⟩
  rw [hd] at hentry
  obtain ⟨e, he, rfl⟩ := Option.map_eq_some_iff.1 hentry.symm
  rw [ensures_bind]
  refine (getDentrySingle_spec db₀ p n).mono (fun exist db₁ h₁ => ?_) fun _ _ h => h.elim
  obtain ⟨rfl, rfl⟩ := h₁
  rw [ensures_bind]
  refine (overwriteDentry_spec db₁ .timeless e.fileType p n).mono (fun res db₂ h₂ => ?_)
    fun _ _ _ => rfl
  obtain ⟨hres, hchecks, hrest₂, hd₂⟩ := h₂
  rw [he, Option.map_some] at hres
  have hkey := AuditedTable.key_of_find he
  simp only [dentrySpec_key, Prod.mk.injEq] at hkey
  have htimes : ∀ db₃ : Db X, db₂.SameButDentry .timeless db₃ →
      (∀ k, db₃.dentry.find k = db₂.dentry.find k) →
      (do Proc.when (p ≠ p ∧ e.fileType = .Directory) (execute fun db => db.updateDentry e.childId
            dotdot fun e => { e with childId := p })
          Proc.when self.timeRecording do
            updateCtime e.childId now
            updateMtime p now
            updateCtime p now
            Proc.when (p ≠ p) do
              updateMtime p now
              updateCtime p now
          pure res : Conn X (Option ℕ)).Ensures db₃
        (fun res db' => ∃ e, res = some e.childId ∧ db₁.MovedOntoItself p n e db')
        (fun _ _ => db₁ = db₁) := by
    intro db₃ hrest₃ hd₃
    have hpost : ∀ db', db₃.SameUpTo .timeless db' →
        ∃ e, res = some e.childId ∧ db₁.MovedOntoItself p n e db' := by
      intro db' h
      refine ⟨e, hres, he, fun hdir => (hchecks e he).2 hdir,
        (hrest₂.trans hrest₃).trans h.sameButDentry, fun k => ?_⟩
      rw [h.dentry, hd₃, hd₂]
    simp only [ensures_bind, ensures_when, ensures_pure, ne_eq, not_true_eq_false, false_and,
      false_implies, not_false_eq_true, true_implies, true_and]
    exact ⟨fun _ => ensures_updateCtime _ _ _ fun db₅ h₅ => ensures_updateMtime _ _ _
      fun db₆ h₆ => ensures_updateCtime _ _ _ fun db₇ h₇ => hpost db₇ ((h₅.trans h₆).trans h₇),
      fun _ => hpost db₃ (.refl _ _)⟩
  rw [ensures_bind]
  by_cases hn : n = dotdot ∨ n = dot
  · have he₂ : db₂.dentry.find (p, n) = some e := by rw [hd₂, if_neg fun h => h.2 hn, he]
    refine (updateDentry_spec db₂ .timeless he₂ _).mono (fun _ db₃ h₃ => ?_) fun _ _ _ => rfl
    obtain ⟨-, -, hrest₃, hd₃⟩ := h₃
    refine htimes db₃ hrest₃ fun k => ?_
    rw [hd₃ k]
    by_cases hk : k = (p, n)
    · rw [hk, he₂, if_pos rfl, ← hkey.1, ← hkey.2]
    · rw [if_neg hk, if_neg hk]
  · have hgone : db₂.dentry.find (p, n) = none := by rw [hd₂, if_pos ⟨rfl, hn⟩]
    refine (ensures_step _ _).2 ⟨fun db₃ h₃ => ?_, fun _ => rfl⟩
    rw [Db.updateDentry_of_find_none hgone] at h₃
    obtain rfl := Option.some.inj h₃
    exact htimes db₂ (.refl _ _) fun _ => rfl

/-- The checks of an existing target are the only reasons to stop before it is overwritten. -/
theorem overwriteDentry_returns (db : Db X) (t : FileType) (p : ℕ) (n : Name)
    (h : ∀ v, db.dentry.find (p, n) = some v → t = v.fileType ∧
      (v.fileType = .Directory → directoryIsEmpty db.dentry.rows v.childId = true)) :
    (overwriteDentry t p n
        ((db.dentry.find (p, n)).map fun e => ⟨p, e.childId, e.fileType, n⟩)).Ensures db
      (fun _ _ => True) (fun _ _ => False) := by
  cases hv : db.dentry.find (p, n) with
  | none => trivial
  | some v =>
    obtain ⟨ht, hempty⟩ := h v hv
    unfold overwriteDentry checkDirectoryIsEmptyLocal
    simp only [Option.map_some, ensures_bind, ensures_require, ensures_when, ensures_get,
      ensures_pure]
    have hdel : (deleteDentryLocal p n).Ensures db (fun _ _ => True) (fun _ _ => False) :=
      (deleteDentryLocal_spec db .timeless p n).mono (fun _ _ _ => trivial) fun _ _ h => h
    exact ⟨fun _ => ⟨fun hdir => ⟨fun _ => hdel, fun hne => hne (hempty hdir)⟩, fun _ => hdel⟩,
      fun hne => hne ht⟩

/-- A rename to another place that the tables allow succeeds, whatever the settings of the
connection. -/
theorem moveDentry_returns (now : Now) {p p' : ℕ} {n n' : Name} (db : Db X)
    (h : db.CanMove p n p' n') :
    (self.moveDentry now p n p' n').Ensures db (fun _ _ => True) (fun _ _ => False) := by
  obtain ⟨hne, hp', e, he, hchecks⟩ := h
  unfold moveDentry
  rw [ensures_atomically, ensures_bind]
  refine (getDentrySingle_spec db p n).mono (fun entry db₀ h₀ => ?_) fun _ _ h => h
  obtain ⟨rfl, rfl⟩ := h₀
  rw [ensures_bind, ensures_ofOption]
  refine ⟨fun dentry hd => ?_, fun hnone => by simp [he] at hnone⟩
  rw [he, Option.map_some, Option.some.injEq] at hd
  subst hd
  rw [ensures_bind]
  refine (getDentrySingle_spec db₀ p' n').mono (fun exist db₁ h₁ => ?_) fun _ _ h => h
  obtain ⟨rfl, rfl⟩ := h₁
  rw [ensures_bind]
  refine ((overwriteDentry_spec db₁ .timeless e.fileType p' n').and
    (overwriteDentry_returns db₁ e.fileType p' n' fun v hv => (hchecks v hv).2)).mono
    (fun res db₂ h₂ => ?_) fun _ _ h => h.2
  obtain ⟨⟨-, -, hrest₂, hd₂⟩, -⟩ := h₂
  have he₂ : db₂.dentry.find (p, n) = some e := by
    rw [hd₂, if_neg fun h => hne h.1, he]
  have hp₂ : (db₂.metadata.find p').isSome := by
    have := congrArg Option.isSome (hrest₂.metadata.find p')
    simpa only [Option.isSome_map, hp'] using this
  have hfree : db₂.dentry.find (p', n') = none := by
    rw [hd₂]
    split_ifs with hk
    · rfl
    · cases hv : db₁.dentry.find (p', n') with
      | none => rfl
      | some v => exact absurd ⟨rfl, (hchecks v hv).1⟩ hk
  have htimes : ∀ db₄ : Db X, (do
      Proc.when self.timeRecording do
        updateCtime e.childId now
        updateMtime p now
        updateCtime p now
        Proc.when (p ≠ p') do
          updateMtime p' now
          updateCtime p' now
      pure res : Conn X (Option ℕ)).Ensures db₄ (fun _ _ => True) (fun _ _ => False) := by
    intro db₄
    simp only [ensures_bind, ensures_when, ensures_pure, implies_true, and_true]
    refine fun _ => ensures_updateCtime _ _ _ fun db₅ _ => ensures_updateMtime _ _ _ fun db₆ _ =>
      ensures_updateCtime _ _ _ fun db₇ _ _ => ?_
    exact ensures_updateMtime _ _ _ fun _ _ => ensures_updateCtime _ _ _ fun _ _ => trivial
  rw [ensures_bind]
  refine (ensures_step _ _).2 ⟨fun db₃ h₃ => ?_, fun hnone => ?_⟩
  · obtain ⟨-, -, hm₃, -⟩ := Db.updateDentry_eq_some he₂ h₃
    rw [ensures_bind, ensures_when]
    refine ⟨fun _ => (ensures_step _ _).2 ⟨fun db₄ _ => htimes db₄, fun hnone => ?_⟩,
      fun _ => htimes db₃⟩
    cases hx : db₃.dentry.find (e.childId, dotdot) with
    | none => rw [Db.updateDentry_of_find_none hx] at hnone; exact absurd hnone (by simp)
    | some x =>
      have hkey := AuditedTable.key_of_find hx
      obtain ⟨db₄, h₄⟩ := Db.updateDentry_isSome (f := fun x => { x with childId := p' }) hx
        (Or.inl hkey) (db₃.dentry_fk _ x hx).1 (by rwa [hm₃])
      rw [h₄] at hnone
      exact absurd hnone (by simp)
  · obtain ⟨db₃, h₃⟩ := Db.updateDentry_isSome
      (f := fun e => { e with parentId := p', name := n' }) he₂ (Or.inr hfree) hp₂
      (db₂.dentry_fk _ e he₂).2
    rw [h₃] at hnone
    exact absurd hnone (by simp)

/-- A rename onto itself fails only where the entry is missing or the directory is not empty. -/
theorem moveDentry_onto_itself_returns (now : Now) {p : ℕ} {n : Name} (db : Db X) {e : DentryRow}
    (he : db.dentry.find (p, n) = some e) (hempty : e.fileType = .Directory →
      directoryIsEmpty db.dentry.rows e.childId = true) :
    (self.moveDentry now p n p n).Ensures db (fun _ _ => True) (fun _ _ => False) := by
  unfold moveDentry
  rw [ensures_atomically, ensures_bind]
  refine (getDentrySingle_spec db p n).mono (fun entry db₀ h₀ => ?_) fun _ _ h => h
  obtain ⟨rfl, rfl⟩ := h₀
  rw [ensures_bind, ensures_ofOption]
  refine ⟨fun dentry hd => ?_, fun hnone => by simp [he] at hnone⟩
  rw [he, Option.map_some, Option.some.injEq] at hd
  subst hd
  rw [ensures_bind]
  refine (getDentrySingle_spec db₀ p n).mono (fun exist db₁ h₁ => ?_) fun _ _ h => h
  obtain ⟨rfl, rfl⟩ := h₁
  rw [ensures_bind]
  have hchecks : ∀ v, db₁.dentry.find (p, n) = some v → e.fileType = v.fileType ∧
      (v.fileType = .Directory → directoryIsEmpty db₁.dentry.rows v.childId = true) := by
    intro v hv
    obtain rfl := Option.some.inj (he.symm.trans hv)
    exact ⟨rfl, hempty⟩
  refine ((overwriteDentry_spec db₁ .timeless e.fileType p n).and
    (overwriteDentry_returns db₁ e.fileType p n hchecks)).mono (fun res db₂ h₂ => ?_)
    fun _ _ h => h.2
  rw [ensures_bind]
  refine (ensures_step _ _).2 ⟨fun db₃ _ => ?_, fun hnone => ?_⟩
  · simp only [ne_eq, not_true_eq_false, false_and, ensures_bind, ensures_when, ensures_pure,
      false_implies, not_false_eq_true, true_implies, true_and, and_true, implies_true]
    exact fun _ => ensures_updateCtime _ _ _ fun _ _ => ensures_updateMtime _ _ _ fun _ _ =>
      ensures_updateCtime _ _ _ fun _ _ => trivial
  · cases hx : db₂.dentry.find (p, n) with
    | none => rw [Db.updateDentry_of_find_none hx] at hnone; exact absurd hnone (by simp)
    | some x =>
      obtain ⟨db₃, h₃⟩ := Db.updateDentry_isSome
        (f := fun e => { e with parentId := p, name := n }) hx (Or.inl rfl)
        (by
          have hkey := AuditedTable.key_of_find hx
          simp only [dentrySpec_key, Prod.mk.injEq] at hkey
          exact hkey.1 ▸ (db₂.dentry_fk _ x hx).1) (db₂.dentry_fk _ x hx).2
      rw [h₃] at hnone
      exact absurd hnone (by simp)

/-- An entry is removed where there is one. -/
theorem deleteDentry_returns (now : Now) (p : ℕ) (n : Name) (db : Db X) :
    (self.deleteDentry now p n).Ensures db
      (fun child _ => ∃ e, db.dentry.find (p, n) = some e ∧ e.childId = child)
      (fun _ _ => db.dentry.find (p, n) = none) := by
  unfold deleteDentry
  simp only [ensures_atomically, ensures_bind, ensures_get, ensures_ofOption, ensures_pure]
  refine ⟨fun e he => ?_, fun hnone => hnone⟩
  refine (deleteDentryLocal_spec db .timeless p n).mono (fun _ db₁ _ => ?_) fun _ _ h => h.elim
  refine (deleteSubDentry_spec db₁ .timeless e.childId).mono (fun _ db₂ _ => ?_)
    fun _ _ h => h.elim
  refine (ensures_when _ _).2 ⟨fun _ => ?_, fun _ => ⟨e, he, rfl⟩⟩
  refine (ensures_bind _ _).2 (ensures_updateCtime _ _ _ fun _ _ => ?_)
  refine (ensures_bind _ _).2 (ensures_updateMtime _ _ _ fun _ _ => ?_)
  exact ensures_updateCtime _ _ _ fun _ _ => ⟨e, he, rfl⟩

end Sqlite

end TemporalFs
