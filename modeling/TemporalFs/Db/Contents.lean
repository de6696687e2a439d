import Mathlib
import TemporalFs.Db.Effects

/-!
# What the methods do to inodes, blocks and attributes

The specifications of the methods that do not change the namespace on their own: the deletion of
inodes without an entry, reads, writes of blocks, truncation and extended attributes. A file is
seen as its blocks (`Db.blocks`), numbered from one, where a block may be missing or stored short.

## Main definitions

* `Db.blocks`: the blocks of a file; `truncatedBlock`: what a truncation leaves of them.
* `Db.collect`, `Db.deleteAll`: the deletion of inodes without an entry.
* `Db.Written`, `Db.Updated`, `Db.XattrChanged`: the effects of successful calls.

## Main results

* `Sqlite.writeData_spec`, `Sqlite.updateInode_spec`, `Sqlite.lookup_spec` and so on.
-/

namespace TemporalFs

variable {X : Externals}

/-- The blocks of the file `i` by their numbers, `none` where no row is stored. -/
def Db.blocks (db : Db X) (i k : ℕ) : Option Bytes := (db.data.find (i, k)).map DataRow.data

/-- The row of a block is determined by its bytes. -/
theorem Db.data_find_eq (db : Db X) (i k : ℕ) :
    db.data.find (i, k) = (db.blocks i k).map fun bytes => ⟨i, k, bytes⟩ := by
  unfold Db.blocks
  cases hr : db.data.find (i, k) with
  | none => rfl
  | some r =>
    have hkey := AuditedTable.key_of_find hr
    simp only [dataSpec_key, Prod.mk.injEq] at hkey
    cases r
    simp_all

/-! ### Deleting inodes without an entry -/

/-- The inode `i` is deleted if no entry names it, as `deleteInodeIfNoref` does it. -/
def Db.collect (db : Db X) (i : ℕ) : Db X :=
  if nlink db.dentry.rows i = none then db.deleteMetadata i else db

theorem nlink_eq_none_iff (rows : List DentryRow) (i : ℕ) :
    nlink rows i = none ↔ ∀ e ∈ rows, e.childId ≠ i := by
  have : nlink rows i = none ↔ rows.countP (fun e => e.childId = i) = 0 := by
    unfold nlink
    dsimp only
    split_ifs with h <;> simp [h]
  rw [this, List.countP_eq_zero]
  simp

/-- No entry names the inode `i`, not even one of its own. -/
def Db.Unnamed (db : Db X) (i : ℕ) : Prop := ∀ k e, db.dentry.find k = some e → e.childId ≠ i

theorem Db.nlink_eq_none_iff_unnamed (db : Db X) (i : ℕ) :
    nlink db.dentry.rows i = none ↔ db.Unnamed i := by
  rw [nlink_eq_none_iff]
  constructor
  · exact fun h k e he => h e (AuditedTable.mem_of_find he)
  · exact fun h e he => h _ e (db.dentry.find_key he)

section Collect

variable (db : Db X) (i : ℕ)

theorem Db.collect_of_unnamed (h : db.Unnamed i) : db.collect i = db.deleteMetadata i :=
  if_pos ((db.nlink_eq_none_iff_unnamed i).2 h)

theorem Db.collect_of_not_unnamed (h : ¬ db.Unnamed i) : db.collect i = db :=
  if_neg fun hn => h ((db.nlink_eq_none_iff_unnamed i).1 hn)

theorem Db.metadata_find_collect (j : ℕ) (hj : j ≠ i) :
    (db.collect i).metadata.find j = db.metadata.find j := by
  unfold Db.collect
  split_ifs
  · rw [Db.metadata_find_deleteMetadata, if_neg hj]
  · rfl

theorem Db.dentry_find_collect (k : ℕ × Name) (e : DentryRow) :
    (db.collect i).dentry.find k = some e ↔
      db.dentry.find k = some e ∧ (db.Unnamed i → e.parentId ≠ i) := by
  by_cases h : db.Unnamed i
  · rw [db.collect_of_unnamed i h, Db.dentry_find_deleteMetadata]
    exact and_congr_right fun he => ⟨fun hne _ => hne.1, fun hne => ⟨hne h, h k e he⟩⟩
  · rw [db.collect_of_not_unnamed i h]
    simp only [h, false_implies, and_true]

theorem Db.blocks_collect (j : ℕ) (hj : j ≠ i) : (db.collect i).blocks j = db.blocks j := by
  unfold Db.collect
  split_ifs
  · funext k
    simp only [Db.blocks, Db.data_find_deleteMetadata, if_neg hj]
  · rfl

theorem Db.xattr_find_collect (k : ℕ × Name) (hk : k.1 ≠ i) :
    (db.collect i).xattr.find k = db.xattr.find k := by
  unfold Db.collect
  split_ifs
  · rw [Db.xattr_find_deleteMetadata, if_neg hk]
  · rfl

@[simp] theorem Db.sqliteSequence_collect :
    (db.collect i).sqliteSequence = db.sqliteSequence := by
  unfold Db.collect
  split_ifs <;> simp

end Collect

/-- The inodes of a list are deleted one after the other, each with all that belongs to it. -/
def Db.deleteAll (db : Db X) (l : List ℕ) : Db X := l.foldl Db.deleteMetadata db

section DeleteAll

theorem Db.metadata_find_deleteAll (l : List ℕ) (db : Db X) (j : ℕ) :
    (db.deleteAll l).metadata.find j = if j ∈ l then none else db.metadata.find j := by
  induction l generalizing db with
  | nil => simp [Db.deleteAll]
  | cons i l ih =>
    rw [Db.deleteAll, List.foldl_cons]
    refine (ih _).trans ?_
    rw [Db.metadata_find_deleteMetadata]
    by_cases hj : j = i <;> by_cases hl : j ∈ l <;> simp [hj, hl]

theorem Db.dentry_find_deleteAll (l : List ℕ) (db : Db X) (k : ℕ × Name) (e : DentryRow) :
    (db.deleteAll l).dentry.find k = some e ↔
      db.dentry.find k = some e ∧ e.parentId ∉ l ∧ e.childId ∉ l := by
  induction l generalizing db with
  | nil => simp [Db.deleteAll]
  | cons i l ih =>
    rw [Db.deleteAll, List.foldl_cons]
    refine (ih _).trans ?_
    rw [Db.dentry_find_deleteMetadata]
    simp only [List.mem_cons, not_or]
    tauto

theorem Db.data_find_deleteAll (l : List ℕ) (db : Db X) (k : ℕ × ℕ) :
    (db.deleteAll l).data.find k = if k.1 ∈ l then none else db.data.find k := by
  induction l generalizing db with
  | nil => simp [Db.deleteAll]
  | cons i l ih =>
    rw [Db.deleteAll, List.foldl_cons]
    refine (ih _).trans ?_
    rw [Db.data_find_deleteMetadata]
    by_cases hj : k.1 = i <;> by_cases hl : k.1 ∈ l <;> simp [hj, hl]

theorem Db.xattr_find_deleteAll (l : List ℕ) (db : Db X) (k : ℕ × Name) :
    (db.deleteAll l).xattr.find k = if k.1 ∈ l then none else db.xattr.find k := by
  induction l generalizing db with
  | nil => simp [Db.deleteAll]
  | cons i l ih =>
    rw [Db.deleteAll, List.foldl_cons]
    refine (ih _).trans ?_
    rw [Db.xattr_find_deleteMetadata]
    by_cases hj : k.1 = i <;> by_cases hl : k.1 ∈ l <;> simp [hj, hl]

theorem Db.blocks_deleteAll (l : List ℕ) (db : Db X) (j k : ℕ) :
    (db.deleteAll l).blocks j k = if j ∈ l then none else db.blocks j k := by
  rw [Db.blocks, Db.data_find_deleteAll]
  split_ifs
  · rfl
  · rfl

theorem Db.sqliteSequence_deleteAll (l : List ℕ) (db : Db X) :
    (db.deleteAll l).sqliteSequence = db.sqliteSequence :=
  Db.foldl_eq_of_forall Db.sqliteSequence Db.deleteMetadata
    (fun db i => db.sqliteSequence_deleteMetadata i) l db

end DeleteAll

/-- The inodes that have a row and no entry, in the order of the rows. -/
def Db.unnamed (db : Db X) : List ℕ :=
  (db.metadata.rows.filter fun m => nlink db.dentry.rows m.id = none).map MetadataRow.id

theorem Db.mem_unnamed (db : Db X) (i : ℕ) :
    i ∈ db.unnamed ↔ (db.metadata.find i).isSome ∧ db.Unnamed i := by
  simp only [Db.unnamed, List.mem_map, List.mem_filter, decide_eq_true_eq]
  constructor
  · rintro ⟨m, ⟨hm, hn⟩, rfl⟩
    exact ⟨by simp [show db.metadata.find m.id = some m from db.metadata.find_key hm],
      (db.nlink_eq_none_iff_unnamed _).1 hn⟩
  · rintro ⟨hi, hn⟩
    obtain ⟨m, hm⟩ := Option.isSome_iff_exists.1 hi
    have hid : m.id = i := AuditedTable.key_of_find hm
    exact ⟨m, ⟨AuditedTable.mem_of_find hm, by
      rw [hid]
      exact (db.nlink_eq_none_iff_unnamed i).2 hn⟩, hid⟩

/-! ### Truncation -/

/-- What `releaseData` leaves of the block `k`: blocks behind the new end go, and the one in which
it lies is cut short. -/
def truncatedBlock (offset : ℕ) (blocks : ℕ → Option Bytes) (k : ℕ) : Option Bytes :=
  if offset % blockSize ≠ 0 ∧ k = offset / blockSize + 1 then
    some (resize ((blocks k).getD (List.replicate blockSize 0)) (offset % blockSize))
  else if offset = 0 ∨ offset / blockSize < k then none
  else blocks k

theorem Db.blocks_deleteDataWhere (db : Db X) (i : ℕ) (p : DataRow → Bool) (q : ℕ → Prop)
    [DecidablePred q] (hp : ∀ r, p r = decide (r.fileId = i ∧ q r.blockNum)) (j k : ℕ) :
    (db.deleteDataWhere p).blocks j k = if j = i ∧ q k then none else db.blocks j k := by
  unfold Db.blocks
  rw [Db.data_find_deleteDataWhere]
  cases hr : db.data.find (j, k) with
  | none => simp
  | some r =>
    have hkey := AuditedTable.key_of_find hr
    simp only [dataSpec_key, Prod.mk.injEq] at hkey
    by_cases h : j = i ∧ q k
    · simp [Option.filter, hp, hkey, h]
    · simp [Option.filter, hp, hkey, h]

open Proc

theorem releaseData_spec (db : Db X) (i : ℕ) (offset : UInt32)
    (hi : (db.metadata.find i).isSome) :
    (releaseData i offset).Ensures db
      (fun _ db' => db'.metadata = db.metadata ∧ db'.dentry = db.dentry ∧ db'.xattr = db.xattr ∧
        db'.sqliteSequence = db.sqliteSequence ∧ ∀ j k, db'.blocks j k =
          if j = i then truncatedBlock offset.toNat (db.blocks i) k else db.blocks j k)
      (fun _ _ => False) := by
  unfold releaseData executeAll execute
  have h₀ : offset = 0 ↔ offset.toNat = 0 := by
    rw [← UInt32.toNat_inj]
    rfl
  rw [ensures_ite, ensures_ite]
  refine ⟨fun h => ?_, fun h => ⟨fun hmod => ?_, fun hmod => ?_⟩⟩
  · refine (ensures_modify _).2 ⟨by simp, by simp, by simp, by simp, fun j k => ?_⟩
    rw [db.blocks_deleteDataWhere i _ (fun _ => True) (by simp)]
    have := h₀.1 h
    by_cases hj : j = i <;> simp [truncatedBlock, this, hj]
  · refine (ensures_modify _).2 ⟨by simp, by simp, by simp, by simp, fun j k => ?_⟩
    rw [db.blocks_deleteDataWhere i _ (fun b => b > offset.toNat / blockSize) (by simp)]
    have : offset.toNat ≠ 0 := fun h' => h (h₀.2 h')
    by_cases hj : j = i
    · by_cases hk : offset.toNat / blockSize < k <;> simp [truncatedBlock, hmod, this, hj, hk]
    · simp [hj]
  · rw [ensures_bind, ensures_get, ensures_bind]
    refine (ensures_step _ _).2 ⟨fun db₁ h₁ => ?_, fun hnone => ?_⟩
    · obtain ⟨-, hm₁, hd₁, hb₁, hx₁, hs₁⟩ := Db.replaceData_eq_some h₁
      refine (ensures_modify _).2 ⟨by simp [hm₁], by simp [hd₁], by simp [hx₁], ?_, fun j k => ?_⟩
      · simp [hs₁]
      rw [db₁.blocks_deleteDataWhere i _ (fun b => b > offset.toNat / blockSize + 1) (by simp)]
      have hblock : db₁.blocks j k = if (i, offset.toNat / blockSize + 1) = (j, k) then
          some (resize ((db.blocks i (offset.toNat / blockSize + 1)).getD
            (List.replicate blockSize 0)) (offset.toNat % blockSize)) else db.blocks j k := by
        unfold Db.blocks
        rw [hb₁, AuditedTable.find_put]
        simp only [dataSpec_key]
        by_cases hk : (i, offset.toNat / blockSize + 1) = (j, k)
        · simp only [hk, ↓reduceIte]
          cases db.data.find (j, k) with
          | none => rfl
          | some r => rfl
        · simp only [hk, ↓reduceIte]
      rw [hblock]
      have hne : offset.toNat ≠ 0 := fun h' => h (h₀.2 h')
      unfold truncatedBlock
      by_cases hj : j = i
      · subst hj
        generalize offset.toNat / blockSize = q
        rcases lt_trichotomy k (q + 1) with hk | rfl | hk
        · simp only [show ¬ k > q + 1 by omega, show q + 1 ≠ k by omega, show k ≠ q + 1 by omega,
            show ¬ q < k by omega, hne, and_false, or_self, Prod.mk.injEq, ↓reduceIte]
        · simp only [gt_iff_lt, lt_self_iff_false, and_false, ne_eq, hmod, not_false_eq_true,
            and_self, ↓reduceIte]
        · simp only [show k > q + 1 by omega, show k ≠ q + 1 by omega, show q < k by omega,
            and_false, and_self, or_true, ↓reduceIte]
      · rw [if_neg fun h => hj h.1, if_neg fun h => hj (congrArg Prod.fst h).symm, if_neg hj]
    · exact Option.isSome_iff_ne_none.1 (db.replaceData_isSome hi) hnone

/-! ### Attributes of inodes -/

theorem nlink_isSome_iff (rows : List DentryRow) (i : ℕ) :
    (nlink rows i).isSome ↔ ∃ e ∈ rows, e.childId = i := by
  rw [Option.isSome_iff_ne_none, ne_eq, nlink_eq_none_iff]
  push Not
  rfl

/-- Attributes that were read come from the row of the inode, which has an entry. -/
theorem MetadataRow.attr_eq_some {m : MetadataRow} {n : Option ℕ} {blocks : ℕ} {a : DBFileAttr}
    (h : m.attr n blocks = some a) : n.isSome ∧ a.ino = m.id ∧ a.size = m.size ∧ a.kind = m.kind ∧
      m.atime.text = some a.atime.sec ∧ m.mtime.text = some a.mtime.sec ∧
        m.crtime.text = some a.crtime.sec := by
  unfold MetadataRow.attr stringToSystemtime at h
  simp only [Option.bind_eq_bind, Option.bind_eq_some_iff, Option.map_eq_some_iff] at h
  obtain ⟨_, ⟨at', hat, rfl⟩, _, ⟨mt, hmt, rfl⟩, _, ⟨ct, hct, rfl⟩, _, ⟨crt, hcrt, rfl⟩, n', hn,
    h⟩ := h
  obtain rfl := Option.some.inj h
  exact ⟨by simp [hn], rfl, rfl, rfl, hat, hmt, hcrt⟩

theorem parseAttr_eq_ok_some {rows : List (Option DBFileAttr)} {a : DBFileAttr}
    (h : parseAttr rows = .ok (some a)) : some a ∈ rows := by
  unfold parseAttr at h
  split_ifs at h
  cases rows with
  | nil => simp at h
  | cons r rows =>
    simp only [List.head?_cons, Option.bind_some, id, Except.ok.injEq] at h
    simp [h]

theorem inodeAttr_eq_ok_some {i : ℕ} {db : Db X} {a : DBFileAttr}
    (h : inodeAttr i db = .ok (some a)) : ∃ m, db.metadata.find i = some m ∧
      m.attr (nlink db.dentry.rows i) (countBlocks db.data.rows i) = some a := by
  have hmem := parseAttr_eq_ok_some h
  obtain ⟨m, hm, hattr⟩ := List.mem_map.1 hmem
  exact ⟨m, by simpa using hm, hattr⟩

/-- The number in the attributes of an inode is its own. -/
theorem ino_of_inodeAttr {i : ℕ} {db : Db X} {a : DBFileAttr}
    (h : inodeAttr i db = .ok (some a)) : a.ino = i := by
  obtain ⟨m, hm, hattr⟩ := inodeAttr_eq_ok_some h
  rw [(MetadataRow.attr_eq_some hattr).2.1]
  exact AuditedTable.key_of_find hm

theorem MetadataRow.attr_of_readable {m : MetadataRow} (hm : m.Readable) (n blocks : ℕ) :
    ∃ a, m.attr (some n) blocks = some a ∧ a.ino = m.id := by
  obtain ⟨hat, hmt, hct, hcrt⟩ := hm
  obtain ⟨at', hat⟩ := Option.isSome_iff_exists.1 hat
  obtain ⟨mt, hmt⟩ := Option.isSome_iff_exists.1 hmt
  obtain ⟨ct, hct⟩ := Option.isSome_iff_exists.1 hct
  obtain ⟨crt, hcrt⟩ := Option.isSome_iff_exists.1 hcrt
  simp [MetadataRow.attr, stringToSystemtime, hat, hmt, hct, hcrt]

theorem nlink_of_mem {rows : List DentryRow} {e : DentryRow} (he : e ∈ rows) :
    ∃ n, nlink rows e.childId = some n := by
  have hpos : 0 < rows.countP fun x => x.childId = e.childId :=
    List.countP_pos_iff.2 ⟨e, he, by simp⟩
  exact ⟨_, if_neg hpos.ne'⟩

theorem nlink_eq_some {rows : List DentryRow} {i n : ℕ} (h : nlink rows i = some n) :
    n = rows.countP fun e => e.childId = i := by
  unfold nlink at h
  dsimp only at h
  split_ifs at h
  exact (Option.some.inj h).symm

theorem exists_of_nlink {rows : List DentryRow} {i n : ℕ} (h : nlink rows i = some n) :
    ∃ e ∈ rows, e.childId = i := by
  have hpos : 0 < rows.countP fun e => e.childId = i := by
    by_contra hzero
    simp [nlink, Nat.eq_zero_of_not_pos hzero] at h
  simpa using List.countP_pos_iff.1 hpos

theorem lookupAttr_eq_ok_some {p : ℕ} {n : Name} {db : Db X} {a : DBFileAttr}
    (h : Sqlite.lookupAttr p n db = .ok (some a)) : ∃ e, db.dentry.find (p, n) = some e ∧
      e.childId = a.ino ∧ (db.metadata.find a.ino).isSome := by
  have hmem := parseAttr_eq_ok_some h
  simp only [List.mem_map, Option.mem_toList, Option.bind_eq_some_iff] at hmem
  obtain ⟨m, ⟨e, he, hm⟩, hattr⟩ := hmem
  have hid : m.id = e.childId := AuditedTable.key_of_find hm
  have hino := (MetadataRow.attr_eq_some hattr).2.1
  refine ⟨e, he, hid.symm.trans hino.symm, ?_⟩
  rw [hino, hid, hm]
  rfl

/-- A lookup that finds nothing tells that the name is free. -/
theorem lookupAttr_eq_ok_none {p : ℕ} {n : Name} {db : Db X}
    (h : Sqlite.lookupAttr p n db = .ok none) : db.dentry.find (p, n) = none := by
  cases he : db.dentry.find (p, n) with
  | none => rfl
  | some e =>
    obtain ⟨m, hm⟩ := Option.isSome_iff_exists.1 (db.dentry_fk _ e he).2
    rw [Sqlite.lookupAttr, he, Option.bind_some, hm] at h
    simp only [Option.toList_some, List.map_cons, List.map_nil, parseAttr] at h
    split_ifs at h with hin
    simp only [List.head?_cons, Option.bind_some, id, Except.ok.injEq] at h
    exact absurd (by simp [h]) hin

/-! ### The effects on inodes, blocks and attributes -/

/-- The block `k` of the file `i` was written, and the file grew to `size` bytes if it was
smaller. -/
structure Db.Written (db : Db X) (i k : ℕ) (bytes : Bytes) (size : UInt32) (db' : Db X) : Prop where
  found : (db.metadata.find i).isSome
  dentry : db'.dentry = db.dentry
  xattr : db'.xattr = db.xattr
  sqliteSequence : db'.sqliteSequence = db.sqliteSequence
  blocks : ∀ j b, db'.blocks j b = if j = i ∧ b = k then some bytes else db.blocks j b
  metadata : ∀ j, (db'.metadata.find j).map .timeless = (db.metadata.find j).map fun m =>
    if j = i ∧ size > m.size then { m.timeless with size := size } else m.timeless
  times : ∀ ok, ClockIn ok → AllTimes ok db.metadata → AllTimes ok db'.metadata

/-- The inode `attr.ino` got the attributes `attr`, and was cut if `truncate` says so. -/
structure Db.Updated (db : Db X) (attr : DBFileAttr) (truncate : Bool) (db' : Db X) : Prop where
  found : (db.metadata.find attr.ino).isSome
  dentry : db'.dentry = db.dentry
  xattr : db'.xattr = db.xattr
  sqliteSequence : db'.sqliteSequence = db.sqliteSequence
  blocks : ∀ j b, db'.blocks j b = if j = attr.ino ∧ truncate = true then
    truncatedBlock attr.size.toNat (db.blocks attr.ino) b else db.blocks j b
  metadata : ∀ j, (db'.metadata.find j).map .timeless = (db.metadata.find j).map fun m =>
    if j = attr.ino then { m.timeless with
      size := attr.size, mode := attr.perm, uid := attr.uid, gid := attr.gid, rdev := attr.rdev
      flags := attr.flags } else m.timeless
  times : ∀ ok, ClockIn ok → ok attr.atime.throughDatetime → ok attr.mtime.throughDatetime →
    ok attr.crtime.throughDatetime → AllTimes ok db.metadata → AllTimes ok db'.metadata

/-- The attribute `key` of the inode `i` was set to `value`, or removed. -/
structure Db.XattrChanged (db : Db X) (i : ℕ) (key : Name) (value : Option Bytes) (db' : Db X) :
    Prop where
  metadata : SameRows .timeless db.metadata db'.metadata
  dentry : db'.dentry = db.dentry
  data : db'.data = db.data
  sqliteSequence : db'.sqliteSequence = db.sqliteSequence
  xattr : ∀ k, db'.xattr.find k =
    if k = (i, key) then value.map fun bytes => ⟨i, key, bytes⟩ else db.xattr.find k

namespace Sqlite

variable (self : Sqlite) (now : Now) (db : Db X)

theorem deleteInodeIfNoref_spec (i : ℕ) :
    (self.deleteInodeIfNoref i).Ensures db (fun _ db' => db' = db.collect i)
      (fun _ _ => False) := by
  unfold deleteInodeIfNoref executeAll Db.collect
  simp only [ensures_atomically, ensures_bind, ensures_get, ensures_when, ensures_modify]
  exact ⟨fun h => (if_pos h).symm, fun h => (if_neg h).symm⟩

theorem deleteAllNorefInode_spec :
    (self.deleteAllNorefInode).Ensures db (fun _ db' => db' = db.deleteAll db.unnamed)
      (fun _ _ => False) := by
  unfold deleteAllNorefInode executeAll
  rw [ensures_modify, Db.deleteAll, Db.unnamed, List.foldl_map]

theorem lookup_spec (p : ℕ) (n : Name) :
    (self.lookup now p n).Ensures db
      (fun found db' => lookupAttr p n db = .ok found ∧ db.SameUpTo .atimeless db')
      (fun _ db' => db.SameUpTo .atimeless db') := by
  unfold lookup
  have hquery : ∀ db' : Db X, db.SameUpTo .atimeless db' →
      (query fun _ => lookupAttr p n db : Conn X _).Ensures db'
        (fun found db' => lookupAttr p n db = .ok found ∧ db.SameUpTo .atimeless db')
        (fun _ db' => db.SameUpTo .atimeless db') :=
    fun db' h => (ensures_query _ db').2 ⟨fun _ hfound => ⟨hfound, h⟩, fun _ _ => h⟩
  simp only [ensures_bind, ensures_get, ensures_when]
  exact ⟨fun _ => ensures_updateAtime p now db hquery, fun _ => hquery db (.refl _ _)⟩

theorem getData_spec (i k length : ℕ) :
    (self.getData now i k length).Ensures db
      (fun bytes db' => bytes = (db.blocks i k).getD (List.replicate length 0) ∧
        db.SameUpTo .atimeless db')
      (fun _ _ => False) := by
  unfold getData Db.blocks
  simp only [ensures_atomically, ensures_bind, ensures_get, ensures_when, ensures_pure]
  cases db.data.find (i, k) with
  | none =>
    exact ⟨fun _ => ensures_updateAtime i now db fun _ h => ⟨rfl, h⟩, fun _ => ⟨rfl, .refl _ _⟩⟩
  | some r =>
    exact ⟨fun _ => ensures_updateAtime i now db fun _ h => ⟨rfl, h⟩, fun _ => ⟨rfl, .refl _ _⟩⟩

theorem getDataAtTime_spec (i k length : ℕ) :
    (self.getDataAtTime now i k length).Ensures db
      (fun _ db' => db.SameUpTo .atimeless db') (fun _ db' => db' = db) := by
  unfold getDataAtTime queryTemp
  simp only [ensures_atomically, ensures_bind, ensures_ofOption, ensures_pure, ensures_when]
  exact ⟨fun _ _ => ⟨fun _ => ensures_updateAtime i now db fun _ h => h, fun _ => .refl _ _⟩,
    fun _ => trivial⟩

theorem writeData_spec (i k : ℕ) (bytes : Bytes) (size : UInt32) :
    (self.writeData now i k bytes size).Ensures db (fun _ db' => db.Written i k bytes size db')
      (fun e db' => db' = db ∧ e ≠ .panic ∧
        (db.metadata.find i = none ∨ self.extensions = false)) := by
  unfold writeData execute executeAll
  simp only [ensures_atomically, ensures_bind, ensures_get, ensures_ofOption, ensures_require]
  refine ⟨fun row hrow =>
    ⟨fun hext => ?_, fun hext => ⟨trivial, by simp, Or.inr (by simpa using hext)⟩⟩,
    fun hnone => ⟨trivial, by simp, Or.inl hnone⟩⟩
  have hi : (db.metadata.find i).isSome := by simp [hrow]
  refine (ensures_step _ _).2 ⟨fun db₁ h₁ => ?_, fun hnone => ?_⟩
  · obtain ⟨-, hm₁, hd₁, hx₁, hs₁, hb₁⟩ := Db.upsertData_eq_some h₁
    have hblocks : ∀ j b, db₁.blocks j b = if j = i ∧ b = k then some bytes else db.blocks j b := by
      intro j b
      unfold Db.blocks
      rw [hb₁]
      simp only [Prod.mk.injEq]
      split_ifs <;> rfl
    have hpost : ∀ db₂ db' : Db X, db₂.dentry = db₁.dentry → db₂.xattr = db₁.xattr →
        db₂.sqliteSequence = db₁.sqliteSequence → db₂.data = db₁.data →
        (∀ j, (db₂.metadata.find j).map .timeless = (db.metadata.find j).map fun m =>
          if j = i ∧ size > m.size then { m.timeless with size := size } else m.timeless) →
        (∀ ok, AllTimes ok db.metadata → AllTimes ok db₂.metadata) →
        db₂.SameUpTo .timeless db' → db.Written i k bytes size db' := by
      intro db₂ db' hd hx hs hb hm ht h
      refine ⟨hi, ?_, ?_, ?_, fun j b => ?_, fun j => ?_, fun ok hok hall => ?_⟩
      · rw [h.dentry, hd, hd₁]
      · rw [h.xattr, hx, hx₁]
      · rw [h.sqliteSequence, hs, hs₁]
      · rw [← hblocks j b]
        unfold Db.blocks
        rw [h.data, hb]
      · rw [h.metadata.find j, hm]
      · exact h.metadata.times ok hok (ht ok hall)
    have htimes : ∀ db₂ : Db X, (∀ db', db₂.SameUpTo .timeless db' →
        db.Written i k bytes size db') → (self.timeRecording = true →
          (updateMtime i now).Ensures db₂ (fun _ s' => (updateCtime i now).Ensures s'
            (fun _ db' => db.Written i k bytes size db') (fun e _ => db = db ∧ e ≠ .panic ∧
              (db.metadata.find i = none ∨ self.extensions = false)))
            (fun e _ => db = db ∧ e ≠ .panic ∧
              (db.metadata.find i = none ∨ self.extensions = false))) ∧
        (¬ self.timeRecording = true → db.Written i k bytes size db₂) := by
      intro db₂ h₂
      refine ⟨fun _ => ?_, fun _ => h₂ db₂ (.refl _ _)⟩
      exact ensures_updateMtime _ _ _ fun db₃ h₃ => ensures_updateCtime _ _ _ fun db₄ h₄ =>
        h₂ db₄ (h₃.trans h₄)
    simp only [ensures_when, ensures_modify, ensures_bind]
    constructor
    · intro hsize
      refine htimes _ fun db' =>
        hpost _ db' rfl rfl rfl rfl (fun j => ?_) (fun ok hall j m hm => ?_)
      · rw [Db.metadata_find_updateMetadata, hm₁]
        by_cases hj : j = i
        · subst hj
          rw [if_pos rfl, hrow]
          simp only [Option.map_some, true_and, hsize, ↓reduceIte]
          rfl
        · simp only [hj, false_and, ↓reduceIte]
      · rw [Db.metadata_find_updateMetadata, hm₁] at hm
        split_ifs at hm
        · obtain ⟨m', hm', rfl⟩ := Option.map_eq_some_iff.1 hm
          exact hall i m' hm'
        · exact hall j m hm
    · intro hsize
      refine htimes db₁ fun db' => hpost db₁ db' rfl rfl rfl rfl (fun j => ?_) fun ok hall => ?_
      · rw [hm₁]
        by_cases hj : j = i
        · subst hj
          rw [hrow]
          simp only [Option.map_some, true_and, hsize, ↓reduceIte]
        · simp only [hj, false_and, ↓reduceIte]
      · rwa [hm₁]
  · have := db.upsertData_isSome (r := ⟨i, k, bytes⟩) hi
    rw [Option.isSome_iff_ne_none] at this
    exact absurd hnone this

/-- A block is stored only where the extensions are loaded. -/
theorem writeData_returns (i k : ℕ) (bytes : Bytes) (size : UInt32) :
    (self.writeData now i k bytes size).Ensures db (fun _ _ => self.extensions = true)
      (fun _ _ => True) := by
  unfold writeData
  simp only [ensures_atomically, ensures_bind, ensures_get, ensures_ofOption, ensures_require,
    implies_true, and_true]
  intro row _ hext
  have hall : ∀ {α : Type} (x : Conn X α) (db : Db X),
      x.Ensures db (fun _ _ => self.extensions = true) (fun _ _ => True) := by
    intro α x db
    unfold Ensures
    split
    · exact hext
    · trivial
  simp only [← ensures_bind]
  exact hall _ _

theorem updateInode_spec (attr : DBFileAttr) (truncate : Bool) :
    (self.updateInode now attr truncate).Ensures db (fun _ db' => db.Updated attr truncate db')
      (fun _ db' => db' = db ∧ ((∀ old, inodeAttr attr.ino db ≠ .ok (some old)) ∨
        ¬ inChronoRange attr.atime.sec ∨ ¬ inChronoRange attr.mtime.sec ∨
        ¬ inChronoRange attr.crtime.sec)) := by
  unfold updateInode utcFrom executeAll
  simp only [ensures_atomically, ensures_bind]
  refine (getInodeLocal_spec db attr.ino).mono (fun found db₁ h₁ => ?_) fun e db₁ h₁ => ?_
  rotate_left
  · exact ⟨trivial, Or.inl fun old h => by simp [h₁.2] at h⟩
  obtain ⟨rfl, hfound⟩ := h₁
  rw [ensures_ofOption]
  refine ⟨fun old hold => ?_, fun hnone => ⟨trivial, Or.inl fun old h => ?_⟩⟩
  rotate_left
  · rw [hfound, hnone] at h
    exact absurd h (by simp)
  subst hold
  obtain ⟨m₀, hm₀, -⟩ := inodeAttr_eq_ok_some hfound
  have hi : (db₁.metadata.find attr.ino).isSome := by simp [hm₀]
  have hpost : ∀ mtime : SystemTime, (mtime = now.1 ∨ mtime = attr.mtime) →
      (Proc.when truncate (TemporalFs.releaseData attr.ino attr.size)).Ensures
        (db₁.updateMetadata attr.ino (setInode attr attr.atime mtime now.1 attr.crtime))
        (fun _ db' => db₁.Updated attr truncate db')
        (fun _ _ => True ∧ ((∀ old, inodeAttr attr.ino db₁ ≠ .ok (some old)) ∨
          ¬ inChronoRange attr.atime.sec ∨ ¬ inChronoRange attr.mtime.sec ∨
          ¬ inChronoRange attr.crtime.sec)) := by
    intro mtime hmtime
    have hmeta : ∀ j, ((db₁.updateMetadata attr.ino
        (setInode attr attr.atime mtime now.1 attr.crtime)).metadata.find j).map
          MetadataRow.timeless = (db₁.metadata.find j).map fun m =>
        if j = attr.ino then { m.timeless with
          size := attr.size, mode := attr.perm, uid := attr.uid, gid := attr.gid
          rdev := attr.rdev, flags := attr.flags } else m.timeless := by
      intro j
      rw [Db.metadata_find_updateMetadata]
      by_cases hj : j = attr.ino
      · subst hj
        simp only [↓reduceIte, Option.map_map]
        rfl
      · simp only [hj, ↓reduceIte]
    have htimes : ∀ ok, ClockIn ok → ok attr.atime.throughDatetime →
        ok attr.mtime.throughDatetime → ok attr.crtime.throughDatetime →
        AllTimes ok db₁.metadata → AllTimes ok (db₁.updateMetadata attr.ino
          (setInode attr attr.atime mtime now.1 attr.crtime)).metadata := by
      intro ok hok ha hm hc hall j m hj
      rw [Db.metadata_find_updateMetadata] at hj
      split_ifs at hj
      · obtain ⟨m', hm', rfl⟩ := Option.map_eq_some_iff.1 hj
        refine ⟨ha, ?_, hok now, hc⟩
        rcases hmtime with rfl | rfl
        · exact hok now
        · exact hm
      · exact hall j m hj
    rw [ensures_when]
    constructor
    · intro ht
      refine (releaseData_spec _ attr.ino attr.size ?_).mono (fun _ db' h => ?_) fun _ _ h => h.elim
      · rw [Db.metadata_find_updateMetadata, if_pos rfl, Option.isSome_map]
        exact hi
      · obtain ⟨hm', hd', hx', hs', hb'⟩ := h
        refine ⟨hi, hd', hx', hs', fun j b => ?_, fun j => ?_, fun ok hok ha hm hc hall => ?_⟩
        · rw [hb' j b]
          simp only [ht, and_true]
          rfl
        · rw [hm', hmeta j]
        · rw [hm']
          exact htimes ok hok ha hm hc hall
    · intro ht
      refine ⟨hi, rfl, rfl, rfl, fun j b => ?_, hmeta, htimes⟩
      rw [if_neg fun h => ht h.2]
      rfl
  simp only [ensures_bind, ensures_require, ensures_pure, ensures_modify, ensures_ite]
  refine ⟨fun ha => ⟨fun _ => ⟨fun hc => hpost _ (Or.inl rfl), fun hc => ?_⟩,
    fun _ => ⟨fun hm => ⟨fun hc => hpost _ (Or.inr rfl), fun hc => ?_⟩, fun hm => ?_⟩⟩,
      fun ha => ?_⟩
  · exact ⟨trivial, Or.inr (Or.inr (Or.inr hc))⟩
  · exact ⟨trivial, Or.inr (Or.inr (Or.inr hc))⟩
  · exact ⟨trivial, Or.inr (Or.inr (Or.inl hm))⟩
  · exact ⟨trivial, Or.inr (Or.inl ha)⟩

theorem setXattr_spec (i : ℕ) (key : Name) (value : Bytes) :
    (self.setXattr now i key value).Ensures db
      (fun _ db' => (db.metadata.find i).isSome ∧ db.XattrChanged i key (some value) db')
      (fun _ db' => db' = db ∧ ¬ (db.metadata.find i).isSome) := by
  unfold setXattr execute
  simp only [ensures_atomically, ensures_bind]
  refine (ensures_step _ _).2 ⟨fun db₁ h₁ => ?_, fun hnone => ⟨trivial, fun hi => ?_⟩⟩
  swap
  · exact absurd (Db.replaceXattr_isSome (r := ⟨i, key, value⟩) hi) (by simp [hnone])
  obtain ⟨hi, hm₁, hd₁, hb₁, hx₁, hs₁⟩ := Db.replaceXattr_eq_some h₁
  have hpost : ∀ db', db₁.SameUpTo .timeless db' → db.XattrChanged i key (some value) db' := by
    intro db' h
    refine ⟨hm₁ ▸ h.metadata, ?_, ?_, ?_, fun k => ?_⟩
    · rw [h.dentry, hd₁]
    · rw [h.data, hb₁]
    · rw [h.sqliteSequence, hs₁]
    · rw [h.xattr, hx₁, AuditedTable.find_put, xattrSpec_key]
      simp only [eq_comm, Option.map_some]
  rw [ensures_when]
  exact ⟨fun _ => ensures_updateCtime _ _ _ fun db₂ h₂ => ⟨hi, hpost db₂ h₂⟩,
    fun _ => ⟨hi, hpost db₁ (.refl _ _)⟩⟩

theorem deleteXattr_spec (i : ℕ) (key : Name) :
    (self.deleteXattr now i key).Ensures db (fun _ db' => db.XattrChanged i key none db')
      (fun _ _ => False) := by
  unfold deleteXattr executeAll
  simp only [ensures_atomically, ensures_bind, ensures_modify]
  have hpost : ∀ db', (db.deleteXattrRow i key).SameUpTo .timeless db' →
      db.XattrChanged i key none db' := by
    intro db' h
    refine ⟨h.metadata, h.dentry, h.data, h.sqliteSequence, fun k => ?_⟩
    rw [h.xattr, Db.xattr_find_deleteXattrRow, Option.map_none]
  rw [ensures_when]
  exact ⟨fun _ => ensures_updateCtime _ _ _ fun db₂ h₂ => hpost db₂ h₂,
    fun _ => hpost _ (.refl _ _)⟩

end Sqlite

end TemporalFs
