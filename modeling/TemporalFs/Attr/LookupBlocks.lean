import Mathlib
import TemporalFs.Db.Contents

/-!
# Attributes from a lookup and from the inode

`lookup` and `getInode` compute the attributes of an inode with two separate queries. Their only
difference is the number of blocks: `getInode` counts the rows of `data` of the inode, while
`lookup` joins with the count of all rows, under the `file_id` of one of them. So the two agree
exactly where all blocks in the table are blocks of the inode, or none is.

## Main definitions

* `OwnsAllBlocksOrNone`: all blocks in the table are blocks of the inode, or none is.

## Main results

* `lookupBlocks_eq_countBlocks_iff`: when the two numbers of blocks agree.
* `lookup_eq_getInode_iff`: when `lookup` and `getInode` agree.
-/

namespace TemporalFs

variable {X : Externals}

/-- All blocks in the table are blocks of `inode`, or none is. -/
def Db.OwnsAllBlocksOrNone (db : Db X) (inode : ℕ) : Prop :=
  (∀ r ∈ db.data.rows, r.fileId = inode) ∨ ∀ r ∈ db.data.rows, r.fileId ≠ inode

theorem countBlocks_eq_length_iff (rows : List DataRow) (inode : ℕ) :
    countBlocks rows inode = rows.length ↔ ∀ r ∈ rows, r.fileId = inode := by
  unfold countBlocks
  rw [List.countP_eq_length]
  simp

theorem countBlocks_eq_zero_iff (rows : List DataRow) (inode : ℕ) :
    countBlocks rows inode = 0 ↔ ∀ r ∈ rows, r.fileId ≠ inode := by
  unfold countBlocks
  rw [List.countP_eq_zero]
  simp

/-- The joined count is right if and only if all rows are rows of the inode, or none is. -/
theorem lookupBlocks_eq_countBlocks_iff (bareRow : List DataRow → ℕ) (rows : List DataRow)
    (inode : ℕ) : Sqlite.lookupBlocks bareRow rows inode = countBlocks rows inode ↔
      (∀ r ∈ rows, r.fileId = inode) ∨ ∀ r ∈ rows, r.fileId ≠ inode := by
  unfold Sqlite.lookupBlocks
  split
  · rename_i r hr
    have hmem : r ∈ rows := List.mem_of_getElem? hr
    split_ifs with hfile
    · rw [eq_comm, countBlocks_eq_length_iff]
      exact ⟨Or.inl, fun h => h.resolve_right fun hne => hne r hmem hfile⟩
    · rw [eq_comm, countBlocks_eq_zero_iff]
      exact ⟨Or.inr, fun h => h.resolve_left fun heq => hfile (heq r hmem)⟩
  · rename_i hnone
    have hempty : rows = [] := by
      by_contra hne
      have hlen : 0 < rows.length := List.length_pos_iff.2 hne
      rw [List.getElem?_eq_none_iff] at hnone
      exact absurd (Nat.mod_lt (bareRow rows) hlen) (not_lt.2 hnone)
    subst hempty
    simp [countBlocks]

/-- Rows with different numbers of blocks have different attributes. -/
theorem MetadataRow.attr_eq_attr_iff (m : MetadataRow) (n : Option ℕ) (b b' : ℕ) :
    m.attr n b = m.attr n b' ↔ ¬ (m.Readable ∧ n.isSome) ∨ b = b' := by
  obtain ⟨id, size, ⟨at', atn⟩, ⟨mt, mtn⟩, ⟨ct, ctn⟩, ⟨crt, crtn⟩, kind, mode, uid, gid, rdev,
    flags⟩ := m
  unfold MetadataRow.attr MetadataRow.Readable stringToSystemtime
  cases at' <;> cases mt <;> cases ct <;> cases crt <;> cases n <;> simp

/-- Where an inode has an entry, its attributes are those of its row. -/
theorem lookupAttr_of_find {db : Db X} {p : ℕ} {n : Name} {e : DentryRow}
    (he : db.dentry.find (p, n) = some e) : ∃ m, db.metadata.find e.childId = some m ∧
      (nlink db.dentry.rows e.childId).isSome ∧
      Sqlite.lookupAttr p n db = parseAttr [m.attr (nlink db.dentry.rows e.childId)
        (Sqlite.lookupBlocks X.bareRow db.data.rows e.childId)] ∧
      inodeAttr e.childId db = parseAttr [m.attr (nlink db.dentry.rows e.childId)
        (countBlocks db.data.rows e.childId)] := by
  obtain ⟨m, hm⟩ := Option.isSome_iff_exists.1 (db.dentry_fk _ e he).2
  have hid : m.id = e.childId := AuditedTable.key_of_find hm
  have hn : (nlink db.dentry.rows e.childId).isSome :=
    (nlink_isSome_iff _ _).2 ⟨e, AuditedTable.mem_of_find he, rfl⟩
  refine ⟨m, hm, hn, ?_, ?_⟩
  · simp [Sqlite.lookupAttr, he, hm, hid]
  · simp [inodeAttr, hm]

theorem parseAttr_singleton_inj (a a' : Option DBFileAttr) :
    parseAttr [a] = parseAttr [a'] ↔ a = a' := by
  cases a <;> cases a' <;> simp [parseAttr]

/-- `lookup` returns what it has found before it records the access. -/
theorem Sqlite.lookup_snd (self : Sqlite) (now : Now) (db : Db X) (parent : ℕ) (name : Name) :
    (self.lookup now parent name db).2 = Sqlite.lookupAttr parent name db := by
  have h : (self.lookup now parent name).Ensures db
      (fun a _ => Sqlite.lookupAttr parent name db = .ok a)
      (fun e _ => Sqlite.lookupAttr parent name db = .error e) := by
    have hquery : ∀ db' : Db X,
        (query fun _ => Sqlite.lookupAttr parent name db : Conn X _).Ensures db'
          (fun a _ => Sqlite.lookupAttr parent name db = .ok a)
          (fun e _ => Sqlite.lookupAttr parent name db = .error e) :=
      fun db' => (ensures_query _ db').2 ⟨fun _ h => h, fun _ h => h⟩
    simp only [Sqlite.lookup, Proc.ensures_bind, Proc.ensures_get, Proc.ensures_when]
    exact ⟨fun _ => ensures_updateAtime parent now db fun db' _ => hquery db',
      fun _ => hquery db⟩
  unfold Proc.Ensures at h
  split at h <;> rename_i heq <;> rw [heq, h]

theorem Sqlite.getInode_snd (self : Sqlite) (db : Db X) (i : ℕ) :
    (self.getInode i db).2 = inodeAttr i db := by
  have h := getInodeLocal_spec db i
  unfold Sqlite.getInode
  unfold Proc.Ensures at h
  split at h <;> rename_i heq <;> rw [heq, h.2]

/-- **`lookup` agrees with `getInode` on the same state** if and only if all blocks in the table
are blocks of the inode, or none is, or the times of the inode cannot be read. -/
theorem lookup_eq_getInode_iff (self : Sqlite) (now : Now) (db : Db X) (parent : ℕ) (name : Name)
    (e : DentryRow) (he : db.dentry.find (parent, name) = some e) :
    (self.lookup now parent name db).2 = (self.getInode e.childId db).2 ↔
      db.OwnsAllBlocksOrNone e.childId ∨
        ∀ m, db.metadata.find e.childId = some m → ¬ m.Readable := by
  obtain ⟨m, hm, hn, hl, hi⟩ := lookupAttr_of_find he
  rw [Sqlite.lookup_snd, Sqlite.getInode_snd, hl, hi, parseAttr_singleton_inj,
    MetadataRow.attr_eq_attr_iff,
    lookupBlocks_eq_countBlocks_iff, or_comm]
  refine or_congr Iff.rfl ?_
  simp [hm, hn]

/-- Two files of one block each, `"a"` and `"b"` in the root. -/
def twoFilesDb : Db .sample :=
  let db := (Sqlite.new.addInodeAndDentry epoch 1 [97] (Sqlite.sampleAttr .RegularFile)
    Sqlite.sampleDb).1
  let db := (Sqlite.new.addInodeAndDentry epoch 1 [98] (Sqlite.sampleAttr .RegularFile) db).1
  let db := (Sqlite.new.writeData epoch 2 1 [97] 1 db).1
  (Sqlite.new.writeData epoch 3 1 [98] 1 db).1

/-- The first of two files of one block each. -/
theorem lookup_eq_getInode_iff_sample :
    (Sqlite.new.lookup epoch 1 [97] twoFilesDb).2 = (Sqlite.new.getInode 2 twoFilesDb).2 ↔
      twoFilesDb.OwnsAllBlocksOrNone 2 ∨
        ∀ m, twoFilesDb.metadata.find 2 = some m → ¬ m.Readable :=
  lookup_eq_getInode_iff Sqlite.new epoch twoFilesDb 1 [97] ⟨1, 2, .RegularFile, [97]⟩ (by decide)

/-- With two files of one block each, `lookup` says that the first has two blocks. -/
theorem lookup_counts_other_blocks :
    (Sqlite.new.lookup epoch 1 [97] twoFilesDb).2 ≠ (Sqlite.new.getInode 2 twoFilesDb).2 := by
  decide

end TemporalFs
