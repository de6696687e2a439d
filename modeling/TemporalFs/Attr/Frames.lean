import Mathlib
import TemporalFs.Attr.Xattrs
import TemporalFs.Tree.LinkCounts

/-!
# Inodes that a step leaves alone

Which inodes keep their size, mode and owner, their blocks and extended attributes, and the number
of their names, for each of the steps that requests are made of. Times are left out.

## Main definitions

* `Db.links`: the number of entries that name an inode.
* `Db.SameInode`: what is stored of an inode is the same.

## Main results

* `Db.Added.sameInode`, `Db.Updated.sameInode` and so on: the inodes that a step leaves alone.
* `Db.Linked.links`: a name more.
* `Db.sameInode_iff_of_lost`: an inode that can only lose names.
* `Db.Unlinked.find_iff`, `Db.Moved.find_iff`: the entries that are left when one is removed or
  moved.
-/

namespace TemporalFs

variable {X : Externals}

/-- The columns of an inode besides its times, its kind and what no request changes. -/
def MetadataRow.columns (m : MetadataRow) : UInt32 × UInt16 × UInt32 × UInt32 :=
  (m.size, m.mode, m.uid, m.gid)

namespace Db

/-- The number of entries that name the inode `i`. -/
def links (db : Db X) (i : ℕ) : ℕ := db.dentry.rows.countP fun e => e.childId = i

/-- The inode `i` has the same size, mode and owner, the same number of names, the same blocks and
the same extended attributes. -/
structure SameInode (db db' : Db X) (i : ℕ) : Prop where
  row : (db'.metadata.find i).map MetadataRow.columns = (db.metadata.find i).map MetadataRow.columns
  links : db'.links i = db.links i
  blocks : db'.blocks i = db.blocks i
  attrs : db'.attrs i = db.attrs i

variable {db db' db'' : Db X} {i : ℕ}

theorem SameInode.refl (db : Db X) (i : ℕ) : db.SameInode db i := ⟨rfl, rfl, rfl, rfl⟩

theorem SameInode.trans (h : db.SameInode db' i) (h' : db'.SameInode db'' i) :
    db.SameInode db'' i :=
  ⟨h'.row.trans h.row, h'.links.trans h.links, h'.blocks.trans h.blocks, h'.attrs.trans h.attrs⟩

/-- The number of names does not change where every entry that changes has named another inode and
names another after it. -/
theorem links_eq (h : ∀ k, db'.dentry.find k = db.dentry.find k ∨
    (∀ x, db'.dentry.find k = some x → x.childId ≠ i) ∧
      ∀ x, db.dentry.find k = some x → x.childId ≠ i) : db'.links i = db.links i := by
  unfold links
  rw [countP_rows, countP_rows]
  refine congrArg Finset.card (Finset.ext fun x => ?_)
  rw [mem_entries, mem_entries]
  refine and_congr_left fun hx => ?_
  rcases h (x.parentId, x.name) with heq | ⟨hnew, hold⟩
  · rw [heq]
  · exact iff_of_false (fun h => hnew x h hx) fun h => hold x h hx

theorem links_of_dentry (h : db'.dentry = db.dentry) (i : ℕ) : db'.links i = db.links i := by
  rw [links, h, links]

theorem blocks_of_data (h : db'.data = db.data) (i : ℕ) : db'.blocks i = db.blocks i := by
  funext k
  rw [blocks, h, blocks]

theorem attrs_of_xattr (h : db'.xattr = db.xattr) (i : ℕ) : db'.attrs i = db.attrs i := by
  funext n
  rw [attrs, h, attrs]

theorem columns_of_timeless
    (h : (db'.metadata.find i).map MetadataRow.timeless =
      (db.metadata.find i).map MetadataRow.timeless) :
    (db'.metadata.find i).map MetadataRow.columns =
      (db.metadata.find i).map MetadataRow.columns := by
  have := congrArg (Option.map MetadataRow.columns) h
  rw [Option.map_map, Option.map_map] at this
  exact this

theorem SameButDentry.sameInode (h : db.SameButDentry .timeless db')
    (hl : db'.links i = db.links i) :
    db.SameInode db' i :=
  ⟨columns_of_timeless (h.metadata.find i), hl, blocks_of_data h.data i, attrs_of_xattr h.xattr i⟩

theorem SameUpTo.sameInode (h : db.SameUpTo .atimeless db') (i : ℕ) : db.SameInode db' i :=
  h.timeless.sameButDentry.sameInode (links_of_dentry h.dentry i)

/-- A new inode changes its parent, and no other. -/
theorem Added.sameInode {p child : ℕ} {n : Name} {attr : DBFileAttr}
    (h : db.Added p n attr child db') (hp : i ≠ p) (hi : i ≠ child) : db.SameInode db' i := by
  have hfresh : ∀ m x, db.dentry.find (child, m) = some x → x.childId ≠ i := by
    intro m x hx
    have hrow := db.sequence_bound _ (db.dentry_fk _ x hx).1
    rw [(key_of_entry hx).1, h.child_eq] at hrow
    omega
  refine ⟨columns_of_timeless ((h.metadata i).trans (by rw [if_neg hi])), links_eq fun k => ?_,
    blocks_of_data h.data i, attrs_of_xattr h.xattr i⟩
  rw [h.dentry]
  split_ifs with hdot hdotdot hname
  · rw [hdot.2]
    exact Or.inr ⟨fun x hx => Option.some.inj hx ▸ hi.symm, hfresh _⟩
  · rw [hdotdot.2]
    exact Or.inr ⟨fun x hx => Option.some.inj hx ▸ hp.symm, hfresh _⟩
  · rw [hname, h.free]
    exact Or.inr ⟨fun x hx => Option.some.inj hx ▸ hi.symm, fun x hx => absurd hx (by simp)⟩
  · exact Or.inl rfl

theorem Written.sameInode {j k : ℕ} {bytes : Bytes} {size : UInt32}
    (h : db.Written j k bytes size db') (hi : i ≠ j) : db.SameInode db' i := by
  refine ⟨columns_of_timeless ((h.metadata i).trans ?_), links_of_dentry h.dentry i,
    funext fun b => (h.blocks i b).trans (if_neg fun hj => hi hj.1), attrs_of_xattr h.xattr i⟩
  simp only [hi, false_and, ↓reduceIte]

theorem sameInode_of_writeSteps {j : ℕ} (h : Relation.ReflTransGen (Db.WriteStep j) db db')
    (hi : i ≠ j) : db.SameInode db' i := by
  induction h with
  | refl => exact .refl db i
  | tail _ hstep ih =>
    rcases hstep with h | ⟨k, bytes, size, h⟩
    · exact ih.trans (h.sameInode i)
    · exact ih.trans (h.sameInode hi)

theorem Updated.sameInode {attr : DBFileAttr} {truncate : Bool} (h : db.Updated attr truncate db')
    (hi : i ≠ attr.ino) : db.SameInode db' i := by
  refine ⟨columns_of_timeless ((h.metadata i).trans ?_), links_of_dentry h.dentry i,
    funext fun b => (h.blocks i b).trans (if_neg fun hj => hi hj.1), attrs_of_xattr h.xattr i⟩
  simp only [hi, ↓reduceIte]

theorem XattrChanged.sameInode {j : ℕ} {key : Name} {value : Option Bytes}
    (h : db.XattrChanged j key value db') (hi : i ≠ j) : db.SameInode db' i := by
  refine ⟨columns_of_timeless (h.metadata.find i), links_of_dentry h.dentry i,
    blocks_of_data h.data i, funext fun n => ?_⟩
  rw [Db.attrs, h.xattr, if_neg fun hk => hi (congrArg Prod.fst hk), Db.attrs]

theorem Linked.sameInode {j p : ℕ} {n : Name} {attr : DBFileAttr} (h : db.Linked j p n attr db')
    (hi : i ≠ j) : db.SameInode db' i := by
  refine h.rest.sameInode (links_eq fun k => ?_)
  rw [h.dentry]
  split_ifs with hk
  · rw [hk, h.free]
    exact Or.inr ⟨fun x hx => Option.some.inj hx ▸ hi.symm, fun x hx => absurd hx (by simp)⟩
  · exact Or.inl rfl

/-! ### Numbers of names that change -/

/-- One more entry names the inode `i`. -/
theorem links_add_one {w : DentryRow} (hw : w.childId = i)
    (hnew : db'.dentry.find (w.parentId, w.name) = some w)
    (hold : ∀ x, db.dentry.find (w.parentId, w.name) = some x → x.childId ≠ i)
    (h : ∀ k, k ≠ (w.parentId, w.name) → db'.dentry.find k = db.dentry.find k ∨
      (∀ x, db'.dentry.find k = some x → x.childId ≠ i) ∧
        ∀ x, db.dentry.find k = some x → x.childId ≠ i) : db'.links i = db.links i + 1 := by
  have hnot : w ∉ db.entries fun e => e.childId = i := fun hin =>
    hold w (mem_entries.1 hin).1 hw
  unfold links
  rw [countP_rows, countP_rows, ← Finset.card_insert_of_notMem hnot]
  refine congrArg Finset.card (Finset.ext fun x => ?_)
  rw [Finset.mem_insert, mem_entries, mem_entries]
  by_cases hk : (x.parentId, x.name) = (w.parentId, w.name)
  · rw [hk, hnew]
    constructor
    · exact fun hx => Or.inl (Option.some.inj hx.1).symm
    · rintro (rfl | ⟨hx, hxi⟩)
      · exact ⟨rfl, hw⟩
      · exact absurd hxi (hold x hx)
  · have hne : x ≠ w := fun heq => hk (heq ▸ rfl)
    rw [or_iff_right hne]
    refine and_congr_left fun hxi => ?_
    rcases h _ hk with heq | ⟨hnew', hold'⟩
    · rw [heq]
    · exact iff_of_false (fun hx => hnew' x hx hxi) fun hx => hold' x hx hxi

/-- The inode that gets a name has one more. -/
theorem Linked.links {p : ℕ} {n : Name} {attr : DBFileAttr} (h : db.Linked i p n attr db') :
    db'.links i = db.links i + 1 := by
  refine links_add_one (w := ⟨p, i, .RegularFile, n⟩) rfl ?_ ?_ fun k hk => Or.inl ?_
  · rw [h.dentry, if_pos rfl]
  · exact fun x hx => absurd (h.free.symm.trans hx) (by simp)
  · rw [h.dentry, if_neg hk]

/-- An inode that is named by fewer entries, and by none besides, has fewer names. -/
theorem links_lt {k : ℕ × Name} {x : DentryRow} (hx : db.dentry.find k = some x)
    (hi : x.childId = i)
    (hgone : db'.dentry.find k ≠ some x) (hold : ∀ k x, x.childId = i →
      db'.dentry.find k = some x → db.dentry.find k = some x) : db'.links i < db.links i := by
  have hkey := key_of_entry hx
  unfold links
  rw [countP_rows, countP_rows]
  refine Finset.card_lt_card (Finset.ssubset_iff_of_subset (fun y hy => ?_) |>.2 ⟨x, ?_, ?_⟩)
  · rw [mem_entries] at hy ⊢
    exact ⟨hold _ y hy.2 hy.1, hy.2⟩
  · exact mem_entries.2 ⟨by rw [hkey.1, hkey.2]; exact hx, hi⟩
  · rw [mem_entries, hkey.1, hkey.2]
    exact fun h => hgone h.1

/-- **An inode that can only lose names** is the same if and only if it loses none. -/
theorem sameInode_iff_of_lost {lost : ℕ × Name → DentryRow → Prop}
    (hrow : (db'.metadata.find i).map MetadataRow.columns =
      (db.metadata.find i).map MetadataRow.columns)
    (hblocks : db'.blocks i = db.blocks i) (hattrs : db'.attrs i = db.attrs i)
    (hentry : ∀ k x, x.childId = i →
      (db'.dentry.find k = some x ↔ db.dentry.find k = some x ∧ ¬ lost k x)) :
    db.SameInode db' i ↔ ∀ k x, db.dentry.find k = some x → x.childId = i → ¬ lost k x := by
  constructor
  · intro hsame k x hx hi hlost
    have hlt := links_lt hx hi (fun h => ((hentry k x hi).1 h).2 hlost)
      fun k x hi h => ((hentry k x hi).1 h).1
    exact hlt.ne hsame.links
  · intro hnone
    refine ⟨hrow, ?_, hblocks, hattrs⟩
    unfold links
    rw [countP_rows, countP_rows]
    refine congrArg Finset.card (Finset.ext fun x => ?_)
    rw [mem_entries, mem_entries]
    exact and_congr_left fun hi => (hentry _ x hi).trans
      (and_iff_left_of_imp fun hx => hnone _ x hx hi)

/-- The same where nothing but times and entries has changed. -/
theorem SameButDentry.sameInode_iff {lost : ℕ × Name → DentryRow → Prop}
    (h : db.SameButDentry .timeless db')
    (hentry : ∀ k x, x.childId = i →
      (db'.dentry.find k = some x ↔ db.dentry.find k = some x ∧ ¬ lost k x)) :
    db.SameInode db' i ↔ ∀ k x, db.dentry.find k = some x → x.childId = i → ¬ lost k x :=
  sameInode_iff_of_lost (columns_of_timeless (h.metadata.find i)) (blocks_of_data h.data i)
    (attrs_of_xattr h.xattr i) hentry

/-- The same where another inode is deleted after that, which takes the entries in it away if no
entry names it. -/
theorem SameButDentry.sameInode_collect_iff {c : ℕ} {lost : ℕ × Name → DentryRow → Prop}
    (h : db.SameButDentry .timeless db') (hne : i ≠ c)
    (hentry : ∀ k x, x.childId = i →
      (db'.dentry.find k = some x ↔ db.dentry.find k = some x ∧ ¬ lost k x)) :
    db.SameInode (db'.collect c) i ↔ ∀ k x, db.dentry.find k = some x → x.childId = i →
      ¬ (lost k x ∨ (db'.Unnamed c ∧ x.parentId = c)) := by
  refine sameInode_iff_of_lost ?_ ?_ (funext fun a => ?_) fun k x hxi => ?_
  · rw [db'.metadata_find_collect c i hne]
    exact columns_of_timeless (h.metadata.find i)
  · rw [db'.blocks_collect c i hne, blocks_of_data h.data i]
  · rw [attrs, db'.xattr_find_collect c _ hne]
    exact congrFun (attrs_of_xattr h.xattr i) a
  · rw [Db.dentry_find_collect, hentry k x hxi, and_assoc, not_or, not_and]

/-- A removed name takes the entries in its inode with it. -/
theorem Unlinked.find_iff {p child : ℕ} {n : Name} (h : db.Unlinked p n child db') (k : ℕ × Name)
    (x : DentryRow) (hi : x.childId ≠ child) :
    db'.dentry.find k = some x ↔ db.dentry.find k = some x ∧ ¬ x.parentId = child := by
  rw [h.dentry]
  split_ifs with hk
  · obtain ⟨e, he, rfl⟩ := h.found
    refine iff_of_false (by simp) fun hx => hi ?_
    rw [hk.1, he] at hx
    rw [Option.some.inj hx.1]
  · rw [Option.filter_eq_some_iff, decide_eq_true_eq]

/-- The entry at `k` is the `..` of the directory `e` that is moved from `p` to `p'`. -/
def Redirects (p : ℕ) (n : Name) (p' : ℕ) (e : DentryRow) (k : ℕ × Name) : Prop :=
  p ≠ p' ∧ e.fileType = .Directory ∧ k = (e.childId, dotdot) ∧ k ≠ (p, n)

/-- The entries of an inode that is not moved, and neither of the directories, are left, but for the
one that is replaced and the `..` of a moved directory. -/
theorem Moved.find_iff {p p' : ℕ} {n n' : Name} {e : DentryRow} {res : Option ℕ}
    (h : db.Moved p n p' n' e res db') (k : ℕ × Name) (x : DentryRow) (hp' : x.childId ≠ p')
    (hi : x.childId ≠ e.childId) : db'.dentry.find k = some x ↔
      db.dentry.find k = some x ∧ ¬ (k = (p', n') ∨ Redirects p n p' e k) := by
  have hmoved : db.movedEntry p n p' n' e k = some x ↔
      db.dentry.find k = some x ∧ ¬ k = (p', n') := by
    unfold movedEntry
    split_ifs with hk₁ hk₂
    · exact iff_of_false (fun hx => hi (Option.some.inj hx ▸ rfl)) fun hx => hx.2 hk₁
    · rw [hk₂, h.source]
      exact iff_of_false (fun hx => absurd hx (by simp)) fun hx => hi (Option.some.inj hx.1 ▸ rfl)
    · exact (and_iff_left hk₁).symm
  rw [h.dentry]
  split_ifs with hk
  · refine iff_of_false (fun hx => ?_) fun hx => ?_
    · obtain ⟨y, -, rfl⟩ := Option.map_eq_some_iff.1 hx
      exact hp' rfl
    · refine hx.2 (Or.inr ⟨hk.1, hk.2.1, hk.2.2, fun heq => hi ?_⟩)
      rw [heq, h.source] at hx
      rw [Option.some.inj hx.1]
  · rw [hmoved, not_or]
    exact and_congr_right fun _ => (and_iff_left fun h => hk ⟨h.1, h.2.1, h.2.2.1⟩).symm

/-- A renamed onto itself, an entry is the only one that may be gone. -/
theorem MovedOntoItself.find_iff {p : ℕ} {n : Name} {e : DentryRow}
    (h : db.MovedOntoItself p n e db') (k : ℕ × Name) (x : DentryRow) (hi : x.childId ≠ e.childId) :
    db'.dentry.find k = some x ↔ db.dentry.find k = some x ∧
      ¬ (k = (p, n) ∨ Redirects p n p e k) := by
  have hno : ¬ (k = (p, n) ∨ Redirects p n p e k) ↔ ¬ k = (p, n) :=
    not_congr (or_iff_left fun h => h.1 rfl)
  rw [h.dentry, hno]
  split_ifs with hk
  · exact iff_of_false (by simp) fun hx => hx.2 hk.1
  · refine (and_iff_left_of_imp fun hx hkey => hi ?_).symm
    rw [hkey, h.found] at hx
    rw [Option.some.inj hx]

end Db

end TemporalFs
