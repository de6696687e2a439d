import Mathlib
import TemporalFs.Lib.NameTree
import TemporalFs.Db.Init
import TemporalFs.Fs.Effects

/-!
# The tree of directories

The entries other than `.` and `..` are the names of inodes, and they form a tree below the root.
Each named directory holds its own entries `.` and `..`, which agree with its one name.

An entry `.` or `..` never counts as a name, so that the map from names to inodes is one of a tree
of names as in `Lib.NameTree`, with the root as its root. A file may have several names, a directory
has one, unless it is the root or has lost its name. The own entries are tied to the map by their
own conditions: `.` leads back, and `..` leads to the directory that holds the one name.

## Main definitions

* `Db.next`: where a name leads; `Db.kindOf`: the kind of an inode.
* `Db.Tree`: the invariant.
* `Db.SameNames`: the namespace is the same.
* `Db.Purged`: some inodes without an entry were deleted.

## Main results

* `Db.SameNames.tree`, `Db.Tree.purged`: steps that keep all names keep the tree.
-/

namespace TemporalFs

variable {X : Externals}

/-- The names of the entries that each directory has of its own. -/
def IsDots (n : Name) : Prop := n = dotdot ∨ n = dot

instance (n : Name) : Decidable (IsDots n) := inferInstanceAs (Decidable (_ ∨ _))

namespace Db

/-- Where the name `n` in `d` leads. The entries `.` and `..` are no names and lead nowhere. -/
def next (db : Db X) (d : ℕ) (n : Name) : Option ℕ :=
  if IsDots n then none else (db.dentry.find (d, n)).map DentryRow.childId

/-- The kind of an inode, if it is there, as its row has it. -/
def kindOf (db : Db X) (i : ℕ) : Option FileType := (db.metadata.find i).map MetadataRow.kind

/-- The inode is a directory. -/
def IsDir (db : Db X) (i : ℕ) : Prop := db.kindOf i = some .Directory

instance (db : Db X) (i : ℕ) : Decidable (db.IsDir i) := inferInstanceAs (Decidable (_ = _))

/-- The directory is the root or has a name. Only in such a directory can the kernel ask for a name.
-/
def LinkedDir (db : Db X) (d : ℕ) : Prop := db.IsDir d ∧ (d = 1 ∨ ∃ p n, db.next p n = some d)

/-- The inode `i` is `d`, or it is reached from there by names. -/
def Below (db : Db X) (d i : ℕ) : Prop := ∃ R, walk db.next d R = some i

/-- **The directory table is a tree.** Entries lie in directories and carry the type of what they
lead to, names form a tree below the root, and each directory with a name has its own two entries.
-/
structure Tree (db : Db X) : Prop where
  root : db.RootInPlace
  typed : ∀ k e, db.dentry.find k = some e → db.kindOf e.childId = some e.fileType
  held : ∀ k e, db.dentry.find k = some e → db.IsDir e.parentId
  names : NameTree db.next 1 db.IsDir
  own_dot : ∀ d n x, db.next d n = some x → db.IsDir x →
    db.dentry.find (x, dot) = some ⟨x, x, .Directory, TemporalFs.dot⟩
  own_dotdot : ∀ d n x, db.next d n = some x → db.IsDir x →
    db.dentry.find (x, dotdot) = some ⟨x, d, .Directory, TemporalFs.dotdot⟩

variable {db db' : Db X}

theorem next_of_not_dots {d : ℕ} {n : Name} (hn : ¬ IsDots n) :
    db.next d n = (db.dentry.find (d, n)).map DentryRow.childId := if_neg hn

/-- A name is an entry other than `.` and `..`, and leads to its child. -/
theorem next_eq_some_iff {d : ℕ} {n : Name} {x : ℕ} : db.next d n = some x ↔
    ¬ IsDots n ∧ ∃ e, db.dentry.find (d, n) = some e ∧ e.childId = x := by
  by_cases hn : IsDots n
  · simp [next, hn]
  · rw [next_of_not_dots hn, Option.map_eq_some_iff]
    simp [hn]

theorem next_eq_none_of_free {d : ℕ} {n : Name} (h : db.dentry.find (d, n) = none) :
    db.next d n = none := by
  unfold next
  rw [h]
  split_ifs <;> rfl

/-- An entry that is found under a key has that key: its parent and its name. -/
theorem key_of_entry {d : ℕ} {n : Name} {e : DentryRow} (h : db.dentry.find (d, n) = some e) :
    e.parentId = d ∧ e.name = n := by
  have hkey := AuditedTable.key_of_find h
  simpa only [dentrySpec_key, Prod.mk.injEq] using hkey

theorem kindOf_isSome {i : ℕ} : (db.kindOf i).isSome = (db.metadata.find i).isSome :=
  Option.isSome_map

/-- The kinds of inodes do not depend on the columns that a coarser view leaves out. -/
theorem kindOf_congr (h : ∀ i, (db'.metadata.find i).map MetadataRow.timeless =
    (db.metadata.find i).map MetadataRow.timeless) (i : ℕ) : db'.kindOf i = db.kindOf i := by
  have := congrArg (Option.map MetadataRow.kind) (h i)
  rw [Option.map_map, Option.map_map] at this
  exact this

theorem SameButDentry.kindOf (h : db.SameButDentry .timeless db') (i : ℕ) :
    db'.kindOf i = db.kindOf i :=
  kindOf_congr h.metadata.find i

/-- No entry names an inode that has no row, or lies in it. -/
theorem entry_ne_of_kindOf {i : ℕ} (hi : db.kindOf i = none) {k : ℕ × Name} {e : DentryRow}
    (he : db.dentry.find k = some e) : e.parentId ≠ i ∧ e.childId ≠ i := by
  have hrow : (db.metadata.find i).isSome = false := by rw [← kindOf_isSome, hi]; rfl
  have h := db.dentry_fk k e he
  constructor
  · rintro rfl
    simp [hrow] at h
  · rintro rfl
    simp [hrow] at h

namespace Tree

variable (h : db.Tree)

include h

theorem root_isDir : db.IsDir 1 := h.typed _ _ h.root.dot

theorem root_linked : db.LinkedDir 1 := ⟨h.root_isDir, Or.inl rfl⟩

/-- A path of names leads from the root to each linked directory. -/
theorem exists_path {d : ℕ} (hd : db.LinkedDir d) : ∃ P, walk db.next 1 P = some d := by
  rcases hd.2 with rfl | ⟨p, n, hn⟩
  · exact ⟨[], rfl⟩
  · obtain ⟨P, hP⟩ := h.names.reached hn
    exact ⟨P ++ [n], by rw [walk_snoc, hP, Option.bind_some, hn]⟩

omit h in
/-- A path leads only to the root and to inodes with a name. -/
theorem eq_root_or_named {P : List Name} {x : ℕ} (hP : walk db.next 1 P = some x) :
    x = 1 ∨ ∃ p n, db.next p n = some x := by
  rcases P.eq_nil_or_concat with rfl | ⟨P, n, rfl⟩
  · exact Or.inl (Option.some.inj hP).symm
  · rw [List.concat_eq_append] at hP
    obtain ⟨y, -, hy⟩ := walk_snoc_eq_some hP
    exact Or.inr ⟨y, n, hy⟩

/-- The root is below no other inode. -/
theorem not_below_root {d : ℕ} (hd : d ≠ 1) : ¬ db.Below d 1 := by
  rintro ⟨R, hR⟩
  rcases R.eq_nil_or_concat with rfl | ⟨R, n, rfl⟩
  · exact hd (Option.some.inj hR)
  · rw [List.concat_eq_append] at hR
    obtain ⟨y, -, hy⟩ := walk_snoc_eq_some hR
    exact h.names.ne_root hy rfl

/-- Names are held by linked directories. -/
theorem linked_of_next {d : ℕ} {n : Name} {x : ℕ} (hx : db.next d n = some x) : db.LinkedDir d := by
  obtain ⟨P, hP⟩ := h.names.reached hx
  exact ⟨h.names.holder hx, eq_root_or_named hP⟩

/-- Only directories hold names. -/
theorem leaf_of_not_isDir {x : ℕ} (hx : ¬ db.IsDir x) (m : Name) : db.next x m = none := by
  cases hm : db.next x m with
  | none => rfl
  | some y => exact absurd (h.names.holder hm) hx

omit h in
/-- A directory whose own entries are all that it has holds no names. -/
theorem leaf_of_empty {x : ℕ} (hx : directoryIsEmpty db.dentry.rows x = true) (m : Name) :
    db.next x m = none := by
  cases hm : db.next x m with
  | none => rfl
  | some y =>
    obtain ⟨hdots, e, he, -⟩ := next_eq_some_iff.1 hm
    obtain ⟨hp, hn⟩ := key_of_entry he
    unfold directoryIsEmpty at hx
    rw [List.all_eq_true] at hx
    have := hx e (List.mem_filter.2 ⟨AuditedTable.mem_of_find he, by simpa using hp⟩)
    simp only [Bool.decide_or, Bool.or_eq_true, decide_eq_true_eq, hn] at this
    exact absurd this.symm hdots

omit h in
theorem directoryIsEmpty_iff {x : ℕ} :
    directoryIsEmpty db.dentry.rows x = true ↔ ∀ m, db.next x m = none := by
  refine ⟨leaf_of_empty, fun hleaf => ?_⟩
  unfold directoryIsEmpty
  rw [List.all_eq_true]
  intro e he
  obtain ⟨he, hp⟩ := List.mem_filter.1 he
  simp only [decide_eq_true_eq] at hp ⊢
  by_contra hdots
  have hname : db.next x e.name = some e.childId :=
    next_eq_some_iff.2 ⟨fun hn => hdots hn.symm, e, hp ▸ db.dentry.find_key he, rfl⟩
  simp [hleaf] at hname

/-- A directory is not moved below itself; what is not a directory has nothing below it. -/
theorem not_below {i d : ℕ} (hd : db.LinkedDir d)
    (hi : db.IsDir i → ¬ db.Below i d) : ¬ db.Below i d := by
  by_cases hdir : db.IsDir i
  · exact hi hdir
  · rintro ⟨R, hR⟩
    rw [walk_leaf (h.leaf_of_not_isDir hdir)] at hR
    split_ifs at hR
    exact hdir (Option.some.inj hR ▸ hd.1)

/-- The type of an entry is that of the inode. -/
theorem isDir_iff {k : ℕ × Name} {e : DentryRow} (he : db.dentry.find k = some e) :
    db.IsDir e.childId ↔ e.fileType = .Directory := by
  rw [IsDir, h.typed k e he, Option.some.injEq]

end Tree

/-! ### Steps that leave the names alone -/

/-- The two databases have the same entries, and the same kinds of inodes. -/
structure SameNames (db db' : Db X) : Prop where
  dentry : ∀ k, db'.dentry.find k = db.dentry.find k
  kindOf : ∀ i, db'.kindOf i = db.kindOf i

namespace SameNames

theorem refl (db : Db X) : db.SameNames db := ⟨fun _ => rfl, fun _ => rfl⟩

theorem trans {db'' : Db X} (h : db.SameNames db') (h' : db'.SameNames db'') : db.SameNames db'' :=
  ⟨fun k => (h'.dentry k).trans (h.dentry k), fun i => (h'.kindOf i).trans (h.kindOf i)⟩

variable (h : db.SameNames db')

include h

theorem next : db'.next = db.next := by
  funext d n
  rw [Db.next, Db.next, h.dentry]

theorem isDir : db'.IsDir = db.IsDir := by
  funext i
  rw [IsDir, h.kindOf, IsDir]

theorem linkedDir : db'.LinkedDir = db.LinkedDir := by
  funext d
  rw [LinkedDir, LinkedDir, h.isDir, h.next]

theorem tree (ht : db.Tree) : db'.Tree := by
  refine ⟨⟨?_, by rw [h.dentry, ht.root.dot], by rw [h.dentry, ht.root.dotdot]⟩, fun k e he => ?_,
    fun k e he => ?_, ?_, fun d n x hx hxd => ?_, fun d n x hx hxd => ?_⟩
  · rw [← kindOf_isSome, h.kindOf, kindOf_isSome]
    exact ht.root.root
  · rw [h.kindOf]
    exact ht.typed k e ((h.dentry k).symm.trans he)
  · rw [h.isDir]
    exact ht.held k e ((h.dentry k).symm.trans he)
  · rw [h.next, h.isDir]
    exact ht.names
  · rw [h.next] at hx
    rw [h.isDir] at hxd
    rw [h.dentry, ht.own_dot d n x hx hxd]
  · rw [h.next] at hx
    rw [h.isDir] at hxd
    rw [h.dentry, ht.own_dotdot d n x hx hxd]

end SameNames

theorem SameUpTo.sameNames (h : db.SameUpTo .timeless db') : db.SameNames db' :=
  ⟨fun k => by rw [h.dentry], kindOf_congr h.metadata.find⟩

theorem Written.sameNames {i k : ℕ} {bytes : Bytes} {size : UInt32}
    (h : db.Written i k bytes size db') : db.SameNames db' where
  dentry _ := by rw [h.dentry]
  kindOf j := by
    have hj := congrArg (Option.map MetadataRow.kind) (h.metadata j)
    rw [Option.map_map, Option.map_map] at hj
    refine Eq.trans (by exact hj) (congrArg (Option.map · _) (funext fun m => ?_))
    rw [Function.comp_apply]
    split_ifs <;> rfl

theorem sameNames_of_writeSteps {i : ℕ} (h : Relation.ReflTransGen (Db.WriteStep i) db db') :
    db.SameNames db' := by
  induction h with
  | refl => exact .refl db
  | tail _ hstep ih =>
    rcases hstep with hstep | ⟨k, bytes, size, hstep⟩
    · exact ih.trans hstep.timeless.sameNames
    · exact ih.trans hstep.sameNames

theorem Updated.sameNames {attr : DBFileAttr} {truncate : Bool} (h : db.Updated attr truncate db') :
    db.SameNames db' where
  dentry _ := by rw [h.dentry]
  kindOf j := by
    have hj := congrArg (Option.map MetadataRow.kind) (h.metadata j)
    rw [Option.map_map, Option.map_map] at hj
    refine Eq.trans (by exact hj) (congrArg (Option.map · _) (funext fun m => ?_))
    rw [Function.comp_apply]
    split_ifs <;> rfl

theorem XattrChanged.sameNames {i : ℕ} {key : Name} {value : Option Bytes}
    (h : db.XattrChanged i key value db') : db.SameNames db' :=
  ⟨fun _ => by rw [h.dentry], kindOf_congr h.metadata.find⟩

/-- The inodes in `L`, which no entry names, were deleted with the entries in them; the rest of the
namespace is as it was. -/
structure Purged (db : Db X) (L : ℕ → Prop) (db' : Db X) : Prop where
  unnamed : ∀ i, L i → db.Unnamed i
  gone : ∀ i, L i → db'.kindOf i = none
  kindOf : ∀ i, ¬ L i → db'.kindOf i = db.kindOf i
  dentry : ∀ k e, db'.dentry.find k = some e ↔ db.dentry.find k = some e ∧ ¬ L e.parentId

section Purged

variable {L : ℕ → Prop}

theorem purged_collect (db : Db X) (i : ℕ) :
    db.Purged (fun j => j = i ∧ db.Unnamed i) (db.collect i)
    where
  unnamed j hj := hj.1 ▸ hj.2
  gone j hj := by
    rw [hj.1, db.collect_of_unnamed i hj.2, Db.kindOf, Db.metadata_find_deleteMetadata, if_pos rfl]
    rfl
  kindOf j hj := by
    by_cases hi : db.Unnamed i
    · rw [Db.kindOf, db.metadata_find_collect i j fun heq => hj ⟨heq, hi⟩, Db.kindOf]
    · rw [db.collect_of_not_unnamed i hi]
  dentry k e := by
    rw [Db.dentry_find_collect]
    exact and_congr_right fun _ => ⟨fun hne hc => hne hc.2 hc.1, fun hne hi heq => hne ⟨heq, hi⟩⟩

theorem purged_deleteAll (db : Db X) : db.Purged (· ∈ db.unnamed) (db.deleteAll db.unnamed) where
  unnamed i hi := ((db.mem_unnamed i).1 hi).2
  gone i hi := by rw [Db.kindOf, Db.metadata_find_deleteAll, if_pos hi]; rfl
  kindOf i hi := by rw [Db.kindOf, Db.metadata_find_deleteAll, if_neg hi, Db.kindOf]
  dentry k e := by
    rw [Db.dentry_find_deleteAll]
    refine and_congr_right fun he => ⟨And.left, fun hp => ⟨hp, fun hc => ?_⟩⟩
    exact ((db.mem_unnamed _).1 hc).2 k e he rfl

namespace Tree

variable (h : db.Tree) (hp : db.Purged L db')

include h hp

/-- A linked directory is not deleted. -/
theorem not_purged {d : ℕ} (hd : db.LinkedDir d) : ¬ L d := by
  intro hL
  rcases hd.2 with rfl | ⟨p, n, hn⟩
  · exact hp.unnamed 1 hL _ _ h.root.dot rfl
  · obtain ⟨-, e, he, hchild⟩ := next_eq_some_iff.1 hn
    exact hp.unnamed d hL _ e he hchild

theorem next_purged : db'.next = db.next := by
  funext d n
  refine Option.ext fun x => ?_
  simp only [next_eq_some_iff, hp.dentry]
  refine and_congr_right fun hn => exists_congr fun e => and_congr_left fun hx =>
    and_iff_left_of_imp fun he => ?_
  rw [(key_of_entry he).1]
  exact h.not_purged hp (h.linked_of_next (next_eq_some_iff.2 ⟨hn, e, he, hx⟩))

/-- An entry of a linked directory stays. -/
theorem find_purged {d : ℕ} (hd : db.LinkedDir d) {n : Name} {e : DentryRow}
    (he : db.dentry.find (d, n) = some e) : db'.dentry.find (d, n) = some e :=
  (hp.dentry _ e).2 ⟨he, by rw [(key_of_entry he).1]; exact h.not_purged hp hd⟩

theorem purged : db'.Tree := by
  have hnext := h.next_purged hp
  have hkind : ∀ {i}, db'.IsDir i → db.IsDir i := by
    intro i hi
    by_cases hL : L i
    · rw [IsDir, hp.gone i hL] at hi
      exact absurd hi (by simp)
    · rwa [IsDir, hp.kindOf i hL] at hi
  have hlinked : ∀ {d}, db.LinkedDir d → db'.IsDir d := by
    intro d hd
    rw [IsDir, hp.kindOf d (h.not_purged hp hd)]
    exact hd.1
  refine ⟨⟨?_, h.find_purged hp h.root_linked h.root.dot,
    h.find_purged hp h.root_linked h.root.dotdot⟩, fun k e he => ?_, fun k e he => ?_, ?_,
    fun d n x hx hxd => ?_, fun d n x hx hxd => ?_⟩
  · rw [← kindOf_isSome, show db'.kindOf 1 = some .Directory from hlinked h.root_linked]
    rfl
  · obtain ⟨he, -⟩ := (hp.dentry k e).1 he
    rw [hp.kindOf _ fun hL => hp.unnamed _ hL k e he rfl]
    exact h.typed k e he
  · obtain ⟨he, hL⟩ := (hp.dentry k e).1 he
    rw [IsDir, hp.kindOf _ hL]
    exact h.held k e he
  · rw [hnext]
    exact h.names.congr (fun hx => hlinked (h.linked_of_next hx)) fun _ hx => hkind hx
  · rw [hnext] at hx
    exact h.find_purged hp ⟨hkind hxd, Or.inr ⟨d, n, hx⟩⟩ (h.own_dot d n x hx (hkind hxd))
  · rw [hnext] at hx
    exact h.find_purged hp ⟨hkind hxd, Or.inr ⟨d, n, hx⟩⟩ (h.own_dotdot d n x hx (hkind hxd))

end Tree

end Purged

end Db

end TemporalFs
