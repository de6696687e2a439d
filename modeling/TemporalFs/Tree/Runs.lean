import Mathlib
import TemporalFs.Db.Methods
import TemporalFs.Tree.Changes

/-!
# Runs of operations on the namespace

The kernel checks names and kinds before it asks for a change of the namespace. Under these
promises the directory table is a tree after every operation of a run.

The run starts from a new database. That the directories form a tree is said twice: once of the
names, as the invariant that the induction carries, and once of the rows of the table, as one would
check it there. An operation that fails, for whatever reason, has left the tree as it was, so that
the promises are all that is asked of a run.

## Main definitions

* `NamespaceOp.Promised`: what the kernel promises of an operation.
* `Db.DirectoryTree`: what a tree of directories is, in terms of the entries.

## Main results

* `NamespaceOp.run_tree`: an operation keeps the tree.
* `directories_form_tree`: the tree after every run.
-/

namespace TemporalFs

variable {X : Externals}

/-- What the kernel promises of an operation: names are not `.` or `..`, new places are linked
directories, what is deleted is not a directory or holds no names, and what is moved is neither
moved below itself, if it is a directory, nor onto itself. -/
def NamespaceOp.Promised (db : Db X) : NamespaceOp → Prop
  | .addInodeAndDentry _ parent name _ => ¬ IsDots name ∧ db.LinkedDir parent
  | .linkDentry _ _ parent name => ¬ IsDots name ∧ db.LinkedDir parent
  | .deleteDentry _ parent name => ¬ IsDots name ∧
    ∀ i, db.next parent name = some i → db.IsDir i → ∀ m, db.next i m = none
  | .moveDentry _ parent name new_parent new_name => ¬ IsDots name ∧ ¬ IsDots new_name ∧
    db.LinkedDir new_parent ∧ ∀ i, db.next parent name = some i →
      (db.IsDir i → ¬ db.Below i new_parent) ∧ db.next new_parent new_name ≠ some i
  | .deleteInodeIfNoref _ => True
  | .deleteAllNorefInode => True

/-- The kernel keeps its promises in a run. -/
def Promised (self : Sqlite) : Db X → List NamespaceOp → Prop
  | _, [] => True
  | db, op :: ops => op.Promised db ∧ Promised self (op.run self db) ops

namespace Db

/-- The entry `..` of `d` names `p`. -/
def DotDot (db : Db X) (d p : ℕ) : Prop :=
  ∃ e, db.dentry.find (d, dotdot) = some e ∧ e.childId = p

/-- **The directories form a tree.** The root names itself; a directory with a name has no other,
and its own entries name itself and the directory that holds the name; following `..` leads to the
root; only directories hold entries; and the types of entries are the kinds of inodes. -/
structure DirectoryTree (db : Db X) : Prop where
  root : db.RootInPlace
  one_name : ∀ d n x, db.next d n = some x → db.IsDir x →
    ∀ d' n', db.next d' n' = some x → d' = d ∧ n' = n
  dots : ∀ d n x, db.next d n = some x → db.IsDir x →
    db.dentry.find (x, dot) = some ⟨x, x, .Directory, dot⟩ ∧
      db.dentry.find (x, dotdot) = some ⟨x, d, .Directory, dotdot⟩
  climbs : ∀ d n x, db.next d n = some x → db.IsDir x → Relation.ReflTransGen db.DotDot x 1
  holders : ∀ k e, db.dentry.find k = some e → db.IsDir e.parentId
  types : ∀ k e, db.dentry.find k = some e → db.kindOf e.childId = some e.fileType

theorem Tree.directoryTree {db : Db X} (h : db.Tree) : db.DirectoryTree where
  root := h.root
  one_name _ _ _ hx hxd _ _ hx' := h.names.unique hx' hx hxd
  dots d n x hx hxd := ⟨h.own_dot d n x hx hxd, h.own_dotdot d n x hx hxd⟩
  climbs d n x hx hxd := by
    obtain ⟨P, hP⟩ := h.exists_path ⟨hxd, Or.inr ⟨d, n, hx⟩⟩
    exact h.names.climbs (fun hx hxd => ⟨_, h.own_dotdot _ _ _ hx hxd, rfl⟩) hxd hP
  holders := h.held
  types := h.typed

end Db

/-- **An operation keeps the tree.** -/
theorem NamespaceOp.run_tree (self : Sqlite) {db : Db X} (h : db.Tree) {op : NamespaceOp}
    (hop : op.Promised db) : (op.run self db).Tree := by
  cases op with
  | addInodeAndDentry now p n attr =>
    exact ((self.addInodeAndDentry_spec now p n attr db).mono
      (fun _ _ hadd => h.added hadd hop.1 hop.2) fun _ _ heq => heq ▸ h).fst
  | linkDentry now i p n =>
    exact ((self.linkDentry_spec now i p n db).mono
      (fun _ _ hlink => h.linked hlink hop.1 hop.2) fun _ _ heq => heq ▸ h).fst
  | deleteDentry now p n =>
    refine ((self.deleteDentry_spec now p n db).mono (fun child _ hun => ?_)
      fun _ _ heq => heq ▸ h).fst
    refine h.unlinked hun hop.1 fun m => ?_
    by_cases hdir : db.IsDir child
    · exact hop.2 child (hun.next_eq hop.1) hdir m
    · exact h.leaf_of_not_isDir hdir m
  | moveDentry now p n p' n' =>
    obtain ⟨hn, hn', hp', hmove⟩ := hop
    by_cases hne : (p, n) = (p', n')
    · obtain ⟨rfl, rfl⟩ := Prod.mk.inj hne
      refine ((self.moveDentry_onto_itself_spec now p n db).mono (fun _ _ hself => ?_)
        fun _ _ heq => heq ▸ h).fst
      obtain ⟨e, -, hself⟩ := hself
      have hname := Db.next_eq_some_iff.2 ⟨hn, e, hself.found, rfl⟩
      exact absurd hname (hmove _ hname).2
    · refine ((self.moveDentry_spec now hne db).mono (fun _ _ hmoved => ?_)
        fun _ _ heq => heq ▸ h).fst
      obtain ⟨e, hmoved⟩ := hmoved
      have hbelow := h.not_below hp' (hmove _ (hmoved.next_eq hn)).1
      exact h.moved hmoved hn hn' hp' hbelow hne
  | deleteInodeIfNoref i =>
    exact ((self.deleteInodeIfNoref_spec db i).mono
      (fun _ _ heq => heq ▸ h.purged (db.purged_collect i)) fun _ _ h => h.elim).fst
  | deleteAllNorefInode =>
    exact ((self.deleteAllNorefInode_spec db).mono
      (fun _ _ heq => heq ▸ h.purged db.purged_deleteAll) fun _ _ h => h.elim).fst

theorem Promised.run_tree {self : Sqlite} {ops : List NamespaceOp} {db : Db X}
    (hops : Promised self db ops) (h : db.Tree) : (ops.foldl (NamespaceOp.run self) db).Tree := by
  induction ops generalizing db with
  | nil => exact h
  | cons op ops ih => exact ih hops.2 (NamespaceOp.run_tree self h hops.1)

/-- **The directory table is always a tree**, after every run of operations on the namespace of an
initialised database in which the kernel keeps its promises: a directory with a name has no other,
its own entries agree with it, and following `..` leads to the root. -/
theorem directories_form_tree (clock : ℕ → ℕ) (self : Sqlite) (now : Now) (ops : List NamespaceOp)
    (hops : Promised self (Db.initialised X clock self now) ops) :
    (ops.foldl (NamespaceOp.run self) (Db.initialised X clock self now)).DirectoryTree :=
  (hops.run_tree (Db.onlyRoot_initialised clock self now).tree).directoryTree

/-- A directory is made, a file is made in it, linked elsewhere and renamed, and all are deleted. -/
theorem directories_form_tree_sample :
    let ops : List NamespaceOp := [.addInodeAndDentry epoch 1 [97] (Sqlite.sampleAttr .Directory),
      .addInodeAndDentry epoch 2 [98] (Sqlite.sampleAttr .RegularFile),
      .linkDentry epoch 3 1 [99], .moveDentry epoch 2 [98] 1 [100], .deleteDentry epoch 1 [97],
      .deleteInodeIfNoref 2, .deleteAllNorefInode]
    (ops.foldl (NamespaceOp.run .new) Sqlite.sampleDb).DirectoryTree := by
  refine directories_form_tree id .new epoch _ ?_
  refine ⟨⟨by decide, by decide, Or.inl rfl⟩, ⟨by decide, by decide, Or.inr ⟨1, [97], by decide⟩⟩,
    ⟨by decide, by decide, Or.inl rfl⟩,
    ⟨by decide, by decide, ⟨by decide, Or.inl rfl⟩, fun i hi => ?_⟩,
    ⟨by decide, fun i hi _ m => ?_⟩, trivial, trivial, trivial⟩
  · obtain rfl : i = 3 := (Option.some.inj hi).symm
    exact ⟨fun hdir => absurd hdir (by decide), by decide⟩
  · obtain rfl : i = 2 := (Option.some.inj hi).symm
    exact Db.Tree.leaf_of_empty (by decide) m

end TemporalFs
