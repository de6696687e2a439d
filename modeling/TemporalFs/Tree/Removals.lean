import Mathlib
import TemporalFs.Tree.Directories

/-!
# What `deleteDentry` removes

`deleteDentry` removes the entry that it is asked to remove, unless it is one of the directory's
own, and everything that lies in the inode behind it. For an empty directory these are its own
entries `.` and `..`.

The directory may have lost its own name, and the entry may lie in any inode: nothing is assumed of
the caller. The deletion goes by the number of the inode and removes all entries in it, whether or
not another entry still names it, so that the condition is one on what lies in the inode behind the
entry, and is stated on the entries before the call.

## Main definitions

* `Db.RemovesOnly`: nothing else is removed.

## Main results

* `Sqlite.removes_only_iff`: when that is so.
-/

namespace TemporalFs

variable {X : Externals}

/-- What is left of the entries is what should be left after the removal of the entry `n` of `p`,
which names `child`: all of them if the entry is one of the directory's own, and else all but the
entry itself and, if the child is a directory, the child's own. No name in any directory goes. -/
structure Db.RemovesOnly (db : Db X) (p : ℕ) (n : Name) (child : ℕ) (db' : Db X) : Prop where
  dentry : ∀ k, db'.dentry.find k =
    if IsDots n then db.dentry.find k
    else if k = (p, n) then none
    else (db.dentry.find k).filter fun x =>
      ¬ (db.IsDir child ∧ x.parentId = child ∧ IsDots x.name)
  names : ∀ k x, db.dentry.find k = some x → ¬ IsDots x.name → k ≠ (p, n) →
    db'.dentry.find k = some x

/-- Nothing lies in `child` but the entry `n` of `p` itself and, if it is a directory, its own
entries; and nothing at all if `n` is `.` or `..`. -/
def Db.HoldsOnlyOwn (db : Db X) (p : ℕ) (n : Name) (child : ℕ) : Prop :=
  ∀ k x, db.dentry.find k = some x → x.parentId = child →
    ¬ IsDots n ∧ (k = (p, n) ∨ db.IsDir child ∧ IsDots x.name)

theorem Db.Unlinked.removesOnly_iff {db db' : Db X} {p child : ℕ} {n : Name}
    (h : db.Unlinked p n child db') :
    db.RemovesOnly p n child db' ↔ db.HoldsOnlyOwn p n child := by
  constructor
  · intro hremoves k x hx hin
    by_contra hown
    have hkept : db'.dentry.find k = some x := by
      rw [hremoves.dentry]
      split_ifs with hn hk
      · exact hx
      · exact absurd ⟨hn, Or.inl hk⟩ hown
      · rw [hx, Option.filter_eq_some_iff]
        refine ⟨rfl, ?_⟩
        simp only [decide_eq_true_eq]
        exact fun hdots => hown ⟨hn, Or.inr ⟨hdots.1, hdots.2.2⟩⟩
    rw [h.dentry] at hkept
    split_ifs at hkept
    exact absurd hin (by simpa using (Option.filter_eq_some_iff.1 hkept).2)
  · intro hown
    have hfind : ∀ k, db'.dentry.find k =
        if IsDots n then db.dentry.find k
        else if k = (p, n) then none
        else (db.dentry.find k).filter fun x =>
          ¬ (db.IsDir child ∧ x.parentId = child ∧ IsDots x.name) := by
      intro k
      rw [h.dentry]
      by_cases hn : IsDots n
      · rw [if_neg fun hk => hk.2 hn, if_pos hn]
        cases hx : db.dentry.find k with
        | none => rfl
        | some x =>
          rw [Option.filter_eq_some_iff]
          exact ⟨rfl, by simpa using fun hin => (hown k x hx hin).1 hn⟩
      · by_cases hk : k = (p, n)
        · rw [if_pos ⟨hk, hn⟩, if_neg hn, if_pos hk]
        · rw [if_neg fun h => hk h.1, if_neg hn, if_neg hk]
          cases hx : db.dentry.find k with
          | none => rfl
          | some x =>
            refine congrArg (fun b => if b = true then some x else none) (decide_eq_decide.2 ?_)
            refine ⟨fun hout hdots => hout hdots.2.1, fun hdots hin => ?_⟩
            have hx' := ((hown k x hx hin).2).resolve_left hk
            exact hdots ⟨hx'.1, hin, hx'.2⟩
    refine ⟨hfind, fun k x hx hdots hk => ?_⟩
    rw [hfind k, if_neg hk]
    split_ifs
    · exact hx
    · rw [hx, Option.filter_eq_some_iff]
      exact ⟨rfl, decide_eq_true fun h => hdots h.2.2⟩

/-- **`deleteDentry` removes only what it was asked to remove** if and only if the child holds
nothing else, in every database and for every entry that is there. -/
theorem Sqlite.removes_only_iff (self : Sqlite) (now : Now) (db : Db X) (p : ℕ) (n : Name)
    (child : ℕ) (hok : (self.deleteDentry now p n db).2 = .ok child) :
    db.RemovesOnly p n child (self.deleteDentry now p n db).1 ↔ db.HoldsOnlyOwn p n child := by
  have h := self.deleteDentry_spec now p n db
  unfold Proc.Ensures at h
  split at h <;> rename_i heq
  · rw [heq] at hok ⊢
    obtain rfl := Except.ok.inj hok
    exact h.removesOnly_iff
  · simp [heq] at hok

/-- The entry of a file in the root. -/
def oneFileDb : Db .sample :=
  (Sqlite.new.addInodeAndDentry epoch 1 [97] (Sqlite.sampleAttr .RegularFile) Sqlite.sampleDb).1

/-- In a root that also holds an empty directory, which is removed. -/
theorem Sqlite.removes_only_iff_sample :
    let db := (Sqlite.new.addInodeAndDentry epoch 1 [98] (Sqlite.sampleAttr .Directory)
      oneFileDb).1
    db.RemovesOnly 1 [98] 3 (Sqlite.new.deleteDentry epoch 1 [98] db).1 ↔
      db.HoldsOnlyOwn 1 [98] 3 :=
  Sqlite.new.removes_only_iff epoch _ 1 [98] 3 (by decide)

/-- The removal of the root's own entry `.` removes the file in the root. -/
theorem dot_removal_empties_the_root :
    (Sqlite.new.deleteDentry epoch 1 dot oneFileDb).2 = .ok 1 ∧
      ¬ oneFileDb.RemovesOnly 1 dot 1 (Sqlite.new.deleteDentry epoch 1 dot oneFileDb).1 := by
  refine ⟨by decide, fun h => ?_⟩
  have hkept := h.names (1, [97]) ⟨1, 2, .RegularFile, [97]⟩ (by decide) (by decide) (by decide)
  exact absurd hkept (by decide)

end TemporalFs
