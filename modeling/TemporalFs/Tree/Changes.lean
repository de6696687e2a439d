import Mathlib
import TemporalFs.Tree.Directories

/-!
# Changes of the tree

A name is added, removed or moved, in the terms of the effects of the methods.

Each change is first brought into the form of a map from names to inodes with one name set anew,
where the entries `.` and `..` are not names. That the tree stays one is then a fact about trees of
names (`Lib.NameTree`), with what is special to directories added: the new entries `.` and `..`, and
the one `..` that a rename adjusts. A name can only be given below a directory that has one itself,
and a directory must not be moved below itself.

## Main results

* `Db.OnlyRoot.tree`: a new database.
* `Db.Tree.added`, `Db.Tree.linked`, `Db.Tree.unlinked`, `Db.Tree.moved`: the tree stays one.
* `Db.next_added`, `Db.next_linked`, `Db.next_unlinked`, `Db.next_moved`: the names afterwards.
-/

namespace TemporalFs

variable {X : Externals}

namespace Db

variable {db db' : Db X}

theorem OnlyRoot.tree {now : Now} (h : db.OnlyRoot now) : db.Tree := by
  have hnext : ∀ d n, db.next d n = none := by
    intro d n
    unfold next
    split_ifs with hn
    · rfl
    · rw [h.dentry, if_neg fun hc => hn ?_]
      · rfl
      · rcases hc with hc | hc
        · exact Or.inr (Prod.mk.inj hc).2
        · exact Or.inl (Prod.mk.inj hc).2
  have hentry : ∀ k e, db.dentry.find k = some e →
      e.parentId = 1 ∧ e.childId = 1 ∧ e.fileType = .Directory := by
    intro k e he
    rw [h.dentry] at he
    split_ifs at he
    obtain rfl := Option.some.inj he
    exact ⟨rfl, rfl, rfl⟩
  have hroot : db.IsDir 1 := by
    rw [IsDir, kindOf, h.metadata, if_pos rfl]
    rfl
  refine ⟨h.rootInPlace, fun k e he => ?_, fun k e he => ?_, ⟨?_, ?_, ?_, ?_⟩, ?_, ?_⟩
  · obtain ⟨-, hc, ht⟩ := hentry k e he
    rw [hc, ht]
    exact hroot
  · rw [(hentry k e he).1]
    exact hroot
  all_goals
    intros
    simp_all

/-- The names after one entry was set or removed. -/
theorem next_eq_setName {p : ℕ} {n : Name} {o : Option ℕ} (hn : ¬ IsDots n)
    (h : ∀ d m, ¬ IsDots m → (db'.dentry.find (d, m)).map DentryRow.childId =
      if d = p ∧ m = n then o else (db.dentry.find (d, m)).map DentryRow.childId) :
    db'.next = setName db.next p n o := by
  funext d m
  by_cases hm : IsDots m
  · rw [setName_of_ne (by rintro ⟨-, rfl⟩; exact hn hm), next, if_pos hm, next, if_pos hm]
  · rw [next_of_not_dots hm, h d m hm, setName, next_of_not_dots hm]

/-! ### A new inode -/

section Added

variable {p child : ℕ} {n : Name} {attr : DBFileAttr} (hadd : db.Added p n attr child db')

include hadd

theorem kindOf_added (i : ℕ) :
    db'.kindOf i = if i = child then some attr.kind else db.kindOf i := by
  have hm := congrArg (Option.map MetadataRow.kind) (hadd.metadata i)
  rw [Option.map_map] at hm
  refine Eq.trans (by exact hm) ?_
  split_ifs
  · rfl
  · rw [Option.map_map]
    rfl

/-- The inode was not there before. -/
theorem kindOf_fresh : db.kindOf child = none := by
  have hseq := db.sequence_bound child
  rw [← kindOf_isSome] at hseq
  cases hk : db.kindOf child with
  | none => rfl
  | some t =>
    have := hseq (by rw [hk]; rfl)
    have := hadd.child_eq
    omega

theorem next_fresh (m : Name) : db.next child m = none := by
  cases hm : db.next child m with
  | none => rfl
  | some x =>
    obtain ⟨-, e, he, -⟩ := next_eq_some_iff.1 hm
    exact absurd (key_of_entry he).1 (entry_ne_of_kindOf (kindOf_fresh hadd) he).1

theorem next_ne_fresh (d : ℕ) (m : Name) : db.next d m ≠ some child := by
  intro hm
  obtain ⟨-, e, he, hc⟩ := next_eq_some_iff.1 hm
  exact (entry_ne_of_kindOf (kindOf_fresh hadd) he).2 hc

theorem next_added (hn : ¬ IsDots n) : db'.next = setName db.next p n (some child) := by
  refine next_eq_setName hn fun d m hm => ?_
  have hdot : ¬ (d, m) = (child, dot) := fun h => hm (Or.inr (Prod.mk.inj h).2)
  have hdotdot : ¬ (d, m) = (child, dotdot) := fun h => hm (Or.inl (Prod.mk.inj h).2)
  rw [hadd.dentry, if_neg fun h => hdot h.2, if_neg fun h => hdotdot h.2]
  simp only [Prod.mk.injEq]
  split_ifs <;> rfl

theorem Tree.added (h : db.Tree) (hn : ¬ IsDots n) (hp : db.LinkedDir p) : db'.Tree := by
  have hkind := kindOf_added hadd
  have hfresh := kindOf_fresh hadd
  have hnext := next_added hadd hn
  have hold : ∀ {i}, i ≠ child → db'.kindOf i = db.kindOf i := fun hi =>
    (hkind _).trans (if_neg hi)
  have hpc : p ≠ child := by
    rintro rfl
    exact absurd hp.1 (by simp [IsDir, hfresh])
  have hrootc : 1 ≠ child := by
    rintro rfl
    exact absurd h.root_isDir (by simp [IsDir, hfresh])
  have hpdir : db'.IsDir p := (hold hpc).trans hp.1
  have hkeep : ∀ {d m}, d ≠ child → IsDots m → db'.dentry.find (d, m) = db.dentry.find (d, m) := by
    intro d m hd hm
    rw [hadd.dentry, if_neg fun hk => hd (Prod.mk.inj hk.2).1,
      if_neg fun hk => hd (Prod.mk.inj hk.2).1, if_neg (by rintro ⟨⟩; exact hn hm)]
  have hcases : ∀ {d m x}, db'.next d m = some x → db'.IsDir x →
      (d = p ∧ m = n ∧ x = child ∧ attr.kind = .Directory) ∨
        (x ≠ child ∧ db.next d m = some x ∧ db.IsDir x) := by
    intro d m x hx hxd
    rw [hnext] at hx
    unfold setName at hx
    split_ifs at hx with hk
    · obtain rfl := Option.some.inj hx
      rw [IsDir, hkind, if_pos rfl] at hxd
      exact Or.inl ⟨hk.1, hk.2, rfl, Option.some.inj hxd⟩
    · have hxc : x ≠ child := fun heq => next_ne_fresh hadd d m (heq ▸ hx)
      exact Or.inr ⟨hxc, hx, (hold hxc).symm.trans hxd⟩
  refine ⟨⟨?_, by rw [hkeep hrootc (Or.inr rfl), h.root.dot],
    by rw [hkeep hrootc (Or.inl rfl), h.root.dotdot]⟩, fun k e he => ?_, fun k e he => ?_, ?_,
    fun d m x hx hxd => ?_, fun d m x hx hxd => ?_⟩
  · rw [← kindOf_isSome, hold hrootc, kindOf_isSome]
    exact h.root.root
  · rw [hadd.dentry] at he
    split_ifs at he with h₁ h₂ h₃
    · obtain rfl := Option.some.inj he
      exact (hkind _).trans ((if_pos rfl).trans (congrArg some h₁.1))
    · obtain rfl := Option.some.inj he
      exact hpdir
    · obtain rfl := Option.some.inj he
      exact (hkind _).trans (if_pos rfl)
    · rw [hold (entry_ne_of_kindOf hfresh he).2]
      exact h.typed k e he
  · rw [hadd.dentry] at he
    split_ifs at he with h₁ h₂ h₃
    · obtain rfl := Option.some.inj he
      exact (hkind _).trans ((if_pos rfl).trans (congrArg some h₁.1))
    · obtain rfl := Option.some.inj he
      exact (hkind _).trans ((if_pos rfl).trans (congrArg some h₂.1))
    · obtain rfl := Option.some.inj he
      exact hpdir
    · rw [IsDir, hold (entry_ne_of_kindOf hfresh he).1]
      exact h.held k e he
  · obtain ⟨P, hP⟩ := h.exists_path hp
    rw [hnext]
    have hnames : NameTree db.next 1 db'.IsDir := by
      refine h.names.congr (fun {d m x} hx => ?_) fun {d m x} hx hxd => ?_
      · have hd : d ≠ child := by
          rintro rfl
          simp [next_fresh hadd] at hx
        exact (hold hd).trans (h.names.holder hx)
      · exact (hold fun heq => next_ne_fresh hadd d m (heq ▸ hx)).symm.trans hxd
    exact hnames.add hpdir hP (next_eq_none_of_free hadd.free) hpc.symm (next_fresh hadd)
      hrootc.symm fun _ => next_ne_fresh hadd
  · rcases hcases hx hxd with ⟨rfl, rfl, rfl, hdir⟩ | ⟨hxc, hx, hxd⟩
    · rw [hadd.dentry, if_pos ⟨hdir, rfl⟩]
    · rw [hkeep hxc (Or.inr rfl), h.own_dot d m x hx hxd]
  · rcases hcases hx hxd with ⟨rfl, rfl, rfl, hdir⟩ | ⟨hxc, hx, hxd⟩
    · rw [hadd.dentry, if_neg (by simp [dot, dotdot]), if_pos ⟨hdir, rfl⟩]
    · rw [hkeep hxc (Or.inl rfl), h.own_dotdot d m x hx hxd]

end Added

/-! ### A new name of a file -/

section Linked

variable {i p : ℕ} {n : Name} {attr : DBFileAttr} (hlink : db.Linked i p n attr db')

include hlink

theorem kindOf_linked : db.kindOf i = some .RegularFile := by
  obtain ⟨m, hm, hattr⟩ := inodeAttr_eq_ok_some hlink.found
  rw [kindOf, hm, Option.map_some, ← (MetadataRow.attr_eq_some hattr).2.2.2.1, hlink.kind]

theorem next_linked (hn : ¬ IsDots n) : db'.next = setName db.next p n (some i) := by
  refine next_eq_setName hn fun d m _ => ?_
  rw [hlink.dentry]
  simp only [Prod.mk.injEq]
  split_ifs <;> rfl

theorem Tree.linked (h : db.Tree) (hn : ¬ IsDots n) (hp : db.LinkedDir p) : db'.Tree := by
  have hkind := hlink.rest.kindOf
  have hdir : db'.IsDir = db.IsDir := funext fun j => by rw [IsDir, hkind, IsDir]
  have hfile : ¬ db.IsDir i := by
    rw [IsDir, kindOf_linked hlink]
    simp
  have hnext := next_linked hlink hn
  have hkeep : ∀ d {m}, IsDots m → db'.dentry.find (d, m) = db.dentry.find (d, m) := by
    intro d m hm
    rw [hlink.dentry, if_neg (by rintro ⟨⟩; exact hn hm)]
  have hcases :
    ∀ {d m x}, db'.next d m = some x → db'.IsDir x → db.next d m = some x ∧ db.IsDir x := by
    intro d m x hx hxd
    rw [hdir] at hxd
    rw [hnext] at hx
    unfold setName at hx
    split_ifs at hx with hk
    · exact absurd hxd (Option.some.inj hx ▸ hfile)
    · exact ⟨hx, hxd⟩
  refine ⟨⟨?_, by rw [hkeep 1 (Or.inr rfl), h.root.dot],
      by rw [hkeep 1 (Or.inl rfl), h.root.dotdot]⟩,
    fun k e he => ?_, fun k e he => ?_, ?_, fun d m x hx hxd => ?_, fun d m x hx hxd => ?_⟩
  · rw [← kindOf_isSome, hkind, kindOf_isSome]
    exact h.root.root
  · rw [hkind]
    rw [hlink.dentry] at he
    split_ifs at he
    · obtain rfl := Option.some.inj he
      exact kindOf_linked hlink
    · exact h.typed k e he
  · rw [hdir]
    rw [hlink.dentry] at he
    split_ifs at he
    · obtain rfl := Option.some.inj he
      exact hp.1
    · exact h.held k e he
  · obtain ⟨P, hP⟩ := h.exists_path hp
    rw [hnext, hdir]
    refine h.names.add hp.1 hP (next_eq_none_of_free hlink.free) ?_ (h.leaf_of_not_isDir hfile) ?_
      fun hd => absurd hd hfile
    · rintro rfl
      exact hfile hp.1
    · rintro rfl
      exact hfile h.root_isDir
  · obtain ⟨hx, hxd⟩ := hcases hx hxd
    rw [hkeep x (Or.inr rfl), h.own_dot d m x hx hxd]
  · obtain ⟨hx, hxd⟩ := hcases hx hxd
    rw [hkeep x (Or.inl rfl), h.own_dotdot d m x hx hxd]

end Linked

/-! ### The removal of a name -/

section Unlinked

variable {p child : ℕ} {n : Name} (hun : db.Unlinked p n child db') (hn : ¬ IsDots n)

include hun hn

theorem Unlinked.next_eq : db.next p n = some child := by
  obtain ⟨e, he, hc⟩ := hun.found
  exact next_eq_some_iff.2 ⟨hn, e, he, hc⟩

theorem next_unlinked (hleaf : ∀ m, db.next child m = none) :
    db'.next = setName db.next p n none := by
  refine next_eq_setName hn fun d m hm => ?_
  rw [hun.dentry]
  by_cases hk : d = p ∧ m = n
  · rw [if_pos ⟨by rw [hk.1, hk.2], hn⟩, if_pos hk, Option.map_none]
  · rw [if_neg fun hc => hk (Prod.mk.inj hc.1), if_neg hk]
    cases he : db.dentry.find (d, m) with
    | none => rfl
    | some e =>
      rw [Option.filter_some, if_pos]
      rw [(key_of_entry he).1, decide_eq_true_eq]
      rintro rfl
      have := next_eq_some_iff.2 ⟨hm, e, he, rfl⟩
      rw [hleaf] at this
      exact absurd this (by simp)

theorem Tree.unlinked (h : db.Tree) (hleaf : ∀ m, db.next child m = none) : db'.Tree := by
  have hnext := next_unlinked hun hn hleaf
  have hname := hun.next_eq hn
  have hkind := hun.rest.kindOf
  have hdir : db'.IsDir = db.IsDir := funext fun j => by rw [IsDir, hkind, IsDir]
  have hold : ∀ {k e}, db'.dentry.find k = some e → db.dentry.find k = some e := by
    intro k e he
    rw [hun.dentry] at he
    split_ifs at he
    exact (Option.filter_eq_some_iff.1 he).1
  have hkeep : ∀ {d m e}, d ≠ child → IsDots m → db.dentry.find (d, m) = some e →
      db'.dentry.find (d, m) = some e := by
    intro d m e hd hm he
    rw [hun.dentry, if_neg (by rintro ⟨⟨⟩, -⟩; exact hn hm), he, Option.filter_some,
      if_pos (by simpa [(key_of_entry he).1] using hd)]
  have hroot : (1 : ℕ) ≠ child := (h.names.ne_root hname).symm
  have hcases : ∀ {d m x}, db'.next d m = some x → db'.IsDir x →
      x ≠ child ∧ db.next d m = some x ∧ db.IsDir x := by
    intro d m x hx hxd
    rw [hdir] at hxd
    rw [hnext] at hx
    unfold setName at hx
    split_ifs at hx with hk
    refine ⟨?_, hx, hxd⟩
    rintro rfl
    exact hk (h.names.unique hx hname hxd)
  refine ⟨⟨?_, hkeep hroot (Or.inr rfl) h.root.dot, hkeep hroot (Or.inl rfl) h.root.dotdot⟩,
    fun k e he => ?_, fun k e he => ?_, ?_, fun d m x hx hxd => ?_, fun d m x hx hxd => ?_⟩
  · rw [← kindOf_isSome, hkind, kindOf_isSome]
    exact h.root.root
  · rw [hkind]
    exact h.typed k e (hold he)
  · rw [hdir]
    exact h.held k e (hold he)
  · obtain ⟨P, hP⟩ := h.names.reached hname
    rw [hnext, hdir]
    exact h.names.remove (h.names.holder hname) hP hname hleaf
  · obtain ⟨hxc, hx, hxd⟩ := hcases hx hxd
    exact hkeep hxc (Or.inr rfl) (h.own_dot d m x hx hxd)
  · obtain ⟨hxc, hx, hxd⟩ := hcases hx hxd
    exact hkeep hxc (Or.inl rfl) (h.own_dotdot d m x hx hxd)

end Unlinked

/-! ### The move of a name -/

section Moved

variable {p p' : ℕ} {n n' : Name} {e : DentryRow} {res : Option ℕ}
  (hmove : db.Moved p n p' n' e res db')

include hmove

theorem Moved.next_eq (hn : ¬ IsDots n) : db.next p n = some e.childId :=
  next_eq_some_iff.2 ⟨hn, e, hmove.source, rfl⟩

theorem next_moved (hn : ¬ IsDots n) (hn' : ¬ IsDots n') :
    db'.next = NameTree.moved db.next p n p' n' e.childId := by
  funext d m
  unfold NameTree.moved
  by_cases hm : IsDots m
  · rw [setName_of_ne (by rintro ⟨-, rfl⟩; exact hn' hm),
      setName_of_ne (by rintro ⟨-, rfl⟩; exact hn hm), next, if_pos hm, next, if_pos hm]
  · have hdotdot : ¬ (d, m) = (e.childId, dotdot) := fun hk => hm (Or.inl (Prod.mk.inj hk).2)
    rw [next_of_not_dots hm, hmove.dentry, if_neg fun hk => hdotdot hk.2.2, movedEntry]
    simp only [setName, Prod.mk.injEq, next_of_not_dots hm]
    split_ifs <;> rfl

/-- What a move replaces holds no names. -/
theorem Moved.leaf (h : db.Tree) (v : ℕ) (hv : db.next p' n' = some v) (m : Name) :
    db.next v m = none := by
  obtain ⟨-, x, hx, rfl⟩ := next_eq_some_iff.1 hv
  by_cases hdir : db.IsDir x.childId
  · exact Tree.leaf_of_empty (hmove.empty x hx ((h.isDir_iff hx).1 hdir)) m
  · exact h.leaf_of_not_isDir hdir m

/-- The move of a name, as one of a tree of names. -/
theorem Moved.canMove_names (h : db.Tree) (hn : ¬ IsDots n)
    (hp' : db.LinkedDir p') (hbelow : ¬ db.Below e.childId p') (hne : (p, n) ≠ (p', n'))
    {P P' : List Name} (hP : walk db.next 1 P = some p) (hP' : walk db.next 1 P' = some p') :
    NameTree.CanMove db.next 1 db.IsDir P p n P' p' n' e.childId where
  tree := h.names
  source := hP
  holder := h.names.holder (hmove.next_eq hn)
  name := hmove.next_eq hn
  target := hP'
  holder' := hp'.1
  leaf := hmove.leaf h
  not_below := by
    rintro ⟨R, rfl⟩
    rw [walk_through hP (hmove.next_eq hn), Option.bind_some] at hP'
    exact hbelow ⟨R, hP'⟩
  ne hc := hne (by rw [hc.1, hc.2])

theorem Tree.moved (h : db.Tree) (hn : ¬ IsDots n) (hn' : ¬ IsDots n') (hp' : db.LinkedDir p')
    (hbelow : ¬ db.Below e.childId p') (hne : (p, n) ≠ (p', n')) : db'.Tree := by
  have hnext := next_moved hmove hn hn'
  have hname := hmove.next_eq hn
  have hkind := hmove.rest.kindOf
  have hdir : db'.IsDir = db.IsDir := funext fun j => by rw [IsDir, hkind, IsDir]
  have hdots : ∀ d {m}, IsDots m → db.movedEntry p n p' n' e (d, m) = db.dentry.find (d, m) := by
    intro d m hm
    rw [movedEntry, if_neg (by rintro ⟨⟩; exact hn' hm), if_neg (by rintro ⟨⟩; exact hn hm)]
  have hdot : ∀ d, db'.dentry.find (d, dot) = db.dentry.find (d, dot) := by
    intro d
    rw [hmove.dentry, if_neg (by simp [dot, dotdot]), hdots d (Or.inr rfl)]
  have hdotdot : ∀ d, d ≠ e.childId → db'.dentry.find (d, dotdot) = db.dentry.find (d, dotdot) := by
    intro d hd
    rw [hmove.dentry, if_neg fun hk => hd (Prod.mk.inj hk.2.2).1, hdots d (Or.inl rfl)]
  have hown : e.fileType = .Directory →
      db'.dentry.find (e.childId, dotdot) = some ⟨e.childId, p', .Directory, dotdot⟩ := by
    intro ht
    have hold := h.own_dotdot p n _ hname ((h.isDir_iff hmove.source).2 ht)
    rw [hmove.dentry, hdots _ (Or.inl rfl), hold]
    by_cases hpp : p = p'
    · rw [if_neg fun hk => hk.1 hpp, hpp]
    · rw [if_pos ⟨hpp, ht, rfl⟩]
      rfl
  have hentry : ∀ k x, db'.dentry.find k = some x →
      (x.parentId = p' ∧ x.childId = e.childId ∧ x.fileType = e.fileType) ∨
        (x.parentId = e.childId ∧ x.childId = p' ∧ x.fileType = .Directory ∧
          e.fileType = .Directory) ∨ db.dentry.find k = some x := by
    intro k x hx
    by_cases hk : e.fileType = .Directory ∧ k = (e.childId, dotdot)
    · rw [hk.2, hown hk.1] at hx
      obtain rfl := Option.some.inj hx
      exact Or.inr (Or.inl ⟨rfl, rfl, rfl, hk.1⟩)
    · rw [hmove.dentry, if_neg fun hc => hk hc.2, movedEntry] at hx
      split_ifs at hx
      · obtain rfl := Option.some.inj hx
        exact Or.inl ⟨rfl, rfl, rfl⟩
      · exact Or.inr (Or.inr hx)
  have hcases : ∀ {d m x}, db'.next d m = some x → db'.IsDir x →
      (d = p' ∧ x = e.childId ∧ e.fileType = .Directory) ∨
        (x ≠ e.childId ∧ db.next d m = some x ∧ db.IsDir x) := by
    intro d m x hx hxd
    rw [hdir] at hxd
    rw [hnext] at hx
    unfold NameTree.moved setName at hx
    split_ifs at hx with h₁ h₂
    · obtain rfl := Option.some.inj hx
      exact Or.inl ⟨h₁.1, rfl, (h.isDir_iff hmove.source).1 hxd⟩
    · refine Or.inr ⟨?_, hx, hxd⟩
      rintro rfl
      exact h₂ (h.names.unique hx hname hxd)
  have hroot : (1 : ℕ) ≠ e.childId := (h.names.ne_root hname).symm
  refine ⟨⟨?_, by rw [hdot, h.root.dot], by rw [hdotdot 1 hroot, h.root.dotdot]⟩,
    fun k x hx => ?_, fun k x hx => ?_, ?_, fun d m x hx hxd => ?_, fun d m x hx hxd => ?_⟩
  · rw [← kindOf_isSome, hkind, kindOf_isSome]
    exact h.root.root
  · rw [hkind]
    rcases hentry k x hx with ⟨-, hc, ht⟩ | ⟨-, hc, ht, -⟩ | hx
    · rw [hc, ht]
      exact h.typed _ e hmove.source
    · rw [hc, ht]
      exact hp'.1
    · exact h.typed k x hx
  · rw [hdir]
    rcases hentry k x hx with ⟨hx, -, -⟩ | ⟨hx, -, -, ht⟩ | hx
    · rw [hx]
      exact hp'.1
    · rw [hx]
      exact (h.isDir_iff hmove.source).2 ht
    · exact h.held k x hx
  · obtain ⟨P, hP⟩ := h.names.reached hname
    obtain ⟨P', hP'⟩ := h.exists_path hp'
    rw [hnext, hdir]
    exact (hmove.canMove_names h hn hp' hbelow hne hP hP').nameTree
  · rw [hdot]
    rcases hcases hx hxd with ⟨-, rfl, ht⟩ | ⟨-, hx, hxd⟩
    · exact h.own_dot p n _ hname ((h.isDir_iff hmove.source).2 ht)
    · exact h.own_dot d m x hx hxd
  · rcases hcases hx hxd with ⟨rfl, rfl, ht⟩ | ⟨hxc, hx, hxd⟩
    · exact hown ht
    · rw [hdotdot x hxc]
      exact h.own_dotdot d m x hx hxd

end Moved

end Db

end TemporalFs
