import Mathlib
import TemporalFs.Tree.Orphans

/-!
# Directories that have been replaced

A rename over an empty directory takes the name of that directory and leaves its own entries. The
directory goes on naming itself, so no deletion ever touches it, and as no name leads there it can
never be reached again.

The deletion of an inode asks whether an entry names it, and its own `.` is such an entry; nothing
removes a `.` but the deletion of the directory itself. What is shown of one effect is shown of a
run, and from a run of any number of mounts, as a new mount starts from the tables of the one
before.

## Main definitions

* `Db.Stranded`: a directory that has lost its name and names itself.
* `SqliteFs.Follows`: a later state, over any number of mounts.

## Main results

* `Db.namesClosed_stranded`: a stranded directory stays so.
* `SqliteFs.replaced_directory_stays`: what a rename has replaced is never deleted nor reached.
-/

namespace TemporalFs

variable {X : Externals}

namespace Db

variable {db db' : Db X} {v : ℕ}

/-- The directory has lost its name and still names itself. -/
structure Stranded (v : ℕ) (db : Db X) : Prop where
  tree : db.Tree
  ne_root : v ≠ 1
  isDir : db.IsDir v
  nameless : ∀ p n, db.next p n ≠ some v
  own_dot : db.dentry.find (v, dot) = some ⟨v, v, .Directory, TemporalFs.dot⟩

namespace Stranded

variable (h : db.Stranded v)

include h

theorem not_fromRoot : ¬ db.FromRoot v := by
  intro hv
  rcases h.tree.root_or_named_of_fromRoot hv with hroot | ⟨p, n, hn⟩
  · exact h.ne_root hroot
  · exact h.nameless p n hn

/-- Another name that is set or removed does not lead to it. -/
theorem nameless_setName {p : ℕ} {n : Name} {o : Option ℕ} (ho : o ≠ some v) (q : ℕ) (m : Name) :
    setName db.next p n o q m ≠ some v := by
  unfold setName
  split_ifs
  · exact ho
  · exact h.nameless q m

theorem purged {L : ℕ → Prop} (hp : db.Purged L db') : db'.Stranded v := by
  have hL : ¬ L v := fun hL => hp.unnamed v hL _ _ h.own_dot rfl
  refine ⟨h.tree.purged hp, h.ne_root, ?_, fun q m => ?_, (hp.dentry _ _).2 ⟨h.own_dot, hL⟩⟩
  · rw [IsDir, hp.kindOf v hL]
    exact h.isDir
  · rw [h.tree.next_purged hp]
    exact h.nameless q m

theorem added {p child : ℕ} {n : Name} {attr : DBFileAttr} (hadd : db.Added p n attr child db')
    (hn : ¬ IsDots n) (hp : db.LinkedDir p) : db'.Stranded v := by
  have hchild : v ≠ child := by
    rintro rfl
    exact absurd h.isDir (by simp [IsDir, kindOf_fresh hadd])
  refine ⟨h.tree.added hadd hn hp, h.ne_root, ?_, fun q m => ?_, ?_⟩
  · rw [IsDir, kindOf_added hadd, if_neg hchild]
    exact h.isDir
  · rw [next_added hadd hn]
    exact h.nameless_setName (fun heq => hchild (Option.some.inj heq).symm) q m
  · rw [hadd.dentry, if_neg fun hk => hchild (Prod.mk.inj hk.2).1,
      if_neg fun hk => hchild (Prod.mk.inj hk.2).1, if_neg, h.own_dot]
    rintro ⟨⟩
    exact hn (Or.inr rfl)

theorem linked {i p : ℕ} {n : Name} {attr : DBFileAttr} (hlink : db.Linked i p n attr db')
    (hn : ¬ IsDots n) (hp : db.LinkedDir p) : db'.Stranded v := by
  refine ⟨h.tree.linked hlink hn hp, h.ne_root, ?_, fun q m => ?_, ?_⟩
  · rw [IsDir, hlink.rest.kindOf]
    exact h.isDir
  · rw [next_linked hlink hn]
    refine h.nameless_setName (fun heq => ?_) q m
    have hfile := kindOf_linked hlink
    rw [Option.some.inj heq, show db.kindOf v = some .Directory from h.isDir] at hfile
    simp at hfile
  · rw [hlink.dentry, if_neg, h.own_dot]
    rintro ⟨⟩
    exact hn (Or.inr rfl)

theorem unlinked {p child : ℕ} {n : Name} (hun : db.Unlinked p n child db') (hn : ¬ IsDots n)
    (hleaf : ∀ m, db.next child m = none) : db'.Stranded v := by
  refine ⟨h.tree.unlinked hun hn hleaf, h.ne_root, ?_, fun q m => ?_, hun.find h.own_dot ?_ ?_⟩
  · rw [IsDir, hun.rest.kindOf]
    exact h.isDir
  · rw [next_unlinked hun hn hleaf]
    exact h.nameless_setName (by simp) q m
  · rintro ⟨⟩
    exact hn (Or.inr rfl)
  · rintro rfl
    exact h.nameless p n (hun.next_eq hn)

theorem moved {p p' : ℕ} {n n' : Name} {e : DentryRow} {res : Option ℕ}
    (hmove : db.Moved p n p' n' e res db') (hn : ¬ IsDots n) (hn' : ¬ IsDots n')
    (hp' : db.LinkedDir p') (hbelow : ¬ db.Below e.childId p') (hne : (p, n) ≠ (p', n')) :
    db'.Stranded v := by
  refine ⟨h.tree.moved hmove hn hn' hp' hbelow hne, h.ne_root, ?_, fun q m => ?_, ?_⟩
  · rw [IsDir, hmove.rest.kindOf]
    exact h.isDir
  · rw [next_moved hmove hn hn', NameTree.moved, setName]
    split_ifs with hq
    · intro heq
      exact h.nameless p n (heq ▸ hmove.next_eq hn)
    · exact h.nameless_setName (by simp) q m
  · rw [hmove.find_dot hn hn', h.own_dot]

end Stranded

/-- **A stranded directory stays so.** -/
theorem namesClosed_stranded (v : ℕ) :
    NamesClosed (X := X) (fun _ _ _ _ _ => True) (Stranded v) where
  tree h := h.tree
  same h hsame := by
    refine ⟨hsame.tree h.tree, h.ne_root, ?_, fun q m => ?_, ?_⟩
    · rw [hsame.isDir]
      exact h.isDir
    · rw [hsame.next]
      exact h.nameless q m
    · rw [hsame.dentry, h.own_dot]
  purged h hp := h.purged hp
  added h hadd hn hp := h.added hadd hn hp
  linked h hlink hn hp := h.linked hlink hn hp
  unlinked h hun hn hleaf := h.unlinked hun hn hleaf
  moved h hmove hn hn' hp' hbelow hne _ := h.moved hmove hn hn' hp' hbelow hne

/-- The directory that a move replaces is stranded. -/
theorem Moved.stranded {p p' : ℕ} {n n' : Name} {e : DentryRow} {res : Option ℕ} (h : db.Tree)
    (hmove : db.Moved p n p' n' e res db') (hn : ¬ IsDots n) (hn' : ¬ IsDots n')
    (hp' : db.LinkedDir p') (hbelow : ¬ db.Below e.childId p') (hne : (p, n) ≠ (p', n'))
    (hv : db.next p' n' = some v) (hdir : db.IsDir v) (hself : v ≠ e.childId) :
    db'.Stranded v := by
  refine ⟨h.moved hmove hn hn' hp' hbelow hne, h.names.ne_root hv, ?_, fun q m => ?_, ?_⟩
  · rw [IsDir, hmove.rest.kindOf]
    exact hdir
  · rw [next_moved hmove hn hn', NameTree.moved, setName]
    split_ifs with hq
    · exact fun heq => hself (Option.some.inj heq).symm
    · rw [setName]
      split_ifs
      · simp
      · intro hq'
        exact hq (h.names.unique hq' hv hdir)
  · rw [hmove.find_dot hn hn', h.own_dot _ _ _ hv hdir]

end Db

namespace SqliteFs

variable {s s₀ s' : SqliteFs X} {v : ℕ}

/-- The states after `s₀`, over any number of mounts, where the kernel keeps its promises. -/
inductive Follows (s₀ : SqliteFs X) : SqliteFs X → Prop
  | now : Follows s₀ s₀
  | handled {s : SqliteFs X} (h : Follows s₀ s) (r : Env × Request)
      (hp : r.2.Promised s.conn) : Follows s₀ (s.after r)
  | remounted {s s' : SqliteFs X} {db : Sqlite} {now : Now} (h : Follows s₀ s)
      (hs : mount db now s.conn false false = some s') : Follows s₀ s'

/-- What the steps of the namespace keep, every later state has. -/
theorem Follows.names {I : Db X → Prop} (hI : Db.NamesClosed (fun _ _ _ _ _ => True) I)
    (h : s₀.Follows s) (hw : s₀.WritableMount) (hs : I s₀.conn) : s.WritableMount ∧ I s.conn := by
  induction h with
  | now => exact ⟨hw, hs⟩
  | handled h r hp ih =>
    exact ⟨ih.1.after r, ih.1.names_after hI ih.2 hp fun _ _ _ _ _ _ => trivial⟩
  | remounted h hmount ih => exact ih.1.names_remounted hI ih.2 hmount

/-- A rename that went through strands the directory that it has replaced. -/
theorem WritableMount.stranded (h : s.WritableMount) (htree : s.conn.Tree) {env : Env}
    {p p' : ℕ} {n n' : Bytes} (hp : Request.Promised s.conn (.rename p n p' n'))
    (hok : (handle env (.rename p n p' n') s).2 = .replied .ok)
    (hv : s.conn.next (asU32 p') n' = some v) (hdir : s.conn.IsDir v) :
    (s.after (env, .rename p n p' n')).conn.Stranded v := by
  have heff := h.handle_effect (env, .rename p n p' n')
  dsimp only at heff
  rw [hok] at heff
  obtain ⟨hn, hn', hp', hmove⟩ := hp
  cases heff with
  | quiet _ _ hfail => exact (hfail rfl).elim
  | looked_up hr => simp at hr
  | made hr => simp [Request.makes] at hr
  | half_made hr => simp [Request.makes] at hr
  | removed hr => simp [Request.removes] at hr
  | xattr_changed hr => simp at hr
  | renamed_onto_itself hparent hself =>
    have hname := Db.next_eq_some_iff.2 ⟨hn, _, hself.found, rfl⟩
    exact absurd (hparent ▸ hname) (hmove _ hname).2
  | renamed hne hmoved hs =>
    rename_i e res db
    have hself := hmove _ (hmoved.next_eq hn)
    have hstranded := hmoved.stranded htree hn hn' hp' (htree.not_below hp' hself.1) hne hv hdir
      fun heq => hself.2 (heq ▸ hv)
    rcases hs.conn_eq_or with heq | ⟨j, -, heq⟩
    · exact heq ▸ hstranded
    · exact heq ▸ hstranded.purged (db.purged_collect j)

/-- **A directory that a rename has replaced is never deleted and never reached again**, however
often the database is mounted. -/
theorem replaced_directory_stays (h : s.Reachable fun _ _ _ _ _ => True) {env : Env} {p p' : ℕ}
    {n n' : Bytes} (hp : Request.Promised s.conn (.rename p n p' n'))
    (hok : (handle env (.rename p n p' n') s).2 = .replied .ok)
    (hv : s.conn.next (asU32 p') n' = some v) (hdir : s.conn.IsDir v)
    (hs' : (s.after (env, .rename p n p' n')).Follows s') :
    (s'.conn.metadata.find v).isSome ∧ ¬ s'.conn.FromRoot v := by
  obtain ⟨hw, htree⟩ := h.names Db.namesClosed_tree fun _ _ => Db.OnlyRoot.tree
  have hstranded := hw.stranded htree hp hok hv hdir
  have hlater := (hs'.names (Db.namesClosed_stranded v) (hw.after _) hstranded).2
  refine ⟨?_, hlater.not_fromRoot⟩
  rw [← Db.kindOf_isSome, show s'.conn.kindOf v = some .Directory from hlater.isDir]
  rfl

/-- Two directories are made, one is renamed over the other, and all is swept. -/
theorem replaced_directory_stays_sample :
    let s := (((sample.run twoDirectories).after (.sample, .rename 1 [98] 1 [97])).after
      (.sample, .destroy)).after (.sample, .init)
    (s.conn.metadata.find 2).isSome ∧ ¬ s.conn.FromRoot 2 := by
  have htwo := (reachable_sample fun _ _ _ _ _ => True).run promised_twoDirectories
    ⟨fun _ _ _ _ _ _ => trivial, fun _ _ _ _ _ _ => trivial, trivial⟩
  have htree := (htwo.names Db.namesClosed_tree fun _ _ => Db.OnlyRoot.tree).2
  have hpromised : Request.Promised (sample.run twoDirectories).conn (.rename 1 [98] 1 [97]) := by
    refine ⟨by decide, by decide, ⟨by decide, Or.inl rfl⟩, fun i hi => ?_⟩
    obtain rfl : i = 3 := (Option.some.inj hi).symm
    exact ⟨fun _ => htree.not_below_root (by decide), by decide⟩
  have hok : (handle .sample (.rename 1 [98] 1 [97]) (sample.run twoDirectories)).2 =
      .replied .ok := by decide
  exact replaced_directory_stays htwo hpromised hok (by decide) (by decide)
    ((Follows.now.handled (.sample, .destroy) trivial).handled (.sample, .init) trivial)

end SqliteFs

end TemporalFs
