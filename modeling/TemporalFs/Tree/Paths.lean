import Mathlib
import TemporalFs.Tree.Mounts

/-!
# Paths after a request

A path is walked from the root, name by name. A request that adds or removes a name changes where
that one path leads; a rename moves a path with all that lies below it; and no other path changes.

That a request leaves all other paths alone is the part that needs the tree: a path could run
through the changed name more than once, or through a directory that was moved below itself, if
names formed anything else. The effects of requests are read as changes of a map from names to
inodes, and the paths after such a change are those of `Lib.NameTree`.

## Main definitions

* `Db.resolve`: where a path leads.
* `Db.NameSet`, `Db.NameMoved`: the path of a name was set or moved.
* `Request.ChangesPaths`: what a request does to the paths.

## Main results

* `SqliteFs.paths_changed`: every request that the kernel may send does just that.
-/

namespace TemporalFs

variable {X : Externals}

namespace Db

/-- Where a path leads from the root, name by name; `none` where a name on it is missing. -/
def resolve (db : Db X) (Q : List Name) : Option ℕ := walk db.next 1 Q

/-- All paths lead where they led, and those that led nowhere still do. -/
def SamePaths (db db' : Db X) : Prop := ∀ Q, db'.resolve Q = db.resolve Q

/-- The path of the name `n` in `p` leads to `o` now, and all others lead where they led. -/
def NameSet (db : Db X) (p : ℕ) (n : Name) (o : Option ℕ) (db' : Db X) : Prop :=
  ∃ P, db.resolve P = some p ∧
    ∀ Q, db'.resolve Q = if Q = P ++ [n] then o else db.resolve Q

/-- The path of the name `n` in `p` leads to a new inode. -/
def InodeMade (db : Db X) (p : ℕ) (n : Name) (kind : FileType) (out : Outcome) (db' : Db X) :
    Prop :=
  ∃ i, out.named = some i ∧ db.kindOf i = none ∧ db'.kindOf i = some kind ∧
    db.NameSet p n (some i) db'

/-- The paths below `P` are the paths below `P'` now, and all others lead where they led. -/
structure PathMoved (db : Db X) (P P' : List Name) (db' : Db X) : Prop where
  moved : ∀ R, db'.resolve (P' ++ R) = db.resolve (P ++ R)
  gone : ∀ R, db'.resolve (P ++ R) = none
  others : ∀ Q, ¬ P <+: Q → ¬ P' <+: Q → db'.resolve Q = db.resolve Q

/-- The path of the name `n` in `p` became that of `n'` in `p'`. -/
def NameMoved (db : Db X) (p : ℕ) (n : Name) (p' : ℕ) (n' : Name) (db' : Db X) : Prop :=
  ∃ P P', db.resolve P = some p ∧ db.resolve P' = some p' ∧
    db.PathMoved (P ++ [n]) (P' ++ [n']) db'

end Db

/-- The requests that add, remove or move a name, whether or not they succeed. -/
def Request.changesNames : Request → Bool
  | .mkdir .. | .symlink .. | .create .. | .link .. | .unlink .. | .rmdir .. | .rename .. => true
  | _ => false

/-- What a request that did not fail does to the paths. -/
def Request.ChangesPaths (db : Db X) (out : Outcome) (db' : Db X) : Request → Prop
  | .mkdir parent name _ => db.InodeMade (asU32 parent) name .Directory out db'
  | .symlink parent name _ => db.InodeMade (asU32 parent) name .Symlink out db'
  | .create parent name _ =>
    if db.next (asU32 parent) name = none then
      db.InodeMade (asU32 parent) name .RegularFile out db'
    else db.SamePaths db'
  | .link ino parent name => db.NameSet (asU32 parent) name (some (asU32 ino)) db'
  | .unlink parent name => db.NameSet (asU32 parent) name none db'
  | .rmdir parent name => db.NameSet (asU32 parent) name none db'
  | .rename parent name newparent newname =>
    db.NameMoved (asU32 parent) name (asU32 newparent) newname db'
  | _ => db.SamePaths db'

namespace Db

variable {db db' : Db X} {p c : ℕ} {n : Name}

theorem samePaths_of_next (h : db'.next = db.next) : db.SamePaths db' := fun _ => by
  rw [resolve, h, resolve]

namespace Tree

variable (h : db.Tree)

include h

theorem nameSet_add (hp : db.LinkedDir p) (hfree : db.next p n = none) (hcp : c ≠ p)
    (hleaf : ∀ m, db.next c m = none) (hnext : db'.next = setName db.next p n (some c)) :
    db.NameSet p n (some c) db' := by
  obtain ⟨P, hP⟩ := h.exists_path hp
  refine ⟨P, hP, fun Q => ?_⟩
  rw [resolve, hnext]
  exact h.names.walk_add hp.1 hP hfree hcp hleaf Q

theorem nameSet_remove (hname : db.next p n = some c) (hleaf : ∀ m, db.next c m = none)
    (hnext : db'.next = setName db.next p n none) : db.NameSet p n none db' := by
  obtain ⟨P, hP⟩ := h.names.reached hname
  refine ⟨P, hP, fun Q => ?_⟩
  rw [resolve, hnext]
  exact h.names.walk_remove (h.names.holder hname) hP hname hleaf Q

theorem next_foldl_collect (l : List ℕ) : (l.foldl Db.collect db).next = db.next := by
  induction l generalizing db with
  | nil => rfl
  | cons i l ih =>
    exact (ih (h.purged (db.purged_collect i))).trans (h.next_purged (db.purged_collect i))

end Tree

section Moved

variable {p' : ℕ} {n' : Name} {e : DentryRow} {res : Option ℕ}

/-- A move of a name moves the path and all that lies below it. -/
theorem Moved.nameMoved (hmove : db.Moved p n p' n' e res db') (h : db.Tree) (hn : ¬ IsDots n)
    (hn' : ¬ IsDots n') (hp' : db.LinkedDir p') (hbelow : ¬ db.Below e.childId p')
    (hne : (p, n) ≠ (p', n')) : db.NameMoved p n p' n' db' := by
  obtain ⟨P, hP⟩ := h.names.reached (hmove.next_eq hn)
  obtain ⟨P', hP'⟩ := h.exists_path hp'
  have hcan := hmove.canMove_names h hn hp' hbelow hne hP hP'
  have hwalk : ∀ Q, db'.resolve Q =
      if P' ++ [n'] <+: Q then db.resolve (P ++ [n] ++ Q.drop (P'.length + 1))
      else if P ++ [n] <+: Q then none else db.resolve Q := by
    intro Q
    rw [resolve, next_moved hmove hn hn']
    exact hcan.walk_moved Q
  refine ⟨P, P', hP, hP', fun R => ?_, fun R => ?_, fun Q hQ hQ' => ?_⟩
  · rw [hwalk, if_pos (List.prefix_append _ _), List.drop_left' (by simp)]
  · rw [hwalk, if_neg fun hpre => ?_, if_pos (List.prefix_append _ _)]
    exact hcan.target_not_prefix R hpre
  · rw [hwalk, if_neg hQ', if_neg hQ]

end Moved

end Db

namespace SqliteFs

variable {env : Env} {s s' : SqliteFs X} {r : Request} {out : Outcome}

/-- The deletion at the end of a request changes no path. -/
theorem Finishes.next_eq {db : Db X} {res : Option ℕ} (h : s.Finishes env db res s' out)
    (htree : db.Tree) : s'.conn.next = db.next := by
  rcases h.conn_eq_or with h | ⟨j, -, h⟩
  · rw [h]
  · rw [h]
    exact htree.next_purged (db.purged_collect j)

theorem samePaths_changed (hr : r.changesNames = false) {db db' : Db X} (h : db'.next = db.next) :
    r.ChangesPaths db out db' := by
  cases r <;> first
    | exact Db.samePaths_of_next h
    | exact absurd hr (by simp [Request.changesNames])

/-- The path of a new inode. -/
theorem inodeMade_changed {kind : FileType} {parent : ℕ} {name : Bytes} {db db' : Db X}
    (hr : r.makes = some (kind, parent, name)) (hfree : db.next (asU32 parent) name = none)
    (h : db.InodeMade (asU32 parent) name kind out db') : r.ChangesPaths db out db' := by
  cases r <;> simp only [Request.makes, reduceCtorEq, Option.some.injEq, Prod.mk.injEq] at hr <;>
    obtain ⟨rfl, rfl, rfl⟩ := hr
  · exact h
  · exact h
  · rw [Request.ChangesPaths, if_pos hfree]
    exact h

/-- **What an effect does to the paths.** -/
theorem Effect.changesPaths (h : Effect env s r s' out) (htree : s.conn.Tree)
    (hp : r.Promised s.conn) (hok : r.changesNames = true → ¬ out.Failed) :
    r.ChangesPaths s.conn out s'.conn := by
  cases h with
  | quiet h _ hfail =>
    cases hr : r.changesNames with
    | false => exact samePaths_changed hr h.conn.timeless.sameNames.next
    | true =>
      refine absurd (hfail ?_) (hok hr)
      cases r <;> first | rfl | exact absurd hr (by simp [Request.changesNames])
  | looked_up hr hdb he hs' hnamed =>
    have hsame := hs'.conn_eq ▸ hdb.timeless.sameNames.next
    rcases hr with rfl | ⟨mode, rfl⟩
    · exact samePaths_changed rfl hsame
    · rw [Request.ChangesPaths, if_neg fun hnone => ?_]
      · exact Db.samePaths_of_next hsame
      · rw [Db.next_of_not_dots hp.1, he] at hnone
        exact absurd hnone (by simp)
  | made hr hdb hadd hcont hs' hnamed =>
    rename_i kind parent name perm gid child db₁ db₂ db₃
    obtain ⟨hn, hparent⟩ := promised_of_makes hr hp
    have hsame := hdb.timeless.sameNames
    have hsame₃ : db₂.SameNames s'.conn := by
      rw [hs'.conn_eq]
      rcases hcont with rfl | ⟨link, -, -, hlink⟩
      · exact .refl _
      · exact hlink.sameNames
    have hfree : s.conn.next (asU32 parent) name = none :=
      hsame.next ▸ Db.next_eq_none_of_free hadd.free
    have hfresh : s.conn.kindOf child = none :=
      (hsame.kindOf child).symm.trans (Db.kindOf_fresh hadd)
    refine inodeMade_changed hr hfree ⟨child, hnamed, hfresh, ?_, ?_⟩
    · rw [hsame₃.kindOf, Db.kindOf_added hadd, if_pos rfl]
      rfl
    · refine htree.nameSet_add hparent hfree ?_ (fun m => ?_) ?_
      · rintro rfl
        exact absurd hparent.1 (by simp [Db.IsDir, hfresh])
      · rw [← hsame.next]
        exact Db.next_fresh hadd m
      · rw [hsame₃.next, Db.next_added hadd hn, hsame.next]
  | half_made hr hdb hadd hs' hfail =>
    refine absurd hfail (hok ?_)
    cases r <;> first | rfl | exact absurd hr (by simp [Request.makes])
  | linked h hs' =>
    rename_i ino parent name attr db _
    rw [Request.ChangesPaths, hs'.conn_eq]
    have hfile : ¬ s.conn.IsDir (asU32 ino) := by
      rw [Db.IsDir, Db.kindOf_linked h]
      simp
    refine htree.nameSet_add hp.2 (Db.next_eq_none_of_free h.free) ?_
      (htree.leaf_of_not_isDir hfile) (Db.next_linked h hp.1)
    intro heq
    exact hfile (heq.symm ▸ hp.2.1)
  | removed hr hdb h hempty hs' =>
    rename_i parent name child db₁ db₂
    have hsame := hdb.timeless.sameNames
    have htree₁ := hsame.tree htree
    obtain ⟨hn, hleaf⟩ : ¬ IsDots name ∧ ∀ m, db₁.next child m = none := by
      cases r <;> simp only [Request.removes, reduceCtorEq, Option.some.injEq, Prod.mk.injEq] at hr
      · obtain ⟨rfl, rfl⟩ := hr
        refine ⟨hp.1, htree₁.leaf_of_not_isDir ?_⟩
        rw [hsame.isDir]
        exact hp.2 child (hsame.next ▸ h.next_eq hp.1)
      · obtain ⟨rfl, rfl⟩ := hr
        exact ⟨hp, fun m => hsame.next ▸ Db.Tree.leaf_of_empty (hempty rfl) m⟩
    have hnext : s'.conn.next = setName s.conn.next (asU32 parent) name none := by
      rw [hs'.next_eq (htree₁.unlinked h hn hleaf), Db.next_unlinked h hn hleaf, hsame.next]
    have hset := htree.nameSet_remove (hsame.next ▸ h.next_eq hn) (hsame.next ▸ hleaf) hnext
    cases r <;> simp only [Request.removes, reduceCtorEq, Option.some.injEq,
      Prod.mk.injEq] at hr <;>
      obtain ⟨rfl, rfl⟩ := hr
    · exact hset
    · exact hset
  | renamed hne h hs' =>
    obtain ⟨hn, hn', hp', hmove⟩ := hp
    have hbelow := htree.not_below hp' (hmove _ (h.next_eq hn)).1
    have hnext := hs'.next_eq (htree.moved h hn hn' hp' hbelow hne)
    obtain ⟨P, P', hP, hP', hmoved⟩ := h.nameMoved htree hn hn' hp' hbelow hne
    have hpaths := Db.samePaths_of_next hnext
    exact ⟨P, P', hP, hP', fun R => (hpaths _).trans (hmoved.moved R),
      fun R => (hpaths _).trans (hmoved.gone R),
      fun Q hQ hQ' => (hpaths Q).trans (hmoved.others Q hQ hQ')⟩
  | renamed_onto_itself hparent h hs' =>
    obtain ⟨hn, -, -, hmove⟩ := hp
    have hname := Db.next_eq_some_iff.2 ⟨hn, _, h.found, rfl⟩
    exact absurd (hparent ▸ hname) (hmove _ hname).2
  | forgot h =>
    refine samePaths_changed rfl ?_
    cases h with
    | ignored => rfl
    | counted_down _ _ hconn =>
      rw [hconn]
      split_ifs
      · exact htree.next_purged (s.conn.purged_collect _)
      · rfl
    | too_much _ _ _ hconn => rw [hconn]
  | swept _ hs' => exact samePaths_changed rfl (hs' ▸ htree.next_purged s.conn.purged_deleteAll)
  | destroyed _ hs' => exact samePaths_changed rfl (hs' ▸ htree.next_foldl_collect _)
  | wrote h hs' => exact samePaths_changed rfl (hs' ▸ (Db.sameNames_of_writeSteps h).next)
  | updated _ _ h hs' => exact samePaths_changed rfl (hs' ▸ h.sameNames.next)
  | xattr_changed hr h hs' =>
    rcases hr with ⟨flags, bytes, -, rfl⟩ | ⟨-, rfl⟩
    · exact samePaths_changed rfl (hs' ▸ h.sameNames.next)
    · exact samePaths_changed rfl (hs' ▸ h.sameNames.next)

/-- **A request changes just the paths that it names**, in every reachable state and whatever calls
fail. With a directory all paths below it move, and a request that asks for no change of names
changes no path. -/
theorem paths_changed (h : s.Reachable fun _ _ _ _ _ => True) (env : Env) (r : Request)
    (hp : r.Promised s.conn) (hok : r.changesNames = true → ¬ (handle env r s).2.Failed) :
    r.ChangesPaths s.conn (handle env r s).2 (handle env r s).1.conn := by
  obtain ⟨hw, htree⟩ := h.names Db.namesClosed_tree fun _ _ => Db.OnlyRoot.tree
  exact (hw.handle_effect (env, r)).changesPaths htree hp hok

/-- A directory that holds a file gets another name. -/
theorem paths_changed_sample :
    let s := (sample.after (.sample, .mkdir 1 [97] 0)).after (.sample, .create 2 [98] 0)
    Request.ChangesPaths s.conn (handle .sample (.rename 1 [97] 1 [99]) s).2
      (handle .sample (.rename 1 [97] 1 [99]) s).1.conn (.rename 1 [97] 1 [99]) := by
  intro s
  have hmade : (sample.after (.sample, .mkdir 1 [97] 0)).Reachable fun _ _ _ _ _ => True :=
    (reachable_sample _).handled (.sample, .mkdir 1 [97] 0) ⟨by decide, by decide, Or.inl rfl⟩
      (by rintro _ _ _ _ ⟨⟩)
  have hs : s.Reachable fun _ _ _ _ _ => True :=
    hmade.handled (.sample, .create 2 [98] 0)
      ⟨by decide, by decide +kernel, Or.inr ⟨1, [97], by decide +kernel⟩⟩ (by rintro _ _ _ _ ⟨⟩)
  have htree := (hs.names Db.namesClosed_tree fun _ _ => Db.OnlyRoot.tree).2
  refine paths_changed hs .sample (.rename 1 [97] 1 [99])
    ⟨by decide, by decide, htree.root_linked, fun i hi => ⟨fun _ => ?_, ?_⟩⟩ fun _ h => h
  · exact htree.not_below_root (htree.names.ne_root hi)
  · rw [show s.conn.next (asU32 1) [99] = none by decide +kernel]
    simp

end SqliteFs

end TemporalFs
