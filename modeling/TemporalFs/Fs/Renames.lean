import Mathlib
import TemporalFs.Fs.Mounts
import TemporalFs.Tree.Directories

/-!
# What a rename moves

A rename that replies `ok` has moved the entry to its new place, with two exceptions. An entry that
is renamed to its own place is deleted. And where the file that is replaced is itself the inode in
which the new name lies, it is deleted with everything in it, unless it has another name or the
kernel knows it.

No promise of the kernel is assumed, neither of the names nor of the kinds of what they name: the
state is any that a writable mount can have. That the method succeeds is told from its reply, so
that the conditions speak of the entries before the call only.

## Main definitions

* `Db.RenameKeeps`: the file that was moved is at its new place.

## Main results

* `SqliteFs.rename_keeps_iff`: when that is so.
-/

namespace TemporalFs

variable {X : Externals}

namespace Db

variable {db db' : Db X} {p p' : ℕ} {n n' : Name}

/-- The inode that `(p, n)` named in `db` has the name `n'` in `p'` in `db'`, and its row and its
data. -/
def RenameKeeps (db : Db X) (p : ℕ) (n : Name) (p' : ℕ) (n' : Name) (db' : Db X) : Prop :=
  ∀ e, db.dentry.find (p, n) = some e →
    (∃ e', db'.dentry.find (p', n') = some e' ∧ e'.childId = e.childId) ∧
      (db'.metadata.find e.childId).isSome ∧
      ∀ k, db'.blocks e.childId k = db.blocks e.childId k

/-- The entry `n'` of `p'` is the only one that names `p'`. -/
def NamesOnlyItself (db : Db X) (p' : ℕ) (n' : Name) : Prop :=
  (∃ v, db.dentry.find (p', n') = some v ∧ v.childId = p') ∧
    ∀ k x, db.dentry.find k = some x → x.childId = p' → k = (p', n')

theorem blocks_congr (h : db'.data = db.data) (i k : ℕ) : db'.blocks i k = db.blocks i k := by
  rw [blocks, h, blocks]

/-- The entry at the new place. -/
theorem Moved.find_target {e : DentryRow} {res : Option ℕ} (h : db.Moved p n p' n' e res db') :
    ∃ e', db'.dentry.find (p', n') = some e' ∧ e'.childId = e.childId := by
  rw [h.dentry, movedEntry, if_pos rfl]
  split_ifs with hdots
  · exact ⟨_, rfl, (Prod.mk.inj hdots.2.2).1⟩
  · exact ⟨_, rfl, rfl⟩

/-- A name that lies in the inode that it names is not the name of a directory that can be
replaced. -/
theorem Moved.not_directory {e v : DentryRow} {res : Option ℕ} (h : db.Moved p n p' n' e res db')
    (hv : db.dentry.find (p', n') = some v) (hself : v.childId = p') :
    e.fileType ≠ .Directory := by
  intro hdir
  have hn' := h.no_dots v hv
  have hempty := Tree.leaf_of_empty (h.empty v hv (h.same_type v hv ▸ hdir)) n'
  rw [hself, next_of_not_dots hn', hv] at hempty
  simp at hempty

/-- The file that was replaced, and in which the new name lies, has lost its last entry. -/
theorem Moved.unnamed_iff {e v : DentryRow} {res : Option ℕ} (h : db.Moved p n p' n' e res db')
    (hne : (p, n) ≠ (p', n')) (hv : db.dentry.find (p', n') = some v) (hself : v.childId = p') :
    db'.Unnamed p' ↔ db.NamesOnlyItself p' n' := by
  have hfind : ∀ k, db'.dentry.find k = db.movedEntry p n p' n' e k := fun k => by
    rw [h.dentry, if_neg fun hc => h.not_directory hv hself hc.2.1]
  constructor
  · intro hun
    refine ⟨⟨v, hv, hself⟩, fun k x hx hxp => ?_⟩
    by_contra hk
    by_cases hks : k = (p, n)
    · rw [hks, h.source] at hx
      obtain ⟨e', he', hchild⟩ := h.find_target
      rw [Option.some.inj hx] at hchild
      exact hun _ e' he' (hchild.trans hxp)
    · refine hun k x ?_ hxp
      rw [hfind, movedEntry, if_neg hk, if_neg hks, hx]
  · rintro ⟨-, honly⟩ k x hx hxp
    rw [hfind, movedEntry] at hx
    split_ifs at hx with h₁ h₂
    · obtain rfl := Option.some.inj hx
      exact hne (honly _ e h.source hxp)
    · exact h₁ (honly k x hx hxp)

end Db

namespace SqliteFs

variable {env : Env} {s s' : SqliteFs X} {p p' : ℕ} {n n' : Name} {db : Db X}

/-- A rename to another place keeps the file unless the inode in which the new name lies is
deleted. -/
theorem renameKeeps_of_moved {e : DentryRow} {res : Option ℕ} (hne : (p, n) ≠ (p', n'))
    (h : s.conn.Moved p n p' n' e res db) (hs : s.Finishes env db res s' (.replied .ok)) :
    s.conn.RenameKeeps p n p' n' s'.conn ↔
      ¬ (s.conn.NamesOnlyItself p' n' ∧ p' ∉ s.lookupCount) := by
  obtain ⟨e', he', hchild⟩ := h.find_target
  obtain ⟨hp', -⟩ := Db.key_of_entry he'
  have hrow := (db.dentry_fk _ e' he').2
  rw [hchild] at hrow
  have hdata : ∀ k, db.blocks e.childId k = s.conn.blocks e.childId k := fun k =>
    Db.blocks_congr h.rest.data _ k
  have hkeeps : s.conn.RenameKeeps p n p' n' db := by
    intro e₁ he₁
    obtain rfl := Option.some.inj (h.source.symm.trans he₁)
    exact ⟨⟨e', he', hchild⟩, hrow, hdata⟩
  cases htarget : s.conn.dentry.find (p', n') with
  | none =>
    obtain rfl : res = none := by rw [h.res_eq, htarget]; rfl
    rw [hs.1, conn_withConn]
    refine iff_of_true hkeeps ?_
    rintro ⟨⟨⟨v, hv, -⟩, -⟩, -⟩
    rw [htarget] at hv
    simp at hv
  | some v =>
    obtain rfl : res = some v.childId := by rw [h.res_eq, htarget]; rfl
    obtain ⟨-, rfl⟩ := hs.resolve_right fun hfail => by simp at hfail
    rw [conn_withConn]
    by_cases hcounted : v.childId ∈ s.lookupCount
    · rw [if_pos hcounted]
      refine iff_of_true hkeeps ?_
      rintro ⟨⟨⟨v', hv', hself⟩, -⟩, hnot⟩
      obtain rfl := Option.some.inj (htarget.symm.trans hv')
      exact hnot (hself ▸ hcounted)
    rw [if_neg hcounted]
    by_cases hun : db.Unnamed v.childId
    · by_cases hself : v.childId = p'
      · refine iff_of_false (fun hkept => ?_) fun hnot => hnot ?_
        · obtain ⟨⟨x, hx, -⟩, -⟩ := hkept e h.source
          rw [Db.dentry_find_collect] at hx
          exact hx.2 (hself ▸ hun) ((Db.key_of_entry hx.1).1.trans hself.symm)
        · exact ⟨(h.unnamed_iff hne htarget hself).1 (hself ▸ hun), hself ▸ hcounted⟩
      · have hmoved : e.childId ≠ v.childId := fun heq => hun _ e' he' (hchild.trans heq)
        refine iff_of_true (fun e₁ he₁ => ?_) ?_
        · obtain rfl := Option.some.inj (h.source.symm.trans he₁)
          refine ⟨⟨e', ?_, hchild⟩, ?_, fun k => ?_⟩
          · rw [Db.dentry_find_collect]
            exact ⟨he', fun _ heq => hself (heq.symm.trans hp')⟩
          · rwa [db.metadata_find_collect _ _ hmoved]
          · rw [db.blocks_collect _ _ hmoved, hdata]
        · rintro ⟨⟨⟨v', hv', hself'⟩, -⟩, -⟩
          obtain rfl := Option.some.inj (htarget.symm.trans hv')
          exact hself hself'
    · rw [db.collect_of_not_unnamed _ hun]
      refine iff_of_true hkeeps ?_
      rintro ⟨honly, -⟩
      obtain ⟨⟨v', hv', hself⟩, -⟩ := id honly
      obtain rfl := Option.some.inj (htarget.symm.trans hv')
      rw [hself] at hun
      exact hun ((h.unnamed_iff hne htarget hself).2 honly)

/-- A rename to the same place deletes the entry, unless it is one of the directory's own. -/
theorem renameKeeps_of_movedOntoItself {e : DentryRow}
    (h : s.conn.MovedOntoItself p n e db)
      (hs : s.Finishes env db (some e.childId) s' (.replied .ok)) :
    s.conn.RenameKeeps p n p n s'.conn ↔ IsDots n := by
  obtain ⟨-, rfl⟩ := hs.resolve_right fun hfail => by simp at hfail
  rw [conn_withConn]
  constructor
  · intro hkept
    by_contra hn
    obtain ⟨⟨x, hx, -⟩, -⟩ := hkept e h.found
    have hx' : db.dentry.find (p, n) = some x := by
      split_ifs at hx
      · exact hx
      · exact (Db.dentry_find_collect _ _ _ _ |>.1 hx).1
    rw [h.dentry, if_pos ⟨rfl, hn⟩] at hx'
    simp at hx'
  · intro hn
    have hfound : db.dentry.find (p, n) = some e := by
      rw [h.dentry, if_neg fun hc => hc.2 hn, h.found]
    have hun : ¬ db.Unnamed e.childId := fun hun => hun _ e hfound rfl
    rw [db.collect_of_not_unnamed _ hun, ite_self]
    intro e₁ he₁
    obtain rfl := Option.some.inj (h.found.symm.trans he₁)
    exact ⟨⟨e, hfound, rfl⟩, (db.dentry_fk _ e hfound).2, fun k => Db.blocks_congr h.rest.data _ k⟩

/-- A mount with a file in the root. -/
def oneFile : SqliteFs .sample := sample.run [(.sample, .create 1 [97] 0)]

/-- **A rename keeps the file that it moves** if and only if the two places are the same entry `.`
or `..`, or they differ and the new name is not the only name of an inode unknown to the kernel in
which it lies itself. -/
theorem rename_keeps_iff (h : s.WritableMount) (env : Env) (parent newparent : ℕ)
    (name newname : Bytes)
    (hok : (handle env (.rename parent name newparent newname) s).2 = .replied .ok) :
    s.conn.RenameKeeps (asU32 parent) name (asU32 newparent) newname
        (handle env (.rename parent name newparent newname) s).1.conn ↔
      if (asU32 parent, name) = (asU32 newparent, newname) then IsDots name
      else ¬ (s.conn.NamesOnlyItself (asU32 newparent) newname ∧
        asU32 newparent ∉ s.lookupCount) := by
  have heff := h.handle_effect (env, .rename parent name newparent newname)
  rw [SqliteFs.after] at heff
  simp only at heff
  rw [hok] at heff
  generalize (handle env (.rename parent name newparent newname) s).1 = s' at heff
  cases heff with
  | quiet _ _ hfail => exact (hfail rfl).elim
  | looked_up hr =>
    rcases hr with hr | ⟨_, hr⟩ <;> exact absurd hr (by simp)
  | made hr => exact absurd hr (by simp [Request.makes])
  | half_made hr => exact absurd hr (by simp [Request.makes])
  | removed hr => exact absurd hr (by simp [Request.removes])
  | renamed hne hmoved hs =>
    rw [if_neg hne]
    exact renameKeeps_of_moved hne hmoved hs
  | renamed_onto_itself hparent hself hs =>
    rw [hparent, if_pos rfl]
    exact renameKeeps_of_movedOntoItself hself hs
  | xattr_changed hr =>
    rcases hr with ⟨_, _, -, hr⟩ | ⟨-, hr⟩ <;> exact absurd hr (by simp)

/-- A file gets another name in the root. -/
theorem rename_keeps_iff_sample :
    oneFile.conn.RenameKeeps 1 [97] 1 [98] (handle .sample (.rename 1 [97] 1 [98]) oneFile).1.conn ↔
      if ((1, [97]) : ℕ × Name) = (1, [98]) then IsDots [97]
      else ¬ (oneFile.conn.NamesOnlyItself 1 [98] ∧ 1 ∉ oneFile.lookupCount) :=
  rename_keeps_iff ⟨rfl, rfl, by decide⟩ .sample 1 1 [97] [98] (by decide)

/-- A file that is renamed to its own name is lost. -/
theorem renamed_to_itself_is_lost :
    (handle .sample (.rename 1 [97] 1 [97]) oneFile).2 = .replied .ok ∧
      ¬ oneFile.conn.RenameKeeps 1 [97] 1 [97]
        (handle .sample (.rename 1 [97] 1 [97]) oneFile).1.conn := by
  refine ⟨by decide, fun h => ?_⟩
  obtain ⟨⟨e', he', -⟩, -⟩ := h ⟨1, 2, .RegularFile, [97]⟩ (by decide)
  rw [show (handle .sample (.rename 1 [97] 1 [97]) oneFile).1.conn.dentry.find (1, [97]) = none by
    decide] at he'
  simp at he'

end SqliteFs

end TemporalFs
