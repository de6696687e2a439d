import Mathlib
import TemporalFs.Db.Panics
import TemporalFs.Tree.Mounts

/-!
# When a rename fails

A rename has to fail if there is nothing to move, if a directory would replace something else or
something else a directory, and if the directory to be replaced is not empty. `moveDentry` fails
in these cases, and also where one kind of file would replace another.

## Main definitions

* `Db.MustNotMove`: a rename has to fail.
* `Db.MovesRight`: `moveDentry` fails then, and only then.
* `Db.TypedNames`: each name carries the kind of its inode.
* `SqliteFs.DotsStay`: the states of writable mounts where no rename takes `.` or `..` away.

## Main results

* `SqliteFs.DotsStay.typedNames`: the names are right in all these states.
* `Sqlite.moveDentry_returns_iff`: when `moveDentry` succeeds.
* `SqliteFs.moves_right_iff`: it does what it should unless two kinds of files are mixed.
-/

namespace TemporalFs

variable {X : Externals}

namespace Db

variable {db : Db X} {p p' : ℕ} {n n' : Name}

/-- A rename has to fail. -/
def MustNotMove (db : Db X) (p : ℕ) (n : Name) (p' : ℕ) (n' : Name) : Prop :=
  db.next p n = none ∨ ∃ i v, db.next p n = some i ∧ db.next p' n' = some v ∧
    (¬ (db.IsDir i ↔ db.IsDir v) ∨ db.IsDir v ∧ ∃ m, db.next v m ≠ none)

/-- One kind of file would replace another. -/
def MixesFiles (db : Db X) (p : ℕ) (n : Name) (p' : ℕ) (n' : Name) : Prop :=
  ∃ i v, db.next p n = some i ∧ db.next p' n' = some v ∧ ¬ db.IsDir i ∧ ¬ db.IsDir v ∧
    db.kindOf i ≠ db.kindOf v

/-- A rename fails if it has to, and else the new name leads to what was moved. -/
def MovesRight (db : Db X) (self : Sqlite) (now : Now) (p : ℕ) (n : Name) (p' : ℕ) (n' : Name) :
    Prop :=
  ((∃ kind, (self.moveDentry now p n p' n' db).2 = .error (.err kind)) ↔
      db.MustNotMove p n p' n') ∧
    (¬ db.MustNotMove p n p' n' → (∃ res, (self.moveDentry now p n p' n' db).2 = .ok res) ∧
      (self.moveDentry now p n p' n' db).1.next p' n' = db.next p n)

/-- Each name carries the kind of its inode. The entries `.` and `..` may not: the parent of a new
directory can be a regular file. -/
def TypedNames (db : Db X) : Prop :=
  ∀ k x, ¬ IsDots k.2 → db.dentry.find k = some x → db.kindOf x.childId = some x.fileType

namespace TypedNames

variable {db' : Db X} (h : db.TypedNames)

include h

/-- The type of a name is that of the inode. -/
theorem isDir_iff {k : ℕ × Name} {x : DentryRow} (hn : ¬ IsDots k.2)
    (hx : db.dentry.find k = some x) : db.IsDir x.childId ↔ x.fileType = .Directory := by
  rw [IsDir, h k x hn hx, Option.some.injEq]

/-- Entries that were there before keep the kinds of their inodes. -/
theorem of_find (hkind : ∀ i, db'.kindOf i = db.kindOf i)
    (hfind : ∀ k x, ¬ IsDots k.2 → db'.dentry.find k = some x → db.dentry.find k = some x) :
    db'.TypedNames :=
  fun k x hn hx => (hkind _).trans (h k x hn (hfind k x hn hx))

theorem same (hsame : db.SameNames db') : db'.TypedNames :=
  h.of_find hsame.kindOf fun k _ _ hx => (hsame.dentry k).symm.trans hx

theorem purged {L : ℕ → Prop} (hp : db.Purged L db') : db'.TypedNames := by
  intro k x hn hx
  obtain ⟨hx, -⟩ := (hp.dentry k x).1 hx
  rw [hp.kindOf _ fun hL => hp.unnamed _ hL k x hx rfl]
  exact h k x hn hx

theorem added {child : ℕ} {attr : DBFileAttr} (hadd : db.Added p n attr child db') :
    db'.TypedNames := by
  intro k x hn hx
  rw [kindOf_added hadd]
  rw [hadd.dentry, if_neg fun hk => hn (Or.inr (congrArg Prod.snd hk.2)),
    if_neg fun hk => hn (Or.inl (congrArg Prod.snd hk.2))] at hx
  split_ifs at hx with hk
  · obtain rfl := Option.some.inj hx
    exact if_pos rfl
  · rw [if_neg (entry_ne_of_kindOf (kindOf_fresh hadd) hx).2]
    exact h k x hn hx

theorem linked {i : ℕ} {attr : DBFileAttr} (hlink : db.Linked i p n attr db') :
    db'.TypedNames := by
  intro k x hn hx
  rw [hlink.rest.kindOf]
  rw [hlink.dentry] at hx
  split_ifs at hx with hk
  · obtain rfl := Option.some.inj hx
    exact kindOf_linked hlink
  · exact h k x hn hx

theorem unlinked {child : ℕ} (hun : db.Unlinked p n child db') : db'.TypedNames := by
  refine h.of_find hun.rest.kindOf fun k x _ hx => ?_
  rw [hun.dentry] at hx
  split_ifs at hx
  exact (Option.filter_eq_some_iff.1 hx).1

/-- The entry that is moved is no directory's own. -/
theorem moved {e : DentryRow} {res : Option ℕ} (hn : ¬ IsDots n)
    (hmove : db.Moved p n p' n' e res db') : db'.TypedNames := by
  intro k x hx hfind
  rw [hmove.rest.kindOf]
  rw [hmove.dentry, if_neg fun hk => hx (Or.inl (congrArg Prod.snd hk.2.2)), movedEntry] at hfind
  split_ifs at hfind
  · obtain rfl := Option.some.inj hfind
    exact h (p, n) e hn hmove.source
  · exact h k x hx hfind

theorem movedOntoItself {e : DentryRow} (hmove : db.MovedOntoItself p n e db') :
    db'.TypedNames := by
  refine h.of_find hmove.rest.kindOf fun k x _ hx => ?_
  rw [hmove.dentry] at hx
  split_ifs at hx
  exact hx

/-- What a rename asks of the tables, in terms of names. -/
theorem canMove_iff (hn : ¬ IsDots n) (hn' : ¬ IsDots n')
    (hp' : db.LinkedDir p') (hdiff : ∀ i, db.next p n = some i → db.next p' n' ≠ some i) :
    db.CanMove p n p' n' ↔ ¬ db.MustNotMove p n p' n' ∧ ¬ db.MixesFiles p n p' n' := by
  constructor
  · rintro ⟨-, -, e, he, hv⟩
    have hsource : db.next p n = some e.childId := next_eq_some_iff.2 ⟨hn, e, he, rfl⟩
    have htarget : ∀ v, db.next p' n' = some v → db.kindOf e.childId = db.kindOf v ∧
        (db.IsDir v → ∀ m, db.next v m = none) := by
      intro v hnext
      obtain ⟨-, x, hx, rfl⟩ := next_eq_some_iff.1 hnext
      obtain ⟨-, htype, hempty⟩ := hv x hx
      refine ⟨by rw [h _ e hn he, h _ x hn' hx, htype], fun hdir => ?_⟩
      exact Tree.directoryIsEmpty_iff.1 (hempty ((h.isDir_iff hn' hx).1 hdir))
    constructor
    · rintro (hnone | ⟨i, v, hi, hnext, hbad⟩)
      · simp [hsource] at hnone
      · obtain rfl := Option.some.inj (hsource.symm.trans hi)
        obtain ⟨hkind, hempty⟩ := htarget v hnext
        rcases hbad with hbad | ⟨hdir, m, hm⟩
        · exact hbad (by rw [IsDir, IsDir, hkind])
        · exact hm (hempty hdir m)
    · rintro ⟨i, v, hi, hnext, -, -, hkind⟩
      obtain rfl := Option.some.inj (hsource.symm.trans hi)
      exact hkind (htarget v hnext).1
  · rintro ⟨hmust, hmix⟩
    cases hsource : db.next p n with
    | none => exact absurd (Or.inl hsource) hmust
    | some i =>
      obtain ⟨-, e, he, rfl⟩ := next_eq_some_iff.1 hsource
      refine ⟨?_, ?_, e, he, fun x hx => ?_⟩
      · rintro heq
        obtain ⟨rfl, rfl⟩ := Prod.mk.inj heq
        exact hdiff _ hsource hsource
      · rw [← kindOf_isSome, hp'.1]
        rfl
      · have hnext : db.next p' n' = some x.childId := next_eq_some_iff.2 ⟨hn', x, hx, rfl⟩
        have hdirs : db.IsDir e.childId ↔ db.IsDir x.childId := by
          by_contra hbad
          exact hmust (Or.inr ⟨_, _, hsource, hnext, Or.inl hbad⟩)
        have hkind : db.kindOf e.childId = db.kindOf x.childId := by
          by_cases hdir : db.IsDir e.childId
          · exact hdir.trans (hdirs.1 hdir).symm
          · by_contra hne
            exact hmix ⟨_, _, hsource, hnext, hdir, fun hd => hdir (hdirs.2 hd), hne⟩
        rw [h _ e hn he, h _ x hn' hx] at hkind
        refine ⟨hn', Option.some.inj hkind, fun hdir => Tree.directoryIsEmpty_iff.2 fun m => ?_⟩
        by_contra hm
        exact hmust (Or.inr ⟨_, _, hsource, hnext, Or.inr ⟨(h.isDir_iff hn' hx).2 hdir, m, hm⟩⟩)

end TypedNames

end Db

/-- **When `moveDentry` succeeds**, where the two places differ or the first is empty. -/
theorem Sqlite.moveDentry_returns_iff (self : Sqlite) (now : Now) {p p' : ℕ} {n n' : Name}
    (db : Db X) (hne : (p, n) = (p', n') → db.dentry.find (p, n) = none) :
    (∃ res, (self.moveDentry now p n p' n' db).2 = .ok res) ↔ db.CanMove p n p' n' := by
  constructor
  · rintro ⟨res, hres⟩
    by_cases heq : (p, n) = (p', n')
    · obtain ⟨rfl, rfl⟩ := Prod.mk.inj heq
      have h := self.moveDentry_onto_itself_spec now p n db
      unfold Proc.Ensures at h
      split at h <;> rename_i hrun
      · obtain ⟨e, -, hself⟩ := h
        exact absurd hself.found (by simp [hne rfl])
      · simp [hrun] at hres
    · have h := self.moveDentry_spec now heq db
      unfold Proc.Ensures at h
      split at h <;> rename_i hrun
      · obtain ⟨e, hmoved⟩ := h
        exact hmoved.canMove heq
      · simp [hrun] at hres
  · intro h
    obtain ⟨res, db', heq, -⟩ := (self.moveDentry_returns now db h).exists_ok
    exact ⟨res, by rw [heq]⟩

/-- `moveDentry` reports an error or succeeds. -/
theorem Sqlite.moveDentry_fails_iff (self : Sqlite) (now : Now) (p p' : ℕ) (n n' : Name)
    (db : Db X) : (∃ kind, (self.moveDentry now p n p' n' db).2 = .error (.err kind)) ↔
      ¬ ∃ res, (self.moveDentry now p n p' n' db).2 = .ok res := by
  have h := (self.noPanic_moveDentry now p n p' n').ensures db
  unfold Proc.Ensures at h
  rcases heq : self.moveDentry now p n p' n' db with ⟨db', (kind | _) | res⟩
  · simp
  · rw [heq] at h
    exact absurd rfl h
  · simp

namespace SqliteFs

variable {s s' : SqliteFs X} {env : Env} {r : Request} {out : Outcome}

theorem Finishes.typedNames {db : Db X} {res : Option ℕ} (h : s.Finishes env db res s' out)
    (hdb : db.TypedNames) : s'.conn.TypedNames := by
  rcases h.conn_eq_or with h | ⟨j, -, h⟩
  · exact h ▸ hdb
  · exact h ▸ hdb.purged (db.purged_collect j)

/-- The request takes no entry away that a directory has of its own. -/
def LeavesDots (r : Request) : Prop := ∀ p n p' n', r = .rename p n p' n' → ¬ IsDots n

/-- **A request keeps the kinds of the names.** -/
theorem Effect.typedNames (h : Effect env s r s' out) (hr : LeavesDots r)
    (hs : s.conn.TypedNames) : s'.conn.TypedNames := by
  have haccess : ∀ {db : Db X}, s.conn.SameUpTo .atimeless db → db.TypedNames :=
    fun hdb => hs.same hdb.timeless.sameNames
  cases h with
  | quiet h => exact haccess h.conn
  | looked_up _ hdb _ hs' => exact hs'.conn_eq ▸ haccess hdb
  | made _ hdb hadd hcont hs' =>
    rw [hs'.conn_eq]
    rcases hcont with rfl | ⟨link, -, -, hlink⟩
    · exact (haccess hdb).added hadd
    · exact ((haccess hdb).added hadd).same hlink.sameNames
  | half_made _ hdb hadd hs' => exact hs' ▸ (haccess hdb).added hadd
  | linked h hs' => exact hs'.conn_eq ▸ hs.linked h
  | removed _ hdb h _ hs' => exact hs'.typedNames ((haccess hdb).unlinked h)
  | renamed _ h hs' => exact hs'.typedNames (hs.moved (hr _ _ _ _ rfl) h)
  | renamed_onto_itself _ h hs' => exact hs'.typedNames (hs.movedOntoItself h)
  | forgot h =>
    cases h with
    | ignored => exact hs
    | counted_down _ _ hconn =>
      rw [hconn]
      split_ifs
      · exact hs.purged (s.conn.purged_collect _)
      · exact hs
    | too_much _ _ _ hconn => exact hconn ▸ hs
  | swept _ hs' => exact hs' ▸ hs.purged s.conn.purged_deleteAll
  | destroyed _ hs' =>
    rw [hs', conn_withConn]
    exact List.foldlRecOn _ Db.collect hs fun db h i _ => h.purged (db.purged_collect i)
  | wrote h hs' => exact hs' ▸ hs.same (Db.sameNames_of_writeSteps h)
  | updated _ _ h hs' => exact hs' ▸ hs.same h.sameNames
  | xattr_changed _ h hs' => exact hs' ▸ hs.same h.sameNames

/-- `init` adds nothing but the root, and no names. -/
theorem typedNames_of_mount {db : Sqlite} {now : Now} {conn : Db X}
    (h : mount db now conn false false = some s) (hlt : conn.sqliteSequence < 2 ^ 32)
    (hconn : conn.TypedNames) : s.WritableMount ∧ s.conn.TypedNames := by
  have hinit : (db.init now).Ensures conn
      (fun _ conn' => conn'.sqliteSequence < 2 ^ 32 ∧ conn'.TypedNames) fun _ _ => True := by
    refine db.init_ensures (I := fun conn' => conn'.sqliteSequence < 2 ^ 32 ∧ conn'.TypedNames) now
      (fun db h => ?_) (fun n hdots db h => ?_) (fun _ _ h => h) ⟨hlt, hconn⟩
    · refine (addInodeLocal_spec db _).mono (fun child db' hadd => ?_) fun _ _ h => h
      obtain ⟨hchild, hlt, hd, -, -, hseq, hm⟩ := hadd
      refine ⟨hseq.trans_lt hlt, fun k x hn hx => ?_⟩
      rw [hd] at hx
      have hrow := h.2 k x hn hx
      have hbound := db.sequence_bound x.childId (by rw [← Db.kindOf_isSome, hrow]; rfl)
      rw [← hrow, Db.kindOf, Db.kindOf, hm, if_neg (by omega)]
    · refine (addDentry_spec db _).mono (fun _ db' hadd => ?_) fun _ _ _ => trivial
      obtain ⟨-, -, hm, -, -, hseq, hd⟩ := hadd
      refine ⟨hseq.trans_lt h.1, h.2.of_find (fun i => by rw [Db.kindOf, hm, Db.kindOf]) ?_⟩
      intro k x hn hx
      rwa [hd, if_neg (by rintro rfl; exact hn hdots)] at hx
  obtain ⟨conn', ⟨hlt', htyped⟩, rfl⟩ := opened_of_mount h hinit
  exact ⟨⟨rfl, rfl, hlt'⟩, htyped⟩

/-- The states of writable mounts of a database made by `init`, where no rename takes an entry `.`
or `..` away. -/
inductive DotsStay : SqliteFs X → Prop
  | mounted {s : SqliteFs X} {db : Sqlite} {now : Now} (clock : ℕ → ℕ)
      (h : mount db now (Db.empty X clock) false false = some s) : DotsStay s
  | handled {s : SqliteFs X} (h : DotsStay s) (r : Env × Request) (hr : LeavesDots r.2) :
      DotsStay (s.after r)
  | remounted {s s' : SqliteFs X} {db : Sqlite} {now : Now} (h : DotsStay s)
      (hs : mount db now s.conn false false = some s') : DotsStay s'

theorem DotsStay.typedNames (h : s.DotsStay) : s.WritableMount ∧ s.conn.TypedNames := by
  induction h with
  | mounted clock h =>
    exact typedNames_of_mount h (show 0 < 2 ^ 32 by decide) fun k x _ hx => by simp [Db.empty] at hx
  | handled h r hr ih => exact ⟨ih.1.after r, (ih.1.handle_effect r).typedNames hr ih.2⟩
  | remounted h hs ih => exact typedNames_of_mount hs ih.1.sequence_lt ih.2

/-- Where the kernel keeps its promises no rename takes such an entry away. -/
theorem Reachable.dotsStay {M : Db X → ℕ → Name → ℕ → Name → Prop} (h : s.Reachable M) :
    s.DotsStay := by
  induction h with
  | mounted clock h => exact .mounted clock h
  | handled _ r hp _ ih =>
    refine .handled ih r fun p n p' n' hr => ?_
    rw [hr] at hp
    exact hp.1
  | remounted _ hs ih => exact .remounted ih hs

/-- **A rename fails exactly when it must** if and only if it does not mix two kinds of files. This
is so in all states that requests and mounts reach from a new database, where no rename takes `.` or
`..` away, and for all names in linked directories that lead to different inodes. -/
theorem moves_right_iff {s : SqliteFs X} (h : s.DotsStay) (self : Sqlite)
    (now : Now) {p p' : ℕ} {n n' : Name} (hn : ¬ IsDots n) (hn' : ¬ IsDots n')
    (hp' : s.conn.LinkedDir p')
    (hdiff : ∀ i, s.conn.next p n = some i → s.conn.next p' n' ≠ some i) :
    s.conn.MovesRight self now p n p' n' ↔ ¬ s.conn.MixesFiles p n p' n' := by
  have htyped := h.typedNames.2
  generalize s.conn = db at *
  have hcan := htyped.canMove_iff hn hn' hp' hdiff
  have hne : (p, n) = (p', n') → db.dentry.find (p, n) = none := by
    intro heq
    obtain ⟨rfl, rfl⟩ := Prod.mk.inj heq
    by_contra hfound
    obtain ⟨e, he⟩ := Option.ne_none_iff_exists'.1 hfound
    have hsource := Db.next_eq_some_iff.2 ⟨hn, e, he, rfl⟩
    exact hdiff _ hsource hsource
  have hreturns := self.moveDentry_returns_iff now db hne
  unfold Db.MovesRight
  rw [self.moveDentry_fails_iff, hreturns, hcan]
  constructor
  · rintro ⟨hfails, -⟩ hmix
    refine (hfails.1 fun hok => hok.2 hmix).elim (fun hnone => ?_) ?_
    · obtain ⟨i, -, hi, -⟩ := hmix
      simp [hi] at hnone
    · rintro ⟨i, v, hi, hv, hbad⟩
      obtain ⟨i', v', hi', hv', hdir, hdir', -⟩ := hmix
      obtain rfl := Option.some.inj (hi.symm.trans hi')
      obtain rfl := Option.some.inj (hv.symm.trans hv')
      rcases hbad with hbad | ⟨hvdir, -⟩
      · exact hbad ⟨fun hd => absurd hd hdir, fun hd => absurd hd hdir'⟩
      · exact hdir' hvdir
  · intro hmix
    refine ⟨⟨fun hok => ?_, fun hmust hok => hok.1 hmust⟩, fun hmust => ⟨⟨hmust, hmix⟩, ?_⟩⟩
    · by_contra hmust
      exact hok ⟨hmust, hmix⟩
    · obtain ⟨res, hres⟩ := hreturns.2 (hcan.2 ⟨hmust, hmix⟩)
      have hspec := self.moveDentry_spec now (hcan.2 ⟨hmust, hmix⟩).1 db
      unfold Proc.Ensures at hspec
      split at hspec <;> rename_i hrun
      · obtain ⟨e, hmoved⟩ := hspec
        rw [hrun, Db.next_moved hmoved hn hn', hmoved.next_eq hn, NameTree.moved, setName_self]
      · simp [hrun] at hres

/-- A mount with a regular file and a symbolic link in the root. -/
def fileAndLink : SqliteFs .sample :=
  sample.run [(.sample, .create 1 [97] 0), (.sample, .symlink 1 [98] [99])]

theorem reachable_fileAndLink (M : Db .sample → ℕ → Name → ℕ → Name → Prop) :
    fileAndLink.Reachable M := by
  refine (reachable_sample M).run ⟨⟨by decide, by decide, Or.inl rfl⟩,
    ⟨by decide, by decide, Or.inl rfl⟩, trivial⟩ ⟨?_, ?_, trivial⟩
  · rintro p n p' n' ⟨⟩
  · rintro p n p' n' ⟨⟩

/-- The symbolic link gets a name that is free. -/
theorem moves_right_iff_sample : fileAndLink.conn.MovesRight .new epoch 1 [98] 1 [99] ↔
    ¬ fileAndLink.conn.MixesFiles 1 [98] 1 [99] := by
  refine moves_right_iff (reachable_fileAndLink fun _ _ _ _ _ => True).dotsStay .new epoch
    (by decide) (by decide)
    ⟨by decide, Or.inl rfl⟩ fun i _ => ?_
  rw [show fileAndLink.conn.next 1 [99] = none by decide]
  simp

/-- A symbolic link does not replace a regular file. -/
theorem link_over_file_is_refused : ¬ fileAndLink.conn.MovesRight .new epoch 1 [98] 1 [97] := by
  rintro ⟨hfails, -⟩
  rcases hfails.1 ⟨.FsIsNotDir, by decide⟩ with hnone | ⟨i, v, hi, hv, hbad⟩
  · exact absurd hnone (by decide)
  · obtain rfl : i = 3 := (Option.some.inj hi).symm
    obtain rfl : v = 2 := (Option.some.inj hv).symm
    rcases hbad with hbad | ⟨hdir, -⟩
    · exact hbad (by decide)
    · exact absurd hdir (by decide)

end SqliteFs

end TemporalFs
