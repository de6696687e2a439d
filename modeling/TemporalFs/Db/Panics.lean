import Mathlib
import TemporalFs.Db.Contents

/-!
# Which methods can panic

A method panics on a time that `chrono` cannot represent, and nowhere else. Only `updateInode` is
given times that do not come from the clock or from the database.

Readings of the clock lie within the range of `chrono`, and so do the times that rows hold, which
went through `datetime()` when they were stored. What is left are the times in the arguments of
`updateInode`, for which the exact condition is given. That a method returns at all is a part of
these results: for the methods that add a name, the condition for it is given too.

## Main definitions

* `NoPanic`: a program that does not panic.
* `TimeColumn.Dated`: a stored time is a date.

## Main results

* `Sqlite.noPanic_addInodeAndDentry` and so on: the methods that do not panic.
* `Sqlite.updateInode_panics`: when `updateInode` does.
* `Sqlite.addInodeAndDentry_returns`, `Sqlite.linkDentry_returns`: when a name is added.
-/

namespace TemporalFs

variable {X : Externals}

open Proc

/-- The program does not panic, whatever the database is. -/
abbrev NoPanic {α : Type} (x : Conn X α) : Prop := x.Preserves (· ≠ .panic) fun _ => True

theorem NoPanic.ensures {α : Type} {x : Conn X α} (h : NoPanic x) (db : Db X) :
    x.Ensures db (fun _ _ => True) (fun e _ => e ≠ .panic) :=
  (h db trivial).mono (fun _ _ _ => trivial) fun _ _ h => h.1

section Local

theorem noPanic_modify (f : Db X → Db X) : NoPanic (executeAll f) := preserves_modify fun _ h => h

theorem noPanic_execute (f : Db X → Option (Db X)) : NoPanic (execute f) :=
  preserves_step (by simp) fun _ _ h _ => h

theorem noPanic_require {c : Prop} [Decidable c] {k : ErrorKind} :
    NoPanic (Proc.require c (.err k) : Conn X Unit) :=
  preserves_require (by simp)

theorem noPanic_ofOption {α : Type} {o : Option α} {k : ErrorKind} :
    NoPanic (Proc.ofOption o (.err k) : Conn X α) :=
  preserves_ofOption (by simp)

theorem parseAttr_ne_panic {rows : List (Option DBFileAttr)} {e : Stop}
    (h : parseAttr rows = .error e) : e ≠ .panic := by
  unfold parseAttr at h
  split_ifs at h
  rw [← Except.error.inj h]
  simp

theorem noPanic_query {α : Type} {f : Db X → Except Stop α}
    (hf : ∀ db e, f db = .error e → e ≠ .panic) : NoPanic (query f) := fun db _ =>
  (ensures_query f db).2 ⟨fun _ _ => trivial, fun e h => ⟨hf db e h, trivial⟩⟩

theorem noPanic_getInodeLocal (i : ℕ) : NoPanic (getInodeLocal i : Conn X _) :=
  noPanic_query fun _ _ => parseAttr_ne_panic

theorem noPanic_update_times (p : ℕ) (now : Now) :
    NoPanic (do updateMtime p now; updateCtime p now : Conn X Unit) :=
  preserves_bind (noPanic_modify _) fun _ => noPanic_modify _

theorem noPanic_addDentry (entry : DEntry) : NoPanic (addDentry entry : Conn X Unit) :=
  noPanic_execute _

theorem noPanic_deleteDentryLocal (p : ℕ) (n : Name) :
    NoPanic (deleteDentryLocal p n : Conn X Unit) :=
  preserves_when (noPanic_modify _)

theorem noPanic_getDentrySingle (p : ℕ) (n : Name) :
    NoPanic (getDentrySingle p n : Conn X (Option DEntry)) :=
  preserves_bind preserves_get fun _ => preserves_pure _

/-- What `datetime()` keeps is a date. -/
theorem inChronoRange_of_datetime {t : ℤ} (h : (datetime t).isSome) : inChronoRange t := by
  unfold datetime at h
  split_ifs at h with hin
  · unfold inChronoRange
    omega
  · exact absurd h (by simp)

/-- The times of the clock are dates. -/
theorem Now.inChronoRange (now : Now) : inChronoRange now.1.sec := by
  have h := now.2
  unfold TemporalFs.inChronoRange
  omega

theorem noPanic_utcFrom {t : SystemTime} (h : inChronoRange t.sec) :
    NoPanic (utcFrom t : Conn X SystemTime) := by
  unfold utcFrom Proc.require
  rw [if_pos h]
  exact preserves_bind (preserves_pure _) fun _ => preserves_pure _

/-- The times of new attributes are dates. -/
structure DBFileAttr.Dated (attr : DBFileAttr) : Prop where
  atime : inChronoRange attr.atime.sec
  mtime : inChronoRange attr.mtime.sec
  ctime : inChronoRange attr.ctime.sec
  crtime : inChronoRange attr.crtime.sec

theorem noPanic_addInodeLocal {attr : DBFileAttr} (h : attr.Dated) :
    NoPanic (addInodeLocal attr : Conn X ℕ) :=
  preserves_bind (noPanic_utcFrom h.atime) fun _ =>
    preserves_bind (noPanic_utcFrom h.mtime) fun _ =>
      preserves_bind (noPanic_utcFrom h.ctime) fun _ =>
        preserves_bind (noPanic_utcFrom h.crtime) fun _ =>
          preserves_bind (noPanic_modify _) fun _ => preserves_bind preserves_get fun _ =>
            preserves_bind noPanic_require fun _ => preserves_pure _

end Local

/-- A stored time is a date, where it can be read. -/
def TimeColumn.Dated (c : TimeColumn) : Prop := ∀ t, c.text = some t → inChronoRange t

/-- A time that went through `datetime()` is a date. -/
theorem SystemTime.dated_throughDatetime (t : SystemTime) : t.throughDatetime.Dated := by
  intro sec h
  simp only [SystemTime.throughDatetime, datetime] at h
  split_ifs at h with hin
  rw [← Option.some.inj h]
  unfold inChronoRange
  omega

/-- What adding an inode with a name asks of the tables. -/
def Db.CanAdd (db : Db X) (p : ℕ) (n : Name) : Prop :=
  db.sqliteSequence + 1 < 2 ^ 32 ∧ db.dentry.find (p, n) = none ∧
    ((db.metadata.find p).isSome ∨ p = db.sqliteSequence + 1)

/-- What giving the inode `i` a second name asks of the tables. -/
def Db.CanLink (db : Db X) (i p : ℕ) (n : Name) : Prop :=
  (∃ attr, inodeAttr i db = .ok (some attr) ∧ attr.kind = .RegularFile) ∧
    db.dentry.find (p, n) = none ∧ (db.metadata.find p).isSome

namespace Sqlite

variable (self : Sqlite)

theorem noPanic_queryTemp {α : Type} {f : TempTables → Except Stop α}
    (hf : ∀ t e, f t = .error e → e ≠ .panic) : NoPanic (self.queryTemp f : Conn X α) := by
  refine preserves_bind noPanic_ofOption fun t => ?_
  cases ht : f t with
  | ok a => exact preserves_pure a
  | error e => exact preserves_stop (hf t e ht)

theorem noPanic_getInodeAtTime (i : ℕ) : NoPanic (self.getInodeAtTime i : Conn X _) :=
  self.noPanic_queryTemp fun _ _ => parseAttr_ne_panic

theorem noPanic_lookupAtTime (p : ℕ) (n : Name) :
    NoPanic (self.lookupAtTime p n : Conn X _) :=
  self.noPanic_queryTemp fun _ _ => parseAttr_ne_panic

theorem noPanic_getDentryAtTime (i : ℕ) : NoPanic (self.getDentryAtTime i : Conn X _) :=
  self.noPanic_queryTemp fun _ _ h => by simp at h

theorem noPanic_getXattrAtTime (i : ℕ) (key : Name) :
    NoPanic (self.getXattrAtTime i key : Conn X _) := by
  refine self.noPanic_queryTemp fun t e h => ?_
  split at h
  · simp at h
  · rw [← Except.error.inj h]
    simp

theorem noPanic_listXattrAtTime (i : ℕ) : NoPanic (self.listXattrAtTime i : Conn X _) :=
  self.noPanic_queryTemp fun _ _ h => by simp at h

theorem noPanic_getDataAtTime (now : Now) (i k length : ℕ) :
    NoPanic (self.getDataAtTime now i k length : Conn X Bytes) :=
  preserves_atomically <| preserves_bind (self.noPanic_queryTemp fun _ _ h => by simp at h)
    fun _ => preserves_bind (preserves_when (noPanic_modify _)) fun _ => preserves_pure _

theorem noPanic_getData (now : Now) (i k length : ℕ) :
    NoPanic (self.getData now i k length : Conn X Bytes) :=
  preserves_atomically <| preserves_bind preserves_get fun _ =>
    preserves_bind (preserves_when (noPanic_modify _)) fun _ => preserves_pure _

theorem noPanic_lookup (now : Now) (p : ℕ) (n : Name) :
    NoPanic (self.lookup now p n : Conn X _) :=
  preserves_bind preserves_get fun _ => preserves_bind (preserves_when (noPanic_modify _))
    fun _ => noPanic_query fun _ _ => parseAttr_ne_panic

theorem noPanic_getDentry (i : ℕ) : NoPanic (self.getDentry i : Conn X _) :=
  preserves_bind preserves_get fun _ => preserves_pure _

theorem noPanic_checkDirectoryIsEmpty (i : ℕ) :
    NoPanic (self.checkDirectoryIsEmpty i : Conn X Bool) :=
  preserves_bind preserves_get fun _ => preserves_pure _

theorem noPanic_getXattr (i : ℕ) (key : Name) : NoPanic (self.getXattr i key : Conn X Bytes) :=
  preserves_bind preserves_get fun _ => preserves_bind noPanic_ofOption fun _ => preserves_pure _

theorem noPanic_listXattr (i : ℕ) : NoPanic (self.listXattr i : Conn X _) :=
  preserves_bind preserves_get fun _ => preserves_pure _

theorem noPanic_setXattr (now : Now) (i : ℕ) (key : Name) (value : Bytes) :
    NoPanic (self.setXattr now i key value : Conn X Unit) :=
  preserves_atomically <| preserves_bind (noPanic_execute _) fun _ =>
    preserves_when (noPanic_modify _)

theorem noPanic_deleteXattr (now : Now) (i : ℕ) (key : Name) :
    NoPanic (self.deleteXattr now i key : Conn X Unit) :=
  preserves_atomically <| preserves_bind (noPanic_modify _) fun _ =>
    preserves_when (noPanic_modify _)

theorem noPanic_deleteInodeIfNoref (i : ℕ) :
    NoPanic (self.deleteInodeIfNoref i : Conn X Unit) :=
  preserves_atomically <| preserves_bind preserves_get fun _ => preserves_when (noPanic_modify _)

theorem noPanic_deleteAllNorefInode : NoPanic (self.deleteAllNorefInode : Conn X Unit) :=
  noPanic_modify _

theorem noPanic_writeData (now : Now) (i k : ℕ) (bytes : Bytes) (size : UInt32) :
    NoPanic (self.writeData now i k bytes size : Conn X Unit) :=
  preserves_atomically <| preserves_bind preserves_get fun _ =>
    preserves_bind noPanic_ofOption fun _ => preserves_bind noPanic_require fun _ =>
      preserves_bind (noPanic_execute _) fun _ =>
        preserves_bind (preserves_when (noPanic_modify _)) fun _ =>
          preserves_when (noPanic_update_times _ _)

theorem noPanic_addInodeAndDentry (now : Now) (p : ℕ) (n : Name) {attr : DBFileAttr}
    (h : attr.Dated) : NoPanic (self.addInodeAndDentry now p n attr : Conn X ℕ) :=
  preserves_atomically <| preserves_bind (noPanic_addInodeLocal h) fun _ =>
    preserves_bind (noPanic_addDentry _) fun _ =>
      preserves_bind (preserves_when (preserves_bind (noPanic_addDentry _) fun _ =>
        noPanic_addDentry _)) fun _ =>
        preserves_bind (preserves_when (noPanic_update_times _ _)) fun _ => preserves_pure _

theorem noPanic_linkDentry (now : Now) (i p : ℕ) (n : Name) :
    NoPanic (self.linkDentry now i p n : Conn X DBFileAttr) :=
  preserves_atomically <| preserves_bind (noPanic_getInodeLocal _) fun _ =>
    preserves_bind noPanic_ofOption fun _ => preserves_bind noPanic_require fun _ =>
      preserves_bind (noPanic_getDentrySingle _ _) fun _ => preserves_bind noPanic_require
        fun _ => preserves_bind (noPanic_addDentry _) fun _ =>
          preserves_bind (preserves_when (preserves_bind (noPanic_modify _) fun _ =>
            noPanic_update_times _ _)) fun _ => preserves_pure _

theorem noPanic_deleteDentry (now : Now) (p : ℕ) (n : Name) :
    NoPanic (self.deleteDentry now p n : Conn X ℕ) :=
  preserves_atomically <| preserves_bind preserves_get fun _ =>
    preserves_bind noPanic_ofOption fun _ =>
      preserves_bind (noPanic_deleteDentryLocal _ _) fun _ =>
        preserves_bind (noPanic_modify _) fun _ =>
          preserves_bind (preserves_when (preserves_bind (noPanic_modify _) fun _ =>
            noPanic_update_times _ _)) fun _ => preserves_pure _

theorem noPanic_overwriteDentry (t : FileType) (p : ℕ) (n : Name) :
    (e : Option DEntry) → NoPanic (overwriteDentry t p n e : Conn X (Option ℕ))
  | none => preserves_pure none
  | some _ => preserves_bind noPanic_require fun _ =>
      preserves_bind (preserves_when (preserves_bind (preserves_bind preserves_get fun _ =>
        preserves_pure _) fun _ => noPanic_require)) fun _ =>
        preserves_bind (noPanic_deleteDentryLocal p n) fun _ => preserves_pure _

theorem noPanic_moveDentry (now : Now) (p : ℕ) (n : Name) (p' : ℕ) (n' : Name) :
    NoPanic (self.moveDentry now p n p' n' : Conn X (Option ℕ)) := by
  refine preserves_atomically <| preserves_bind (noPanic_getDentrySingle _ _) fun _ =>
    preserves_bind noPanic_ofOption fun dentry =>
      preserves_bind (noPanic_getDentrySingle _ _) fun _ =>
        preserves_bind (noPanic_overwriteDentry _ _ _ _) fun res => ?_
  exact preserves_bind (noPanic_execute _) fun _ =>
    preserves_bind (preserves_when (noPanic_execute _)) fun _ =>
      preserves_bind (preserves_when (preserves_bind (noPanic_modify _) fun _ =>
        preserves_bind (noPanic_modify _) fun _ => preserves_bind (noPanic_modify _) fun _ =>
          preserves_when (noPanic_update_times _ _))) fun _ => preserves_pure _

/-- The times that `updateInode` converts. -/
def BadTimes (db : Db X) (attr : DBFileAttr) : Prop :=
  ∃ old, inodeAttr attr.ino db = .ok (some old) ∧ (¬ inChronoRange attr.atime.sec ∨
    (old.size = attr.size ∧ ¬ inChronoRange attr.mtime.sec) ∨ ¬ inChronoRange attr.crtime.sec)

theorem updateInode_panics (now : Now) (attr : DBFileAttr) (truncate : Bool) (db : Db X) :
    (self.updateInode now attr truncate).Ensures db (fun _ _ => ¬ BadTimes db attr)
      (fun e _ => e = .panic ↔ BadTimes db attr) := by
  unfold updateInode
  rw [ensures_atomically, ensures_bind]
  refine (getInodeLocal_spec db attr.ino).mono (fun found db₁ h₁ => ?_) fun e db₁ h₁ => ?_
  rotate_left
  · refine iff_of_false (parseAttr_ne_panic h₁.2) ?_
    rintro ⟨old, hold, -⟩
    simp [h₁.2] at hold
  obtain ⟨rfl, hfound⟩ := h₁
  rw [ensures_bind, ensures_ofOption]
  refine ⟨fun old hold => ?_, fun hnone => iff_of_false (by simp) ?_⟩
  rotate_left
  · rintro ⟨old, hold, -⟩
    rw [hfound, hnone] at hold
    simp at hold
  subst hold
  have hbad : BadTimes db₁ attr ↔ (¬ inChronoRange attr.atime.sec ∨
      (old.size = attr.size ∧ ¬ inChronoRange attr.mtime.sec) ∨
        ¬ inChronoRange attr.crtime.sec) := by
    refine ⟨fun ⟨old', hold', h⟩ => ?_, fun h => ⟨old, hfound, h⟩⟩
    rw [hfound] at hold'
    obtain rfl := Option.some.inj (Except.ok.inj hold')
    exact h
  rw [hbad]
  -- after the times are converted, nothing panics
  have hrest : ∀ (atime mtime crtime : SystemTime), ¬ BadTimes db₁ attr → (do
      executeAll fun db => db.updateMetadata attr.ino (setInode attr atime mtime now.1 crtime)
      Proc.when truncate (TemporalFs.releaseData attr.ino attr.size) : Conn X Unit).Ensures db₁
        (fun _ _ => ¬ BadTimes db₁ attr) (fun e _ => e = .panic ↔ BadTimes db₁ attr) := by
    intro atime mtime crtime h
    have hrelease : NoPanic (TemporalFs.releaseData attr.ino attr.size : Conn X Unit) :=
      preserves_ite (noPanic_modify _) (preserves_ite (noPanic_modify _)
        (preserves_bind preserves_get fun _ => preserves_bind (noPanic_execute _) fun _ =>
          noPanic_modify _))
    have hall : NoPanic (do
        executeAll fun db => db.updateMetadata attr.ino (setInode attr atime mtime now.1 crtime)
        Proc.when truncate (TemporalFs.releaseData attr.ino attr.size) : Conn X Unit) :=
      preserves_bind (noPanic_modify _) fun _ => preserves_when hrelease
    exact (hall.ensures db₁).mono (fun _ _ _ => h) fun _ _ he => iff_of_false he h
  rw [hbad] at hrest
  simp only [utcFrom, ensures_bind, ensures_require, ensures_pure, ensures_ite]
  simp only [ensures_bind] at hrest
  refine ⟨fun ha => ⟨fun hne => ⟨fun hc => hrest _ _ _ ?_, fun hc => ?_⟩,
    fun heq => ⟨fun hm => ⟨fun hc => hrest _ _ _ ?_, fun hc => ?_⟩, fun hm => ?_⟩⟩, fun ha => ?_⟩
  · tauto
  · tauto
  · tauto
  · tauto
  · tauto
  · tauto

/-- A name of an inode that is not a directory is added where it is free. -/
theorem addInodeAndDentry_returns (now : Now) (p : ℕ) (n : Name) {attr : DBFileAttr}
    (hkind : attr.kind ≠ .Directory) (hattr : attr.Dated) (db : Db X) :
    (self.addInodeAndDentry now p n attr).Ensures db (fun _ _ => db.CanAdd p n)
      (fun _ _ => ¬ db.CanAdd p n) := by
  by_cases hcan : db.CanAdd p n
  · obtain ⟨hlt, hfree, hp⟩ := hcan
    unfold addInodeAndDentry addInodeLocal utcFrom executeAll
    simp only [ensures_atomically, ensures_bind, ensures_require, ensures_pure, ensures_modify,
      ensures_get, Db.sqliteSequence_insertMetadata, hattr.atime, hattr.mtime, hattr.ctime,
      hattr.crtime, hlt, not_true_eq_false, false_implies, true_implies, and_true]
    refine (ensures_step _ _).2 ⟨fun db₁ _ => ?_, fun hnone => ?_⟩
    · simp only [hkind, ensures_when, false_implies, not_false_eq_true, true_implies, true_and,
        ensures_bind]
      exact ⟨fun _ => ⟨hlt, hfree, hp⟩, fun _ => ⟨hlt, hfree, hp⟩⟩
    · refine absurd ⟨?_, ?_, ?_⟩ (Db.insertDentry_eq_none hnone)
      · exact hfree
      · rw [Db.metadata_find_insertMetadata]
        split_ifs with hpc
        · rfl
        · exact hp.resolve_right hpc
      · rw [Db.metadata_find_insertMetadata, if_pos rfl]
        rfl
  · refine (self.addInodeAndDentry_spec now p n attr db).mono (fun child db' h => ?_)
      fun _ _ _ => hcan
    refine ⟨h.child_eq ▸ h.child_lt, h.free, ?_⟩
    rw [← h.child_eq]
    exact h.parent

/-- A second name is added where it is free. -/
theorem linkDentry_returns (now : Now) (i p : ℕ) (n : Name) (db : Db X) :
    (self.linkDentry now i p n).Ensures db (fun _ _ => db.CanLink i p n)
      (fun _ _ => ¬ db.CanLink i p n) := by
  by_cases hcan : db.CanLink i p n
  · obtain ⟨⟨attr, hattr, hkind⟩, hfree, hp⟩ := hcan
    obtain ⟨m, hm, -⟩ := inodeAttr_eq_ok_some hattr
    unfold linkDentry
    simp only [ensures_atomically, ensures_bind, ensures_ofOption, ensures_require, ensures_pure]
    refine (getInodeLocal_spec db i).mono (fun found db₁ h₁ => ?_) fun e db₁ h₁ => ?_
    rotate_left
    · rw [h₁.2] at hattr
      simp at hattr
    obtain ⟨rfl, hfound⟩ := h₁
    rw [hattr] at hfound
    obtain rfl := Except.ok.inj hfound
    refine ⟨fun attr' hattr' => ⟨fun _ => ?_, fun hc => ?_⟩, fun hnone => by simp at hnone⟩
    rotate_left
    · exact absurd (Option.some.inj hattr' ▸ hkind) hc
    refine (getDentrySingle_spec db₁ p n).mono (fun new_inode db₂ h₂ => ?_) fun _ _ h => h.elim
    obtain ⟨rfl, rfl⟩ := h₂
    have hcan : db₂.CanLink i p n := ⟨⟨attr, hattr, hkind⟩, hfree, hp⟩
    refine ⟨fun _ => (ensures_step _ _).2 ⟨fun db₃ _ => ?_, fun hnone => ?_⟩, fun hc => ?_⟩
    · simp only [ensures_when, ensures_bind]
      exact ⟨fun _ => hcan, fun _ => hcan⟩
    · exact absurd ⟨hfree, hp, by rw [hm]; rfl⟩ (Db.insertDentry_eq_none hnone)
    · rw [hfree] at hc
      exact absurd rfl hc
  · refine (self.linkDentry_spec now i p n db).mono (fun attr db' h => ?_) fun _ _ _ => hcan
    exact ⟨⟨attr, h.found, h.kind⟩, h.free, h.parent⟩

theorem lookup_returns (now : Now) (p : ℕ) (n : Name) (db : Db X) :
    (self.lookup now p n).Ensures db (fun found _ => lookupAttr p n db = .ok found)
      (fun e _ => lookupAttr p n db = .error e) := by
  unfold lookup
  have hquery : ∀ db' : Db X, (query fun _ => lookupAttr p n db : Conn X _).Ensures db'
      (fun found _ => lookupAttr p n db = .ok found) (fun e _ => lookupAttr p n db = .error e) :=
    fun db' => (ensures_query _ db').2 ⟨fun _ h => h, fun _ h => h⟩
  simp only [ensures_bind, ensures_get, ensures_when]
  exact ⟨fun _ => hquery _, fun _ => hquery db⟩

theorem queryTemp_returns {α : Type} (f : TempTables → Except Stop α) (db : Db X) :
    (self.queryTemp f).Ensures db (fun a _ => ∃ t, self.temp = some t ∧ f t = .ok a)
      (fun e _ => ∀ t, self.temp = some t → f t = .error e) := by
  unfold queryTemp
  rw [ensures_bind, ensures_ofOption]
  refine ⟨fun t ht => ?_, fun hnone t ht => ?_⟩
  · cases hf : f t with
    | ok a => exact ⟨t, ht, hf⟩
    | error e =>
      intro t' ht'
      obtain rfl := Option.some.inj (ht.symm.trans ht')
      exact hf
  · rw [hnone] at ht
    simp at ht

end Sqlite

end TemporalFs
