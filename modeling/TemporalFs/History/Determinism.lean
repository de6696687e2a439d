import Mathlib
import TemporalFs.Lib.Determinism
import TemporalFs.Db.Methods
import TemporalFs.Db.Effects
import TemporalFs.History.Views

/-!
# What the audit logs determine

The logs of `metadata` and `xattr` carry the rows, and the log of `data` differences that can be
applied to the block before: equal logs give equal tables. The log of `dentry` carries the new row
of an `UPDATE` only. What it replaced can be told if it kept its name, as the entry `".."` does, or
if the inode has one entry of that type. A hard link renamed within a directory is logged like the
renaming of the other name of the file.

A directory has entries of its own: `"."`, and `".."` in each directory below it. They are told from
its name where no rename takes them, so the results are for a set of names that renames take.

## Main definitions

* `TellsUpdates`: every update in the history of `dentry` is told from its entry.
* `Method.Renames`: a rename takes an entry with one of these names.
* `RenamesTold`: no rename of a run takes one of several entries of an inode with these names.

## Main results

* `logs_determine_tables`: equal logs of two runs give equal tables, where the renames of one of
  them are told.
-/

namespace TemporalFs

variable {X : Externals}

/-! ### Updates of entries -/

section Updates

variable (S : Set Name)

/-- An update of `dentry` keeps the name of an entry, or gives a free name to an entry of the same
inode and type whose name was one of `S`. -/
def UpdatesEntry (c : RowChange DentryRow DentryRow) : Prop :=
  c.entry.tgOp = .UPDATE → ∃ old ∈ c.before,
    (dentrySpec.key old = dentrySpec.key c.entry.payload ∨
      (old.childId = c.entry.payload.childId ∧ old.fileType = c.entry.payload.fileType ∧
        old.name ∈ S ∧ ∀ r ∈ c.before, dentrySpec.key r ≠ dentrySpec.key c.entry.payload)) ∧
    c.after = c.before.map fun r =>
      if dentrySpec.key r = dentrySpec.key old then c.entry.payload else r

/-- The entry that an update of `dentry` replaced has the name of the new one, or is the only one
of its inode and type with a name of `S`. -/
def TellsUpdate (c : RowChange DentryRow DentryRow) : Prop :=
  c.entry.tgOp = .UPDATE → (∃ r ∈ c.before, dentrySpec.key r = dentrySpec.key c.entry.payload) ∨
    ∀ x ∈ c.before, ∀ y ∈ c.before, x.name ∈ S → y.name ∈ S →
      x.childId = c.entry.payload.childId → x.fileType = c.entry.payload.fileType →
        y.childId = c.entry.payload.childId → y.fileType = c.entry.payload.fileType → x = y

/-- All updates in the history of `dentry` are updates of entries. -/
def UpdatesEntries (db : Db X) : Prop := ∀ c ∈ db.dentry.history, UpdatesEntry S c

/-- All updates in the history of `dentry` are told. -/
def TellsUpdates (db : Db X) : Prop := ∀ c ∈ db.dentry.history, TellsUpdate S c

end Updates

variable {S : Set Name}

theorem UpdatesEntry.after_eq {c c' : RowChange DentryRow DentryRow} (h : UpdatesEntry S c)
    (h' : UpdatesEntry S c') (htold : TellsUpdate S c) (hbefore : c.before = c'.before)
    (hentry : c.entry = c'.entry) (hop : c.entry.tgOp = .UPDATE) : c.after = c'.after := by
  obtain ⟨old, hold, hkey, hafter⟩ := h hop
  obtain ⟨old', hold', hkey', hafter'⟩ := h' (hentry ▸ hop)
  rw [← hbefore, ← hentry] at hkey' hafter'
  rw [← hbefore] at hold'
  suffices hk : dentrySpec.key old = dentrySpec.key old' by rw [hafter, hafter', hk]
  rcases hkey with hk | ⟨hc, ht, hS, hfree⟩
  · rcases hkey' with hk' | ⟨-, -, -, hfree'⟩
    · exact hk.trans hk'.symm
    · exact absurd hk (hfree' old hold)
  · rcases hkey' with hk' | ⟨hc', ht', hS', -⟩
    · exact absurd hk' (hfree old' hold')
    · rcases htold hop with ⟨r, hr, hrk⟩ | hone
      · exact absurd hrk (hfree r hr)
      · rw [hone old hold old' hold' hS hS' hc ht hc' ht']

/-- What holds of insertions and deletions is kept by statements that do not change keys. -/
theorem closed_of_updates {P : RowChange DentryRow DentryRow → Prop}
    (hP : ∀ c, c.entry.tgOp ≠ .UPDATE → P c) :
    Db.Closed false true fun db : Db X => ∀ c ∈ db.dentry.history, P c := by
  intro db db' h hdb
  have hsnoc : ∀ ch : RowChange DentryRow DentryRow,
      db'.dentry.history = db.dentry.history ++ [ch] → ch.entry.tgOp ≠ .UPDATE →
        ∀ c ∈ db'.dentry.history, P c := by
    intro ch hist hop c hc
    rw [hist, List.mem_append, List.mem_singleton] at hc
    rcases hc with hc | rfl
    · exact hdb c hc
    · exact hP c hop
  cases h with
  | insertMetadata => exact hdb
  | updateMetadata => exact hdb
  | eraseMetadata => exact hdb
  | insertDentry e h =>
    obtain ⟨-, -, -, -, hd, -⟩ := Db.insertDentry_eq_some h
    exact hsnoc _ (by rw [hd]; rfl) (by simp)
  | deleteDentryRow _ p n =>
    rcases db.dentry.history_erase db.now (p, n) with heq | ⟨e, -, hist⟩
    · change ∀ c ∈ (db.dentry.erase db.now (p, n)).history, P c
      rwa [heq]
    · exact hsnoc _ hist (by simp)
  | replaceData r h =>
    obtain ⟨-, -, hd, -⟩ := Db.replaceData_eq_some h
    rwa [hd]
  | updateData => exact hdb
  | deleteDataRow => exact hdb
  | replaceXattr r h =>
    obtain ⟨-, -, hd, -⟩ := Db.replaceXattr_eq_some h
    rwa [hd]
  | deleteXattrRow => exact hdb
  | setBdata => exact hdb

/-- The change that an update of an entry adds to the history. -/
theorem updateDentry_keeps {P : RowChange DentryRow DentryRow → Prop} {db db' : Db X} {p : ℕ}
    {n : Name} {f : DentryRow → DentryRow} (hdb : ∀ c ∈ db.dentry.history, P c)
    (h : db.updateDentry p n f = some db')
    (hP : ∀ e, db.dentry.find (p, n) = some e →
      (dentrySpec.key (f e) = (p, n) ∨ db.dentry.find (dentrySpec.key (f e)) = none) →
      ∀ c : RowChange DentryRow DentryRow, c.before = db.dentry.rows → c.entry.payload = f e →
        (c.after = c.before.map fun r => if dentrySpec.key r = dentrySpec.key e then f e else r) →
        P c) : ∀ c ∈ db'.dentry.history, P c := by
  cases he : db.dentry.find (p, n) with
  | none =>
    rw [Db.updateDentry_of_find_none he] at h
    rwa [← Option.some.inj h]
  | some e =>
    obtain ⟨-, -, -, hd, -⟩ := Db.updateDentry_eq_some he h
    have hfree := AuditedTable.find_key_of_rekey he hd
    rcases AuditedTable.history_rekey hd with heq | ⟨r, hr, hist⟩
    · rwa [heq]
    · obtain rfl := Option.some.inj (hr.symm.trans he)
      intro c hc
      rw [hist, List.mem_append, List.mem_singleton] at hc
      rcases hc with hc | rfl
      · exact hdb c hc
      · exact hP r he hfree _ rfl rfl rfl

/-- A change of an entry that keeps its inode and type, where its name is one of `S`, or that keeps
its name, is an update of an entry. -/
theorem updateDentry_updatesEntries {db db' : Db X} {p : ℕ} {n : Name} {f : DentryRow → DentryRow}
    (hdb : UpdatesEntries S db) (h : db.updateDentry p n f = some db')
    (hf : ∀ e, dentrySpec.key (f e) = dentrySpec.key e ∨
      ((f e).childId = e.childId ∧ (f e).fileType = e.fileType ∧ n ∈ S)) :
    UpdatesEntries S db' := by
  refine updateDentry_keeps hdb h fun e he hfree c hb hpay hafter _ => ?_
  refine ⟨e, hb ▸ AuditedTable.mem_of_find he, ?_, hpay ▸ hafter⟩
  have hkey : dentrySpec.key e = (p, n) := AuditedTable.key_of_find he
  rw [hb, hpay]
  rcases hfree with hk | hfree
  · exact Or.inl (hkey.trans hk.symm)
  · refine (hf e).imp Eq.symm fun ⟨hchild, htype, hn⟩ => ⟨hchild.symm, htype.symm, ?_, ?_⟩
    · rwa [show e.name = n from congrArg Prod.snd hkey]
    · exact (db.dentry.find_eq_none_iff _).1 hfree

/-- The entry updated keeps its name, or is the only one of its inode and type with a name of
`S`. -/
theorem updateDentry_tellsUpdates {db db' : Db X} {p : ℕ} {n : Name} {f : DentryRow → DentryRow}
    (hdb : TellsUpdates S db) (h : db.updateDentry p n f = some db')
    (hf : ∀ e, db.dentry.find (p, n) = some e → dentrySpec.key (f e) = (p, n) ∨
      ∀ x ∈ db.dentry.rows, x.name ∈ S → x.childId = (f e).childId →
        x.fileType = (f e).fileType → x = e) :
    TellsUpdates S db' := by
  refine updateDentry_keeps hdb h fun e he _ c hb hpay _ _ => ?_
  rw [hb, hpay]
  refine (hf e he).imp (fun hk => ?_) fun hone x hx y hy hxS hyS hxc hxt hyc hyt => ?_
  · exact ⟨e, AuditedTable.mem_of_find he, (AuditedTable.key_of_find he).trans hk.symm⟩
  · rw [hone x hx hxS hxc hxt, hone y hy hyS hyc hyt]

/-! ### Runs -/

theorem closed_updatesEntries : Db.Closed false true (UpdatesEntries (X := X) S) :=
  closed_of_updates fun _ hop h => absurd h hop

theorem closed_tellsUpdates : Db.Closed false true (TellsUpdates (X := X) S) :=
  closed_of_updates fun _ hop h => absurd h hop

/-- A rename takes an entry with a name of `S`. -/
def Method.Renames (S : Set Name) : Method → Prop
  | .moveDentry _ _ n _ _ => n ∈ S
  | _ => True

theorem Method.run_updatesEntries (self : Sqlite) {db : Db X} (h : UpdatesEntries S db) {m : Method}
    (hm : m.Renames S) : UpdatesEntries S (m.run self db) := by
  refine m.run_keeps_of_move closed_updatesEntries self h fun now p n p' n' heq => ?_
  subst heq
  refine (self.keeps_moveDentry_of_updates closed_updatesEntries now p n p' n'
    (fun db₁ db₂ h₁ hu => ?_) fun _ db₁ db₂ i h₁ hu => ?_).fst h
  · exact updateDentry_updatesEntries h₁ hu fun e => Or.inr ⟨rfl, rfl, hm⟩
  · exact updateDentry_updatesEntries h₁ hu fun e => Or.inl rfl

/-- Where the rename takes place, the renamed entry is the only one of its inode and type with a
name of `S`, but for the entry that it replaces. -/
def Method.RenameTold (S : Set Name) (db : Db X) : Method → Prop
  | .moveDentry _ p n p' n' => db.CanMove p n p' n' → ∀ e, db.dentry.find (p, n) = some e →
    ∀ k x, db.dentry.find k = some x → x.name ∈ S → x.childId = e.childId →
      x.fileType = e.fileType → k = (p, n) ∨ k = (p', n')
  | _ => True

/-- The renames of a run are told. -/
def RenamesTold (S : Set Name) : Db X → List (Sqlite × Method) → Prop
  | _, [] => True
  | db, m :: ms => m.2.RenameTold S db ∧ RenamesTold S (m.2.run m.1 db) ms

open Proc

theorem Sqlite.moveDentry_tellsUpdates (self : Sqlite) (now : Now) {p p' : ℕ} {n n' : Name}
    (db : Db X) (h : TellsUpdates S db)
    (htold : Method.RenameTold S db (.moveDentry now p n p' n')) :
    TellsUpdates S (self.moveDentry now p n p' n' db).1 := by
  by_cases hcan : (p, n) = (p', n') ∨ db.CanMove p n p' n'
  swap
  · -- a rename that the tables refuse is rolled back
    push Not at hcan
    have hspec := self.moveDentry_spec now hcan.1 db
    unfold Ensures at hspec
    split at hspec <;> rename_i heq <;> rw [heq]
    · obtain ⟨e, hmoved⟩ := hspec
      exact absurd (hmoved.canMove hcan.1) hcan.2
    · exact hspec ▸ h
  have hkeeps : (self.moveDentry now p n p' n').Ensures db (fun _ db' => TellsUpdates S db')
      (fun _ db' => TellsUpdates S db') := by
    unfold Sqlite.moveDentry
    rw [ensures_atomically, ensures_bind]
    refine (getDentrySingle_spec db p n).mono (fun entry db₀ h₀ => ?_) fun _ _ h => h.elim
    obtain ⟨rfl, hentry⟩ := h₀
    rw [ensures_bind, ensures_ofOption]
    refine ⟨fun dentry hd => ?_, fun _ => h⟩
    rw [hd] at hentry
    obtain ⟨e, he, rfl⟩ := Option.map_eq_some_iff.1 hentry.symm
    rw [ensures_bind]
    refine (getDentrySingle_spec db₀ p' n').mono (fun exist db₁ h₁ => ?_) fun _ _ h => h.elim
    obtain ⟨rfl, rfl⟩ := h₁
    rw [ensures_bind]
    refine ((overwriteDentry_spec db₁ .timeless e.fileType p' n').and
      (Sqlite.keeps_overwriteDentry closed_tellsUpdates e.fileType p' n' _ db₁ h)).mono
      (fun res db₂ h₂ => ?_) fun _ _ _ => h
    obtain ⟨⟨-, -, -, hd₂⟩, htells₂⟩ := h₂
    rw [ensures_bind]
    refine (ensures_step _ _).2 ⟨fun db₃ hu => ?_, fun _ => h⟩
    have htells₃ : TellsUpdates S db₃ := by
      refine updateDentry_tellsUpdates htells₂ hu fun e' he' => ?_
      have he'' : db₁.dentry.find (p, n) = some e' := by
        rw [hd₂] at he'
        split_ifs at he'
        exact he'
      obtain rfl : e' = e := Option.some.inj (he''.symm.trans he)
      rcases hcan with heq | hcan
      · exact Or.inl heq.symm
      · refine Or.inr fun x hx hxS hxc hxt => ?_
        have hfind := db₂.dentry.find_key hx
        have hfind₁ := hfind
        rw [hd₂] at hfind₁
        split_ifs at hfind₁ with hk
        rcases htold hcan e' he _ x hfind₁ hxS hxc hxt with hk' | hk'
        · rw [hk', he'] at hfind
          exact (Option.some.inj hfind).symm
        · -- an entry at the target is one of the directory's own, which no rename replaces
          obtain ⟨-, -, e₁, -, hchecks⟩ := hcan
          rw [hk'] at hfind₁ hk
          exact absurd ⟨rfl, (hchecks x hfind₁).1⟩ hk
    exact (self.keeps_move_tail closed_tellsUpdates now p p' e.childId e.fileType res
      (fun _ db₄ db₅ i h₄ hu₄ => updateDentry_tellsUpdates h₄ hu₄ fun x hx =>
        Or.inl (show dentrySpec.key x = (i, dotdot) from AuditedTable.key_of_find hx))
          db₃ htells₃).mono (fun _ _ h => h) fun _ _ _ => h
  unfold Ensures at hkeeps
  split at hkeeps <;> rename_i heq <;> rw [heq] <;> exact hkeeps

theorem Method.run_tellsUpdates (self : Sqlite) {db : Db X} (h : TellsUpdates S db) (m : Method)
    (htold : m.RenameTold S db) : TellsUpdates S (m.run self db) :=
  m.run_keeps_of_move closed_tellsUpdates self h fun now _ _ _ _ hm => by
    subst hm
    exact self.moveDentry_tellsUpdates now db h htold

theorem RenamesTold.tellsUpdates {ms : List (Sqlite × Method)} {db : Db X} (h : TellsUpdates S db)
    (htold : RenamesTold S db ms) : TellsUpdates S (runMethods db ms) := by
  induction ms generalizing db with
  | nil => exact h
  | cons m ms ih => exact ih (m.2.run_tellsUpdates m.1 h htold.1) htold.2

theorem runMethods_updatesEntries {ms : List (Sqlite × Method)} (hms : ∀ m ∈ ms, m.2.Renames S)
    {db : Db X} (h : UpdatesEntries S db) : UpdatesEntries S (runMethods db ms) := by
  induction ms generalizing db with
  | nil => exact h
  | cons m ms ih =>
    exact ih (fun m' hm' => hms m' (List.mem_cons_of_mem _ hm'))
      (m.2.run_updatesEntries m.1 h (hms m List.mem_cons_self))

/-! ### Equal logs -/

theorem Db.metadata_rows_eq (db db' : Db X) (h : db.metadata.audit = db'.metadata.audit) :
    db.metadata.rows = db'.metadata.rows := by
  refine db.metadata.rows_eq_of_audit_eq (fun _ _ h => h) db'.metadata h
    fun c hc c' hc' hbefore hentry hop => ?_
  have hstep := (db.metadata.timeline.step_of_mem hc).1
  have hstep' := (db'.metadata.timeline.step_of_mem hc').1
  rw [← hbefore, ← hentry, hop] at hstep'
  rw [hop] at hstep
  refine hstep.update_unique (fun old new old' new' hold hold' hnew hnew' => ?_) hstep'
  obtain rfl : new = new' := hnew.trans hnew'.symm
  have hk := hold.2.resolve_right fun h => by simp [metadataSpec] at h
  have hk' := hold'.2.resolve_right fun h => by simp [metadataSpec] at h
  exact ⟨hk.symm.trans hk', rfl⟩

theorem Db.xattr_rows_eq (db db' : Db X) (h : db.xattr.audit = db'.xattr.audit) :
    db.xattr.rows = db'.xattr.rows := by
  refine db.xattr.rows_eq_of_audit_eq (fun _ _ h => h) db'.xattr h
    fun c hc c' hc' hbefore hentry hop => ?_
  have hstep := (db.xattr.timeline.step_of_mem hc).1
  have hstep' := (db'.xattr.timeline.step_of_mem hc').1
  rw [← hbefore, ← hentry, hop] at hstep'
  rw [hop] at hstep
  refine hstep.update_unique (fun old new old' new' hold hold' hnew hnew' => ?_) hstep'
  obtain rfl : new = new' := hnew.trans hnew'.symm
  have hk := hold.2.resolve_right fun h => by simp [xattrSpec] at h
  have hk' := hold'.2.resolve_right fun h => by simp [xattrSpec] at h
  exact ⟨hk.symm.trans hk', rfl⟩

/-- The new block is told from the old one and the difference. -/
theorem Db.data_rows_eq (hX : X.Lawful) (db db' : Db X) (h : db.data.audit = db'.data.audit) :
    db.data.rows = db'.data.rows := by
  refine db.data.rows_eq_of_audit_eq (fun _ _ h => h) db'.data h
    fun c hc c' hc' hbefore hentry hop => ?_
  obtain ⟨hstep, hnd⟩ := db.data.timeline.step_of_mem hc
  have hstep' := (db'.data.timeline.step_of_mem hc').1
  rw [← hbefore, ← hentry, hop] at hstep'
  rw [hop] at hstep
  refine hstep.update_unique (fun old new old' new' hold hold' hnew hnew' => ?_) hstep'
  have hk := hold.2.resolve_right fun h => by simp [dataSpec] at h
  have hk' := hold'.2.resolve_right fun h => by simp [dataSpec] at h
  have heq := hnew.trans hnew'.symm
  simp only [dataSpec, DataRow.withData, DataRow.mk.injEq] at heq
  obtain ⟨hfile, hblock, hbytes⟩ := heq
  have hkeys : (dataSpec X).key old = (dataSpec X).key old' := by
    rw [← hk, ← hk', dataSpec_key, dataSpec_key, hfile, hblock]
  obtain rfl : old = old' := List.inj_on_of_nodup_map hnd hold.1 hold'.1 hkeys
  have hdelta : X.deltaCreate old.data new.data = X.deltaCreate old.data new'.data := by
    have := congrArg X.uncompress hbytes
    rwa [hX.uncompress_compress, hX.uncompress_compress, Option.some.injEq] at this
  have hdata : new.data = new'.data := by
    have := congrArg (X.deltaApply old.data) hdelta
    rwa [hX.deltaApply_create, hX.deltaApply_create, Option.some.injEq] at this
  refine ⟨rfl, ?_⟩
  cases new
  cases new'
  simp_all

theorem dentry_rows_eq {db db' : Db X} (hdb : UpdatesEntries S db) (hdb' : UpdatesEntries S db')
    (htold : TellsUpdates S db) (h : db.dentry.audit = db'.dentry.audit) :
    db.dentry.rows = db'.dentry.rows :=
  db.dentry.rows_eq_of_audit_eq (fun _ _ h => h) db'.dentry h
    fun c hc c' hc' hbefore hentry hop =>
      (hdb c hc).after_eq (hdb' c' hc') (htold c hc) hbefore hentry hop

/-- The four live tables. -/
def Db.liveTables (db : Db X) :
    List MetadataRow × List DentryRow × List DataRow × List XattrRow :=
  (db.metadata.rows, db.dentry.rows, db.data.rows, db.xattr.rows)

theorem init_tells (S : Set Name) (clock : ℕ → ℕ) (self : Sqlite) (now : Now) :
    UpdatesEntries S (Db.initialised X clock self now) ∧
      TellsUpdates S (Db.initialised X clock self now) :=
  ⟨(self.keeps_init closed_updatesEntries now).fst (fun _ hc => by simp [Db.empty] at hc),
    (self.keeps_init closed_tellsUpdates now).fst (fun _ hc => by simp [Db.empty] at hc)⟩

/-- **Equal logs give equal tables** after any two runs of methods, where the renames of one of the
runs are told among the names that the renames of both take. The log of an update of `dentry` does
not say which entry it was; that can be told where no two entries of the inode have such names. -/
theorem logs_determine_tables (hX : X.Lawful) (clock clock' : ℕ → ℕ) (self self' : Sqlite)
    (now now' : Now) (ms ms' : List (Sqlite × Method)) (S : Set Name)
    (hms : ∀ m ∈ ms, m.2.Renames S) (hms' : ∀ m ∈ ms', m.2.Renames S)
    (htold : RenamesTold S (Db.initialised X clock self now) ms)
    (hlog : (runMethods (Db.initialised X clock self now) ms).auditLogs =
      (runMethods (Db.initialised X clock' self' now') ms').auditLogs) :
    (runMethods (Db.initialised X clock self now) ms).liveTables =
      (runMethods (Db.initialised X clock' self' now') ms').liveTables := by
  obtain ⟨hm, hd, hb, hx⟩ := AuditLogs.mk.inj hlog
  obtain ⟨hupd, htells⟩ := init_tells (X := X) S clock self now
  obtain ⟨hupd', -⟩ := init_tells (X := X) S clock' self' now'
  unfold Db.liveTables
  rw [Db.metadata_rows_eq _ _ hm, Db.data_rows_eq hX _ _ hb, Db.xattr_rows_eq _ _ hx,
    dentry_rows_eq (runMethods_updatesEntries hms hupd) (runMethods_updatesEntries hms' hupd')
      (htold.tellsUpdates htells) hd]

/-- A file with the names `"a"` and `"b"` in the root, and a rename of the first to `"c"`. -/
def renameFirst : List (Sqlite × Method) :=
  [(.new, .addInodeAndDentry epoch 1 [97] (Sqlite.sampleAttr .RegularFile)),
    (.new, .linkDentry epoch 2 1 [98]), (.new, .moveDentry epoch 1 [97] 1 [99])]

/-- The same file, and a rename of its second name to `"c"`. -/
def renameSecond : List (Sqlite × Method) :=
  [(.new, .addInodeAndDentry epoch 1 [97] (Sqlite.sampleAttr .RegularFile)),
    (.new, .linkDentry epoch 2 1 [98]), (.new, .moveDentry epoch 1 [98] 1 [99])]

/-- A directory is renamed. -/
def renameOnly : List (Sqlite × Method) :=
  [(.new, .addInodeAndDentry epoch 1 [97] (Sqlite.sampleAttr .Directory)),
    (.new, .moveDentry epoch 1 [97] 1 [99])]

/-- The names of entries that are not a directory's own. -/
def givenNames : Set Name := {n | n ≠ dot ∧ n ≠ dotdot}

theorem renamesTold_renameOnly :
    RenamesTold givenNames (Db.initialised .sample id .new epoch) renameOnly := by
  refine ⟨trivial, fun _ e he k x hx hn hc _ => Or.inl ?_, trivial⟩
  have hkey : dentrySpec.key x = k := AuditedTable.key_of_find hx
  have hchild : e.childId = 2 := by
    have hfind : (runMethods (Db.initialised .sample id .new epoch)
        (renameOnly.take 1)).dentry.find (1, [97]) = some ⟨1, 2, .Directory, [97]⟩ := by decide
    rw [Option.some.inj (he.symm.trans hfind)]
  have hrows : ∀ x ∈ (runMethods (Db.initialised .sample id .new epoch)
      (renameOnly.take 1)).dentry.rows, x.childId = 2 → x.name ≠ dot ∧ x.name ≠ dotdot →
        dentrySpec.key x = (1, [97]) := by decide
  exact hkey.symm.trans (hrows x (AuditedTable.mem_of_find hx) (hc.trans hchild) hn)

/-- The name of a directory is told from its own entries. -/
theorem logs_determine_tables_sample :
    (runMethods (Db.initialised .sample id .new epoch) renameOnly).liveTables =
      (runMethods (Db.initialised .sample id .new epoch)
        ((.new, .getInode 1) :: renameOnly)).liveTables := by
  have hgiven : ([97] : Name) ∈ givenNames := ⟨by decide, by decide⟩
  refine logs_determine_tables Externals.sample_lawful id id .new .new epoch epoch _ _ givenNames
    (fun m hm => ?_) (fun m hm => ?_) renamesTold_renameOnly rfl
  · simp only [renameOnly, List.mem_cons, List.not_mem_nil, or_false] at hm
    rcases hm with rfl | rfl
    · trivial
    · exact hgiven
  · simp only [renameOnly, List.mem_cons, List.not_mem_nil, or_false] at hm
    rcases hm with rfl | rfl | rfl
    · trivial
    · trivial
    · exact hgiven

/-- The two renames are logged alike. -/
theorem renames_are_logged_alike : ¬ ∀ ms ms' : List (Sqlite × Method),
    (runMethods (Db.initialised .sample id .new epoch) ms).auditLogs =
      (runMethods (Db.initialised .sample id .new epoch) ms').auditLogs →
    (runMethods (Db.initialised .sample id .new epoch) ms).liveTables =
      (runMethods (Db.initialised .sample id .new epoch) ms').liveTables := by
  intro h
  have hlog : (runMethods (Db.initialised .sample id .new epoch) renameFirst).auditLogs =
      (runMethods (Db.initialised .sample id .new epoch) renameSecond).auditLogs := by
    simp only [Db.auditLogs, AuditLogs.mk.injEq]
    decide
  have htables := h _ _ hlog
  revert htables
  decide

end TemporalFs
