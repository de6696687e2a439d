import Mathlib
import TemporalFs.Db.Effects
import TemporalFs.History.AsOf

/-!
# Old directory contents on a rewound mount

The view `tdentry` groups the log of `dentry` by parent, child and name, while the key of the table
is parent and name. A group is closed by an entry `DELETE`. Insertions and deletions concern one
group each, so that the view then shows what the table held. A rename updates key columns and logs
the new values only: the group of the old values is left open, and the old entry stays visible at
every later time.

## Main definitions

* `entryKey`: the columns by which `tdentry` is grouped; `Moves`: a change that takes a
  row out of its group without an entry for it.
* `ListsHeld`: directory reads on a rewound mount show what was held.
* `NoRename`: no operation of a run renames an entry.

## Main results

* `listsHeld_of_plainHistory`: without renames, rewound directories are right at every time.
* `not_listsHeld_of_moves`: after a rename they are wrong at some time.
-/

namespace TemporalFs

variable {X : Externals}

/-- The columns by which `tdentry` groups the log. -/
def entryKey (e : DentryRow) : ℕ × ℕ × Name := (e.parentId, e.childId, e.name)

theorem dentrySpec_key_of_entryKey {e e' : DentryRow} (h : entryKey e = entryKey e') :
    dentrySpec.key e = dentrySpec.key e' := by
  simp only [entryKey, Prod.mk.injEq] at h
  simp [h.1, h.2.2]

/-- A change that takes a row out of its group and logs another one. -/
def Moves (c : RowChange DentryRow DentryRow) : Prop :=
  ∃ old ∈ c.before, old ∉ c.after ∧ entryKey old ≠ entryKey c.entry.payload

theorem Moves.not_plain {c : RowChange DentryRow DentryRow} (hc : Moves c) :
    ¬ c.Plain entryKey := by
  obtain ⟨old, hold, hgone, hkey⟩ := hc
  exact fun hplain => hgone ((hplain old).2 (Or.inl ⟨hkey, hold⟩))

/-! ### Which changes are plain -/

section Changes

variable (t : AuditedTable dentrySpec)

theorem plain_insert {e : DentryRow} (hfree : t.find (dentrySpec.key e) = none) (seq now : ℕ) :
    (⟨t.rows, ⟨seq, now, .INSERT, dentrySpec.logged e⟩,
      t.rows.filter (fun x => dentrySpec.key x ≠ dentrySpec.key e) ++ [e]⟩ :
        RowChange DentryRow DentryRow).Plain entryKey := by
  have hne := (t.find_eq_none_iff _).1 hfree
  intro r
  change r ∈ _ ++ _ ↔ (entryKey r ≠ entryKey e ∧ r ∈ t.rows) ∨ (TgOp.INSERT ≠ .DELETE ∧ r = e)
  rw [List.mem_append, List.mem_filter, List.mem_singleton]
  simp only [decide_eq_true_eq, ne_eq, reduceCtorEq, not_false_eq_true, true_and]
  refine or_congr_left ?_
  constructor
  · exact fun h => ⟨fun hk => h.2 (dentrySpec_key_of_entryKey hk), h.1⟩
  · exact fun h => ⟨h.2, hne r h.2⟩

theorem plain_delete {e : DentryRow} (he : e ∈ t.rows) (seq now : ℕ) :
    (⟨t.rows, ⟨seq, now, .DELETE, dentrySpec.logged e⟩,
      t.rows.filter fun x => dentrySpec.key x ≠ dentrySpec.key e⟩ :
        RowChange DentryRow DentryRow).Plain entryKey := by
  intro r
  change r ∈ List.filter _ _ ↔
    (entryKey r ≠ entryKey e ∧ r ∈ t.rows) ∨ (TgOp.DELETE ≠ .DELETE ∧ r = e)
  rw [List.mem_filter]
  simp only [decide_eq_true_eq, ne_eq, not_true_eq_false, false_and, or_false]
  constructor
  · exact fun h => ⟨fun hk => h.2 (dentrySpec_key_of_entryKey hk), h.1⟩
  · exact fun h => ⟨h.2, fun hk => h.1 (congrArg entryKey (t.eq_of_key_eq h.2 he hk))⟩

/-- An update is plain if it leaves the group, and moves the row if it does not. -/
theorem plain_or_moves_update {e new : DentryRow} (he : e ∈ t.rows) (seq now : ℕ) :
    let c : RowChange DentryRow DentryRow := ⟨t.rows, ⟨seq, now, .UPDATE,
      dentrySpec.loggedUpdate e new⟩,
      t.rows.map fun x => if dentrySpec.key x = dentrySpec.key e then new else x⟩
    (entryKey new = entryKey e → c.Plain entryKey) ∧ (entryKey new ≠ entryKey e → Moves c) := by
  intro c
  have hafter : ∀ r, r ∈ c.after ↔ (r ∈ t.rows ∧ r ≠ e) ∨ r = new := by
    intro r
    change r ∈ List.map _ _ ↔ _
    rw [List.mem_map]
    constructor
    · rintro ⟨x, hx, rfl⟩
      split_ifs with hk
      · exact Or.inr rfl
      · exact Or.inl ⟨hx, fun hxe => hk (congrArg dentrySpec.key hxe)⟩
    · rintro (⟨hr, hne⟩ | rfl)
      · exact ⟨r, hr, if_neg fun hk => hne (t.eq_of_key_eq hr he hk)⟩
      · exact ⟨e, he, if_pos rfl⟩
  constructor
  · intro hk r
    rw [hafter r]
    change _ ↔ (entryKey r ≠ entryKey new ∧ r ∈ t.rows) ∨ (TgOp.UPDATE ≠ .DELETE ∧ r = new)
    simp only [ne_eq, reduceCtorEq, not_false_eq_true, true_and, hk]
    refine or_congr_left ?_
    constructor
    · exact fun h => ⟨fun hr => h.2 (t.eq_of_key_eq h.1 he (dentrySpec_key_of_entryKey hr)), h.1⟩
    · exact fun h => ⟨h.2, fun hr => h.1 (congrArg entryKey hr)⟩
  · intro hk
    refine ⟨e, he, fun hin => ?_, fun h => hk h.symm⟩
    rcases (hafter e).1 hin with h | h
    · exact h.2 rfl
    · exact hk (congrArg entryKey h.symm)

end Changes

/-! ### The history of a run -/

/-- All changes of `dentry` are plain. -/
def PlainHistory (db : Db X) : Prop := ∀ c ∈ db.dentry.history, c.Plain entryKey

/-- All changes of `dentry` are plain or move an entry. -/
def PlainOrMovesHistory (db : Db X) : Prop :=
  ∀ c ∈ db.dentry.history, c.Plain entryKey ∨ Moves c

/-- Some change of `dentry` moves an entry. -/
def MovesInHistory (db : Db X) : Prop := ∃ c ∈ db.dentry.history, Moves c

theorem updateDentry_change {db db' : Db X} {p : ℕ} {n : Name} {f : DentryRow → DentryRow}
    {e : DentryRow} (he : db.dentry.find (p, n) = some e)
    (h : db.updateDentry p n f = some db') :
    db'.dentry = db.dentry ∨ ∃ c, db'.dentry.history = db.dentry.history ++ [c] ∧
      (entryKey (f e) = entryKey e → c.Plain entryKey) ∧
        (entryKey (f e) ≠ entryKey e → Moves c) := by
  obtain ⟨-, -, -, hd, -⟩ := Db.updateDentry_eq_some he h
  refine (AuditedTable.history_rekey hd).imp id fun ⟨r, hr, hist⟩ => ?_
  obtain rfl := Option.some.inj (hr.symm.trans he)
  exact ⟨_, hist, plain_or_moves_update db.dentry (AuditedTable.mem_of_find he) _ _⟩

/-- What a row change adds to the history of `dentry`. -/
theorem step_dentry_change {b c : Bool} {db db' : Db X} (h : Db.Step b c db db') :
    db'.dentry = db.dentry ∨ ∃ ch, db'.dentry.history = db.dentry.history ++ [ch] ∧
      (ch.Plain entryKey ∨ (b = true ∧ Moves ch)) := by
  cases h with
  | insertMetadata _ m => exact Or.inl rfl
  | updateMetadata _ i f => exact Or.inl rfl
  | eraseMetadata _ i => exact Or.inl rfl
  | insertDentry e h =>
    obtain ⟨hfree, -, -, -, hd, -⟩ := Db.insertDentry_eq_some h
    rw [hd]
    exact Or.inr ⟨_, rfl, Or.inl (plain_insert db.dentry hfree _ _)⟩
  | updateDentry p n f h =>
    cases he : db.dentry.find (p, n) with
    | none =>
      rw [Db.updateDentry_of_find_none he] at h
      exact Or.inl (by rw [Option.some.inj h])
    | some e =>
      refine (updateDentry_change he h).imp id fun ⟨ch, hch, hplain, hmoves⟩ => ⟨ch, hch, ?_⟩
      by_cases hk : entryKey (f e) = entryKey e
      · exact Or.inl (hplain hk)
      · exact Or.inr ⟨rfl, hmoves hk⟩
  | deleteDentryRow _ p n =>
    refine (db.dentry.history_erase db.now (p, n)).imp id fun ⟨e, he, hist⟩ => ?_
    exact ⟨_, hist, Or.inl (plain_delete db.dentry (AuditedTable.mem_of_find he) _ _)⟩
  | replaceData r h =>
    obtain ⟨-, -, hd, -⟩ := Db.replaceData_eq_some h
    exact Or.inl hd
  | updateData _ i k bytes => exact Or.inl rfl
  | deleteDataRow _ i k => exact Or.inl rfl
  | replaceXattr r h =>
    obtain ⟨-, -, hd, -⟩ := Db.replaceXattr_eq_some h
    exact Or.inl hd
  | deleteXattrRow _ i n => exact Or.inl rfl
  | setBdata _ rows => exact Or.inl rfl

private theorem forall_mem_of_extended {db db' : Db X}
    {P : RowChange DentryRow DentryRow → Prop} (h : ∀ c ∈ db.dentry.history, P c)
    (hext : db'.dentry = db.dentry ∨
      ∃ c, db'.dentry.history = db.dentry.history ++ [c] ∧ P c) :
    ∀ c ∈ db'.dentry.history, P c := by
  rcases hext with heq | ⟨c, hc, hP⟩
  · rwa [heq]
  · intro c' hc'
    rw [hc] at hc'
    rcases List.mem_append.1 hc' with hc' | hc'
    · exact h c' hc'
    · exact List.mem_singleton.1 hc' ▸ hP

theorem closed_plainHistory (c : Bool) : Db.Closed false c (PlainHistory (X := X)) :=
  fun _ _ hstep h => forall_mem_of_extended h <| (step_dentry_change hstep).imp id
    fun ⟨ch, hch, hplain⟩ => ⟨ch, hch, hplain.resolve_right fun h => absurd h.1 (by simp)⟩

theorem closed_plainOrMovesHistory (b c : Bool) :
    Db.Closed b c (PlainOrMovesHistory (X := X)) :=
  fun _ _ hstep h => forall_mem_of_extended h <| (step_dentry_change hstep).imp id
    fun ⟨ch, hch, hch'⟩ => ⟨ch, hch, hch'.imp id And.right⟩

theorem closed_movesInHistory (b c : Bool) : Db.Closed b c (MovesInHistory (X := X)) := by
  rintro db db' hstep ⟨ch, hch, hmoves⟩
  exact ⟨ch, hstep.extends.2.2.1.isPrefix.subset hch, hmoves⟩

/-! ### Renames -/

/-- The operation is a rename to another place, and the tables allow it. -/
def NamespaceOp.Renames (db : Db X) : NamespaceOp → Prop
  | .moveDentry _ parent name new_parent new_name => db.CanMove parent name new_parent new_name
  | _ => False

/-- No operation of the run renames an entry. -/
def NoRename (self : Sqlite) : Db X → List NamespaceOp → Prop
  | _, [] => True
  | db, op :: ops => ¬ op.Renames db ∧ NoRename self (op.run self db) ops

/-- A rename to another place leaves its trace in the history. -/
theorem Sqlite.moveDentry_movesInHistory (self : Sqlite) (now : Now) {p p' : ℕ} {n n' : Name}
    (hne : (p, n) ≠ (p', n')) (db : Db X) :
    (self.moveDentry now p n p' n').Ensures db (fun _ db' => MovesInHistory db')
      (fun _ _ => True) := by
  unfold Sqlite.moveDentry
  rw [Proc.ensures_atomically, Proc.ensures_bind]
  refine (getDentrySingle_spec db p n).mono (fun entry db₀ h₀ => ?_) fun _ _ h => h.elim
  obtain ⟨rfl, hentry⟩ := h₀
  rw [Proc.ensures_bind, Proc.ensures_ofOption]
  refine ⟨fun dentry hd => ?_, fun _ => trivial⟩
  rw [hd] at hentry
  obtain ⟨e, he, rfl⟩ := Option.map_eq_some_iff.1 hentry.symm
  rw [Proc.ensures_bind]
  refine (getDentrySingle_spec db₀ p' n').mono (fun exist db₁ h₁ => ?_) fun _ _ h => h.elim
  obtain ⟨rfl, rfl⟩ := h₁
  rw [Proc.ensures_bind]
  refine (overwriteDentry_spec db₁ .timeless e.fileType p' n').mono (fun res db₂ h₂ => ?_)
    fun _ _ _ => trivial
  have he₂ : db₂.dentry.find (p, n) = some e := by
    rw [h₂.2.2.2, if_neg fun h => hne h.1, he]
  rw [Proc.ensures_bind]
  refine (Proc.ensures_step _ _).2 ⟨fun db₃ h₃ => ?_, fun _ => trivial⟩
  have hkey := AuditedTable.key_of_find he₂
  have hmoves : MovesInHistory db₃ := by
    have hnew : entryKey { e with parentId := p', name := n' } ≠ entryKey e := by
      intro h
      simp only [entryKey, Prod.mk.injEq, dentrySpec_key] at h hkey
      exact hne (by rw [← hkey.1, ← hkey.2, ← h.1, ← h.2.2])
    rcases updateDentry_change he₂ h₃ with heq | ⟨c, hc, -, hm⟩
    · -- the table has changed, since the entry has a new key
      obtain ⟨-, -, -, hre, -⟩ := Db.updateDentry_eq_some he₂ h₃
      have hfind := AuditedTable.find_rekey he₂ hre (p, n)
      rw [heq, he₂] at hfind
      simp only [dentrySpec_key, if_neg hne, ↓reduceIte, reduceCtorEq] at hfind
    · exact ⟨c, hc ▸ List.mem_append_right _ (List.mem_singleton_self c), hm hnew⟩
  have htail := self.keeps_move_tail (closed_movesInHistory (X := X) true true) now p p'
    e.childId e.fileType res (fun _ db db' _ h hu => closed_movesInHistory true true db db'
      (.updateDentry _ _ _ hu) h)
  exact (htail db₃ hmoves).mono (fun _ _ h => h) fun _ _ _ => trivial

/-- An operation that does not rename adds plain changes only. -/
theorem NamespaceOp.run_plainHistory (self : Sqlite) {db : Db X} (h : PlainHistory db)
    (op : NamespaceOp) (hop : ¬ op.Renames db) : PlainHistory (op.run self db) := by
  have hI := closed_plainHistory (X := X) true
  cases op with
  | addInodeAndDentry now p n attr => exact (self.keeps_addInodeAndDentry hI now p n attr).fst h
  | linkDentry now i p n => exact (self.keeps_linkDentry hI now i p n).fst h
  | deleteDentry now p n => exact (self.keeps_deleteDentry hI now p n).fst h
  | deleteInodeIfNoref i => exact (self.keeps_deleteInodeIfNoref hI i).fst h
  | deleteAllNorefInode => exact (self.keeps_deleteAllNorefInode hI).fst h
  | moveDentry now p n p' n' =>
    change PlainHistory (self.moveDentry now p n p' n' db).1
    by_cases hne : (p, n) = (p', n')
    · -- the row that is updated keeps its group, and no directory changes its parent
      obtain ⟨rfl, rfl⟩ := Prod.mk.inj hne
      refine (self.keeps_moveDentry_of_updates hI now p n p n (fun db₁ db₂ h₁ hu => ?_)
        (fun hp => absurd rfl hp)).fst h
      cases he : db₁.dentry.find (p, n) with
      | none =>
        rw [Db.updateDentry_of_find_none he] at hu
        exact Option.some.inj hu ▸ h₁
      | some e =>
        have hkey := AuditedTable.key_of_find he
        simp only [dentrySpec_key, Prod.mk.injEq] at hkey
        refine forall_mem_of_extended h₁ <| (updateDentry_change he hu).imp id
          fun ⟨c, hc, hplain, _⟩ => ⟨c, hc, hplain ?_⟩
        simp only [entryKey, hkey.1, hkey.2]
    · have hspec := self.moveDentry_spec now hne db
      unfold Proc.Ensures at hspec
      cases hres : self.moveDentry now p n p' n' db with
      | mk db' res =>
        rw [hres] at hspec
        cases res with
        | ok r =>
          obtain ⟨e, hmoved⟩ := hspec
          exact absurd (hmoved.canMove hne) hop
        | error e =>
          simp only at hspec
          exact hspec ▸ h

/-- A run without renames adds plain changes only. -/
theorem NoRename.plainHistory {self : Sqlite} {ops : List NamespaceOp} {db : Db X}
    (hno : NoRename self db ops) (h : PlainHistory db) :
    PlainHistory (ops.foldl (NamespaceOp.run self) db) := by
  induction ops generalizing db with
  | nil => exact h
  | cons op ops ih => exact ih hno.2 (op.run_plainHistory self h hno.1)

/-- A run with a rename leaves its trace in the history. -/
theorem movesInHistory_of_not_noRename {self : Sqlite} {ops : List NamespaceOp} {db : Db X}
    (h : ¬ NoRename self db ops) : MovesInHistory (ops.foldl (NamespaceOp.run self) db) := by
  induction ops generalizing db with
  | nil => exact absurd trivial h
  | cons op ops ih =>
    by_cases hop : op.Renames db
    · refine NamespaceOp.foldl_run_keeps (closed_movesInHistory true true) self ops ?_
      cases op with
      | moveDentry now p n p' n' =>
        have hrun := (self.moveDentry_returns now db hop).and
          (self.moveDentry_movesInHistory now hop.1 db)
        obtain ⟨_, db', heq, -, hmoves⟩ :=
          (hrun.mono (fun _ _ h => h) fun _ _ h => h.1).exists_ok
        rwa [NamespaceOp.run, heq]
      | _ => exact hop.elim
    · exact ih fun hno => h ⟨hop, hno⟩

/-! ### Directory reads -/

/-- A directory read on a mount rewound to `time` lists exactly the entries that the directory had
after the last change of `dentry` stamped before `time`, each name once. -/
def ListsHeld (db : Db X) (time : ℕ) : Prop :=
  ∀ d, ∃ l, ((Sqlite.newAtTime db time).getDentryAtTime d db).2 = .ok l ∧
    (l.map DEntry.filename).Nodup ∧ ∀ x, x ∈ l ↔
      ∃ e ∈ db.dentry.rowsAt time, e.parentId = d ∧ x = ⟨d, e.childId, e.fileType, e.name⟩

theorem mem_dentryList (rows : List DentryRow) (d : ℕ) (x : DEntry) :
    x ∈ Sqlite.dentryList rows d ↔
      ∃ e ∈ rows, e.parentId = d ∧ x = ⟨d, e.childId, e.fileType, e.name⟩ := by
  simp only [Sqlite.dentryList, List.mem_map, List.mem_insertionSort, List.mem_filter,
    decide_eq_true_eq]
  constructor
  · rintro ⟨e, ⟨he, hd⟩, rfl⟩
    exact ⟨e, he, hd, rfl⟩
  · rintro ⟨e, he, hd, rfl⟩
    exact ⟨e, ⟨he, hd⟩, rfl⟩

theorem getDentryAtTime_snd (db : Db X) (time d : ℕ) :
    ((Sqlite.newAtTime db time).getDentryAtTime d db).2 =
      .ok (Sqlite.dentryList (view entryKey db.dentry.audit time) d) := rfl

/-- A directory whose rows have different names is listed with each name once. -/
theorem nodup_dentryList {rows : List DentryRow} (hrows : rows.Nodup) (d : ℕ)
    (hkey : ∀ e ∈ rows, ∀ e' ∈ rows, dentrySpec.key e = dentrySpec.key e' → e = e') :
    ((Sqlite.dentryList rows d).map DEntry.filename).Nodup := by
  rw [Sqlite.dentryList, List.map_map]
  refine (((List.perm_insertionSort _ _).map _).nodup_iff).2 ?_
  refine List.Nodup.map_on (fun e he e' he' hname => ?_) (hrows.filter _)
  simp only [List.mem_filter, decide_eq_true_eq] at he he'
  exact hkey e he.1 e' he'.1 (by simp [he.2, he'.2, show e.name = e'.name from hname])

/-- Where all changes are plain, directories are listed as they were. -/
theorem listsHeld_of_plainHistory {db : Db X} (hord : db.dentry.StrictlyOrdered)
    (hplain : PlainHistory db) (time : ℕ) : ListsHeld db time := by
  have hmem := db.dentry.mem_view_iff hord entryKey time
    fun c hc => hplain c (List.mem_of_mem_filter hc)
  intro d
  refine ⟨_, getDentryAtTime_snd db time d, ?_, fun x => ?_⟩
  · refine nodup_dentryList (AuditedTable.nodup_view hord entryKey time) d fun e he e' he' hk => ?_
    exact (db.dentry.cut hord.ordered time).eq_of_key_eq ((hmem e).1 he) ((hmem e').1 he') hk
  · rw [mem_dentryList]
    exact exists_congr fun e => and_congr_left fun _ => hmem e

private theorem exists_first {β : Type} {P : β → Prop} :
    {l : List β} → (∃ x ∈ l, ¬ P x) → ∃ l₁ x l₂, l = l₁ ++ x :: l₂ ∧ (∀ y ∈ l₁, P y) ∧ ¬ P x
  | [], h => by simp at h
  | a :: l, h => by
      by_cases ha : P a
      · obtain ⟨x, hx, hPx⟩ := h
        have hxl : x ∈ l := (List.mem_cons.1 hx).resolve_left fun hxa => hPx (hxa ▸ ha)
        obtain ⟨l₁, y, l₂, rfl, h₁, hy⟩ := exists_first ⟨x, hxl, hPx⟩
        exact ⟨a :: l₁, y, l₂, rfl, List.forall_mem_cons.2 ⟨ha, h₁⟩, hy⟩
      · exact ⟨[], a, l, rfl, by simp, ha⟩

/-- **A moved entry stays visible.** After the first change that moves an entry, the directory that
held it is listed with it. -/
theorem not_listsHeld_of_moves {db : Db X} (hord : db.dentry.StrictlyOrdered)
    (hhist : PlainOrMovesHistory db) (hmoves : MovesInHistory db) :
    ∃ time, ¬ ListsHeld db time := by
  obtain ⟨c₀, hc₀, hm₀⟩ := hmoves
  obtain ⟨h, c, h', hist, hplain, hc⟩ := exists_first (P := fun c => c.Plain entryKey)
    ⟨c₀, hc₀, hm₀.not_plain⟩
  have hcm : Moves c := (hhist c (hist ▸ by simp)).resolve_left hc
  obtain ⟨old, hold, hgone, hkey⟩ := hcm
  refine ⟨c.entry.timestampUtc + 1, fun hlists => hgone ?_⟩
  have hbefore := AuditedTable.changesBefore_eq hord hist
  -- the last entry of the group of `old` is the one that made it
  have ht : Timeline dentrySpec h c.before := (hist ▸ db.dentry.timeline).before
  obtain ⟨c', hc', hin⟩ :=
    (ht.mem_iff_lastChange (fun c hc => (hplain c hc).isLocal) old).1 hold
  have hpay := ((hplain c' (mem_of_lastChange hc')) old).1 hin
  have hk' := key_of_lastChange hc'
  have hpay' := hpay.resolve_left fun hne => hne.1 hk'.symm
  have hview : old ∈ view entryKey db.dentry.audit (c.entry.timestampUtc + 1) := by
    refine (db.dentry.mem_view hord entryKey _ old).2 ⟨c', ?_, hpay'.1, hpay'.2.symm⟩
    rw [hbefore, lastChange_snoc, if_neg fun h => hkey h.symm, hc']
  obtain ⟨l, hl, -, hmem⟩ := hlists old.parentId
  rw [getDentryAtTime_snd, Except.ok.injEq] at hl
  obtain ⟨e, he, hep, hx⟩ := (hmem ⟨old.parentId, old.childId, old.fileType, old.name⟩).1
    (hl ▸ (mem_dentryList _ _ _).2 ⟨old, hview, rfl, rfl⟩)
  simp only [DEntry.mk.injEq, true_and] at hx
  obtain ⟨hchild, htype, hname⟩ := hx
  have hold_eq : old = e := by
    cases old
    cases e
    simp_all
  rw [AuditedTable.rowsAt, hbefore] at he
  simpa [rowsAfter, hold_eq] using he

end TemporalFs
