import Mathlib
import TemporalFs.Db.Contents
import TemporalFs.History.Directories

/-!
# Lookups on a rewound mount

`lookupAtTime` joins the views `tdentry` and `tmetadata`. Where the first shows what the table
held, the second has a row for the inode, since the database as of that time had one by its foreign
keys, and the row can be read, since the operations on the namespace store readable times only.

## Main definitions

* `FindsHeld`: lookups on a rewound mount find what was held.

## Main results

* `rewound_directories_iff`: after a run of operations on the namespace, directory reads and lookups
  are right at every past time if and only if no rename has succeeded.
-/

namespace TemporalFs

variable {X : Externals}

/-- A lookup on a mount rewound to `time` finds the child that the name had after the last change
of `dentry` stamped before `time`, and nothing where the name was absent. -/
def FindsHeld (db : Db X) (time : ℕ) : Prop :=
  ∀ d name, match db.dentry.findAt time (d, name) with
    | some e => ∃ attr, ((Sqlite.newAtTime db time).lookupAtTime d name db).2 = .ok (some attr) ∧
        attr.ino = e.childId
    | none => ((Sqlite.newAtTime db time).lookupAtTime d name db).2 = .ok none

/-! ### Readable times -/

/-- The times of the rows of `metadata` and of the entries of their log can be read. -/
def ReadableMetadata (db : Db X) : Prop :=
  (∀ m ∈ db.metadata.rows, m.Readable) ∧ ∀ c ∈ db.metadata.history, c.entry.payload.Readable

private theorem readableMetadata_of_extended {db db' : Db X} (h : ReadableMetadata db)
    (hrows : ∀ m ∈ db'.metadata.rows, m.Readable)
    {c : RowChange MetadataRow MetadataRow} (hc : c.entry.payload.Readable)
    (hist : db'.metadata.history = db.metadata.history ++ [c]) : ReadableMetadata db' := by
  refine ⟨hrows, fun c' hc' => ?_⟩
  rw [hist] at hc'
  rcases List.mem_append.1 hc' with hc' | hc'
  · exact h.2 c' hc'
  · exact List.mem_singleton.1 hc' ▸ hc

theorem closed_readableMetadata (b : Bool) : Db.Closed b false (ReadableMetadata (X := X)) := by
  intro db db' hstep h
  cases hstep with
  | insertMetadata _ m hm =>
    refine readableMetadata_of_extended h (fun m' hm' => ?_) (c := _) hm
      (db.metadata.history_put ..)
    rcases (db.metadata.mem_put _ _ _).1 hm' with hm' | rfl
    · exact h.1 m' hm'.1
    · exact hm
  | updateMetadata _ i f hf =>
    have hf := hf.resolve_left (by simp)
    cases hi : db.metadata.find i with
    | none =>
      have heq : (db.updateMetadata i f).metadata = db.metadata :=
        AuditedTable.update_of_find_none hi _ _ (metadataSpec_key_withId f)
      unfold ReadableMetadata
      rwa [heq]
    | some m =>
      have hm := hf m (h.1 m (AuditedTable.mem_of_find hi))
      have hrows : ∀ m' ∈ (db.updateMetadata i f).metadata.rows, m'.Readable := by
        intro m' hm'
        have heq := AuditedTable.rows_update_of_find_some hi db.now _ (metadataSpec_key_withId f)
        rw [Db.updateMetadata, heq, List.mem_map] at hm'
        obtain ⟨m₀, hm₀, rfl⟩ := hm'
        split_ifs
        · exact hm
        · exact h.1 m₀ hm₀
      rcases db.metadata.history_update db.now i _ (metadataSpec_key_withId f) with
        heq | ⟨m', hi', hist⟩
      · refine ⟨hrows, ?_⟩
        rw [show (db.updateMetadata i f).metadata = db.metadata from heq]
        exact h.2
      · obtain rfl := Option.some.inj (hi'.symm.trans hi)
        exact readableMetadata_of_extended h hrows (c := _) hm hist
  | eraseMetadata _ i hd hb hx =>
    rcases db.metadata.history_erase db.now i with heq | ⟨m, hm, hist⟩
    · unfold ReadableMetadata
      rwa [show (db.eraseMetadata i hd hb hx).metadata = db.metadata from heq]
    · refine readableMetadata_of_extended h (fun m' hm' => ?_) (c := _)
        (h.1 m (AuditedTable.mem_of_find hm)) hist
      have heq := AuditedTable.rows_erase_of_find_some hm db.now
      rw [Db.eraseMetadata, heq] at hm'
      exact h.1 m' (List.mem_of_mem_filter hm')
  | insertDentry e h' =>
    obtain ⟨-, -, -, hm, -⟩ := Db.insertDentry_eq_some h'
    unfold ReadableMetadata
    rwa [hm]
  | updateDentry p n f h' =>
    unfold Db.updateDentry at h'
    split at h'
    · exact Option.some.inj h' ▸ h
    · split at h'
      · exact absurd h' (by simp)
      · split_ifs at h'
        exact Option.some.inj h' ▸ h
  | deleteDentryRow _ p n => exact h
  | replaceData r h' =>
    obtain ⟨-, hm, -⟩ := Db.replaceData_eq_some h'
    unfold ReadableMetadata
    rwa [hm]
  | updateData _ i k bytes => exact h
  | deleteDataRow _ i k => exact h
  | replaceXattr r h' =>
    obtain ⟨-, hm, -⟩ := Db.replaceXattr_eq_some h'
    unfold ReadableMetadata
    rwa [hm]
  | deleteXattrRow _ i n => exact h
  | setBdata _ rows => exact h

/-! ### The joined query -/

theorem parseAttr_of_forall {rows : List (Option DBFileAttr)} {P : DBFileAttr → Prop}
    (hne : rows ≠ []) (hrows : ∀ r ∈ rows, ∃ a, r = some a ∧ P a) :
    ∃ a, parseAttr rows = .ok (some a) ∧ P a := by
  have hnone : none ∉ rows := fun h => by
    obtain ⟨a, ha, -⟩ := hrows none h
    exact absurd ha (by simp)
  obtain ⟨r, rows', rfl⟩ := List.exists_cons_of_ne_nil hne
  obtain ⟨a, rfl, ha⟩ := hrows r List.mem_cons_self
  refine ⟨a, ?_, ha⟩
  rw [parseAttr, if_neg hnone]
  rfl

theorem queryTemp_snd {α : Type} {self : Sqlite} {t : TempTables} (ht : self.temp = some t)
    (f : TempTables → Except Stop α) (db : Db X) : (self.queryTemp f db).2 = f t := by
  unfold Sqlite.queryTemp
  rw [ht]
  cases hf : f t with
  | ok a => simp only [Proc.ofOption, bind, pure, hf]
  | error e => simp only [Proc.ofOption, bind, pure, hf, Proc.stop]

theorem lookupAtTime_snd (db : Db X) (time d : ℕ) (name : Name) :
    ((Sqlite.newAtTime db time).lookupAtTime d name db).2 =
      Sqlite.lookupAttrAtTime X d name (Sqlite.tempTables db time) :=
  queryTemp_snd rfl _ db

/-- The rows of the view `tmetadata` can be read. -/
theorem readable_of_mem_tmetadata {db : Db X} (hread : ReadableMetadata db) {time : ℕ}
    {m : MetadataRow} (hm : m ∈ (Sqlite.tempTables db time).tmetadata) : m.Readable := by
  obtain ⟨e, he, rfl⟩ := List.mem_map.1 hm
  have hin := List.mem_of_mem_filter (List.mem_of_mem_filter (List.mem_of_mem_filter he))
  obtain ⟨c, hc, rfl⟩ := List.mem_map.1 hin
  exact hread.2 c hc

/-- The view `tmetadata` has a row for every inode that had one at the time. -/
theorem exists_mem_tmetadata {db : Db X} (hord : db.metadata.Ordered) {time i : ℕ}
    (hi : (db.metadata.findAt time i).isSome) :
    ∃ m ∈ (Sqlite.tempTables db time).tmetadata, m.id = i := by
  rw [db.metadata.findAt_eq_find_cut hord] at hi
  have hcases := AuditedTable.find_lastChange rfl metadataSpec.key (fun _ => rfl)
    (fun _ _ => rfl) (db.metadata.cut hord time) i
  have hview : ∀ c, lastChange metadataSpec.key (db.metadata.changesBefore time) i = some c →
      c.entry.tgOp ≠ .DELETE → ∃ m ∈ (Sqlite.tempTables db time).tmetadata, m.id = i := by
    intro c hc hop
    have hlast : ((entriesBefore db.metadata.audit time).filter
        fun e => metadataSpec.key e.payload = i).getLast? = some c.entry := by
      rw [AuditedTable.entriesBefore_audit, getLast?_filter_entries, hc, Option.map_some]
    have hin := mem_latest_of_getLast? metadataSpec.key (List.Pairwise.filter _ hord) hlast
    exact ⟨c.entry.payload, List.mem_map.2 ⟨c.entry, List.mem_filter.2 ⟨hin, by simpa using hop⟩,
      rfl⟩, key_of_lastChange hc⟩
  rcases hcases with ⟨-, hnone⟩ | ⟨c, hc, hop | hop | ⟨-, hnone⟩⟩
  · rw [hnone] at hi
    exact absurd hi (by simp)
  · exact hview c hc (by simp [hop.1])
  · exact hview c hc (by simp [hop.1])
  · rw [hnone] at hi
    exact absurd hi (by simp)

/-- Where all changes are plain, lookups find what was held. -/
theorem findsHeld_of_plainHistory {clock : ℕ → ℕ} {db : Db X} (hdated : db.Dated clock)
    (hread : ReadableMetadata db) (hord : db.dentry.StrictlyOrdered) (hplain : PlainHistory db)
    (time : ℕ) : FindsHeld db time := by
  have hmem : ∀ e, e ∈ (Sqlite.tempTables db time).tdentry ↔ e ∈ db.dentry.rowsAt time :=
    db.dentry.mem_view_iff hord entryKey time fun c hc => hplain c (List.mem_of_mem_filter hc)
  have hfind := (db.dentry.cut hord.ordered time).find_eq_some_iff
  intro d name
  rw [lookupAtTime_snd, db.dentry.findAt_eq_find_cut hord.ordered]
  -- the entries that the query joins are those found under the name
  have hjoin : ∀ x ∈ (Sqlite.tempTables db time).tdentry.filter fun e =>
      e.parentId = d ∧ e.name = name,
      (db.dentry.cut hord.ordered time).find (d, name) = some x := by
    intro x hx
    obtain ⟨hx, hkey⟩ := List.mem_filter.1 hx
    simp only [decide_eq_true_eq] at hkey
    exact (hfind _ x).2 ⟨(hmem x).1 hx, by simp [hkey]⟩
  cases he : (db.dentry.cut hord.ordered time).find (d, name) with
  | none =>
    have hnil : (Sqlite.tempTables db time).tdentry.filter
        (fun e => e.parentId = d ∧ e.name = name) = [] :=
      List.eq_nil_iff_forall_not_mem.2 fun x hx => by simpa [he] using hjoin x hx
    change Sqlite.lookupAttrAtTime X d name _ = .ok none
    rw [Sqlite.lookupAttrAtTime, hnil]
    rfl
  | some e =>
    obtain ⟨hrow, hkey⟩ := (hfind _ e).1 he
    simp only [dentrySpec_key, Prod.mk.injEq] at hkey
    have hin := (hmem e).2 hrow
    obtain ⟨n, hn⟩ := nlink_of_mem hin
    -- the database as of the time had a row for the child
    obtain ⟨past, hpast⟩ := hdated.asOf time
    have hchild : (db.metadata.findAt time e.childId).isSome := by
      have hpe : past.dentry.find (d, name) = some e :=
        (past.dentry.find_eq_some_iff _ e).2 ⟨hpast.dentry ▸ hrow, by simp [hkey]⟩
      have hfk := (past.dentry_fk _ e hpe).2
      rwa [AuditedTable.find, hpast.metadata] at hfk
    obtain ⟨m, hm, hmid⟩ := exists_mem_tmetadata hdated.ordered hchild
    change ∃ attr : DBFileAttr, _ = Except.ok (some attr) ∧ attr.ino = e.childId
    refine parseAttr_of_forall (fun hnil => ?_) fun r hr => ?_
    · rw [List.flatMap_eq_nil_iff] at hnil
      have := hnil e (List.mem_filter.2 ⟨hin, by simp [hkey]⟩)
      rw [List.map_eq_nil_iff, List.filter_eq_nil_iff] at this
      exact this m hm (by simp [hmid])
    · obtain ⟨x, hx, hr⟩ := List.mem_flatMap.1 hr
      obtain rfl := Option.some.inj ((hjoin x hx).symm.trans he)
      obtain ⟨m', hm', rfl⟩ := List.mem_map.1 hr
      obtain ⟨hm', hid⟩ := List.mem_filter.1 hm'
      simp only [decide_eq_true_eq] at hid
      rw [hid, hn]
      obtain ⟨a, ha, hino⟩ :=
        MetadataRow.attr_of_readable (readable_of_mem_tmetadata hread hm') n _
      exact ⟨a, ha, hino.trans hid⟩

/-! ### Runs -/

/-- **Time travel of directories.** After any run of operations on the namespace with strictly
increasing stamps in the log of `dentry`, directory reads at every past time list exactly what the
directory held then if and only if no operation was a rename to another place that the tables
allowed. Without such a rename, and with a clock that never goes back, lookups are right too. -/
theorem rewound_directories_iff (clock : ℕ → ℕ) (self : Sqlite) (now : Now)
    (ops : List NamespaceOp)
    (hstamps : (ops.foldl (NamespaceOp.run self)
      (self.init now (Db.empty X clock)).1).dentry.StrictlyOrdered) :
    let db₀ := (self.init now (Db.empty X clock)).1
    let db := ops.foldl (NamespaceOp.run self) db₀
    (∀ time, ListsHeld db time ∧ (Monotone clock → FindsHeld db time)) ↔ NoRename self db₀ ops := by
  intro db₀ db
  have hplain₀ : PlainHistory db₀ :=
    (self.keeps_init (closed_plainHistory false) now).fst (by simp [PlainHistory, Db.empty])
  constructor
  · intro h
    by_contra hno
    have hhist : PlainOrMovesHistory db :=
      NamespaceOp.foldl_run_keeps (closed_plainOrMovesHistory true true) self ops
        fun c hc => Or.inl (hplain₀ c hc)
    obtain ⟨time, htime⟩ :=
      not_listsHeld_of_moves hstamps hhist (movesInHistory_of_not_noRename hno)
    exact htime (h time).1
  · intro hno time
    have hplain := hno.plainHistory hplain₀
    refine ⟨listsHeld_of_plainHistory hstamps hplain time, fun hclock => ?_⟩
    have hdated : db.Dated clock :=
      NamespaceOp.foldl_run_keeps (Db.closed_dated hclock true true) self ops
        ((self.keeps_init (Db.closed_dated hclock true true) now).fst (Db.dated_empty clock))
    have hread : ReadableMetadata db :=
      NamespaceOp.foldl_run_keeps (closed_readableMetadata true) self ops
        ((self.keeps_init (closed_readableMetadata true) now).fst
          (by simp [ReadableMetadata, Db.empty]))
    exact findsHeld_of_plainHistory hdated hread hstamps hplain time

/-- A file is made in the root. -/
theorem rewound_directories_iff_sample :
    let ops := [NamespaceOp.addInodeAndDentry epoch 1 [97] (Sqlite.sampleAttr .RegularFile)]
    let db := ops.foldl (NamespaceOp.run .new) Sqlite.sampleDb
    (∀ time, ListsHeld db time ∧ (Monotone (id : ℕ → ℕ) → FindsHeld db time)) ↔
      NoRename .new Sqlite.sampleDb ops :=
  rewound_directories_iff (X := .sample) id .new epoch
    [.addInodeAndDentry epoch 1 [97] (Sqlite.sampleAttr .RegularFile)]
    (by unfold AuditedTable.StrictlyOrdered; decide)

/-- A file that was renamed is listed under its old name too. -/
theorem renamed_entry_stays_listed :
    let db := [NamespaceOp.addInodeAndDentry epoch 1 [97] (Sqlite.sampleAttr .RegularFile),
      .moveDentry epoch 1 [97] 1 [98]].foldl (NamespaceOp.run .new) Sqlite.sampleDb
    db.dentry.StrictlyOrdered ∧ db.dentry.findAt 99 (1, [97]) = none ∧
      ((Sqlite.newAtTime db 99).lookupAtTime 1 [97] db).2 ≠ .ok none ∧
      ∃ l, ((Sqlite.newAtTime db 99).getDentryAtTime 1 db).2 = .ok l ∧
        ⟨1, 2, .RegularFile, [97]⟩ ∈ l := by
  refine ⟨?_, by decide, by decide, _, rfl, by decide⟩
  unfold AuditedTable.StrictlyOrdered
  decide

end TemporalFs
