import Mathlib
import TemporalFs.Lib.Replay
import TemporalFs.Db.Init
import TemporalFs.Db.Contents
import TemporalFs.History.Blocks

/-!
# Rebuilding the blocks from their log

`init` builds the table `bdata` from the log of `data` (`applyDiffs`): for each block whose last
insertion follows its last deletion it applies the differences logged after that insertion. A
truncation replaces a block without a deletion, and then the insertion starts the block anew. So
`bdata` holds the same rows as `data`, provided that the numbers it reads back fit into a `u32`.

## Main definitions

* `patched`: the row that `applyBrf` builds of a block.
* `Db.Initialised`: the root is in place and the numbers in use fit into a `u32`.

## Main results

* `Db.Replays.patched_eq_find`, `Db.Replays.exists_brf_of_find`: the blocks that are rebuilt are the
  present ones.
* `bdata_eq_data`: after `init`, the tables `bdata` and `data` hold the same rows.
-/

namespace TemporalFs

variable {X : Externals}

/-! ### The blocks that are rebuilt -/

/-- The log of a block: whole blocks and differences. -/
def Db.blockLog (db : Db X) (k : ℕ × ℕ) : List (AuditRow Bytes) :=
  keyLog (dataSpec X).key DataRow.data db.data.audit k

theorem maxSeq_eq_greatestSeq (db : Db X) (op : TgOp) (k : ℕ × ℕ) :
    maxSeq db.data.audit op k = greatestSeq (db.blockLog k) op := by
  unfold maxSeq greatestSeq Db.blockLog keyLog
  rw [List.filter_map, List.map_map, List.filter_filter]
  refine congrArg List.max? (congrArg₂ List.map rfl (List.filter_congr fun e _ => ?_))
  exact Bool.decide_and ..

/-- The difference logged for an update turns the old block into the new one. -/
theorem applyPatch_logged (hX : X.Lawful) (old new : DataRow) :
    applyPatch X old.data ((dataSpec X).loggedUpdate old new).data = new.data := by
  simp [applyPatch, dataSpec, DataRow.withData, hX.uncompress_compress, hX.deltaApply_create]

/-- The log of each block tells what the block holds. -/
def Db.Replays (db : Db X) : Prop :=
  ∀ i k, replay (applyPatch X) (db.blockLog (i, k)) = db.blocks i k

/-- It does so where the differences could be applied in all changes so far. -/
theorem Db.replays_of_history (db : Db X) (h : ∀ c ∈ db.data.history, ∀ old ∈ c.before,
    ∀ new ∈ c.after,
      applyPatch X old.data ((dataSpec X).loggedUpdate old new).data = new.data) : db.Replays :=
  fun i k => db.data.replay_keyLog_of_history rfl (fun _ => rfl) (fun _ _ => rfl) h (i, k)

theorem Externals.Lawful.replays (hX : X.Lawful) (db : Db X) : db.Replays :=
  db.replays_of_history fun _ _ old _ new _ => applyPatch_logged hX old new

/-- The data that `applyBrf` reads of a block. -/
def brfData (log : List (AuditRow DataRow)) (brf : BlockRelevantFrom) : List Bytes :=
  (log.filter fun e => e.payload.fileId = brf.fileId ∧ e.payload.blockNum = brf.blockNum ∧
    e.seq ≥ brf.seq).map fun e => e.payload.data

/-- The row that `applyBrf` builds. -/
def patched (X : Externals) (log : List (AuditRow DataRow)) (brf : BlockRelevantFrom) : DataRow :=
  ⟨brf.fileId, brf.blockNum, (brfData log brf).tail.foldl (applyPatch X)
    ((brfData log brf).headD [])⟩

theorem brfData_eq (db : Db X) (brf : BlockRelevantFrom) : brfData db.data.audit brf =
    ((db.blockLog (brf.fileId, brf.blockNum)).filter fun e => e.seq ≥ brf.seq).map
      AuditRow.payload := by
  unfold brfData Db.blockLog keyLog
  rw [List.filter_map, List.map_map, List.filter_filter]
  refine congrArg₂ List.map rfl (List.filter_congr fun e _ => ?_)
  rw [Function.comp_apply, ← Bool.decide_and, decide_eq_decide]
  have hkey : (dataSpec X).key e.payload = (brf.fileId, brf.blockNum) ↔
      e.payload.fileId = brf.fileId ∧ e.payload.blockNum = brf.blockNum := Prod.mk_inj
  rw [hkey]
  exact ⟨fun ⟨h₁, h₂, h₃⟩ => ⟨h₃, h₁, h₂⟩, fun ⟨h₃, h₁, h₂⟩ => ⟨h₁, h₂, h₃⟩⟩

theorem mem_maxCreationSeqs {log : List (AuditRow DataRow)} {brf : BlockRelevantFrom} :
    brf ∈ maxCreationSeqs log ↔
      maxSeq log .INSERT (brf.fileId, brf.blockNum) = some brf.seq ∧
        ∀ d, maxSeq log .DELETE (brf.fileId, brf.blockNum) = some d → d < brf.seq := by
  unfold maxCreationSeqs
  rw [List.mem_filterMap]
  constructor
  · rintro ⟨k, -, hk⟩
    split at hk
    · exact absurd hk (by simp)
    · rename_i cr hcr
      split at hk
      · rename_i hde
        obtain rfl := Option.some.inj hk
        exact ⟨hcr, fun d hd => by rw [hde] at hd; exact absurd hd (by simp)⟩
      · rename_i de hde
        split_ifs at hk with hlt
        obtain rfl := Option.some.inj hk
        refine ⟨hcr, fun d hd => ?_⟩
        rw [hde] at hd
        exact Option.some.inj hd ▸ hlt
  · rintro ⟨hcr, hde⟩
    refine ⟨(brf.fileId, brf.blockNum), ?_, ?_⟩
    · unfold maxSeq at hcr
      have hmem := (List.max?_eq_some_iff.1 hcr).1
      obtain ⟨e, he, -⟩ := List.mem_map.1 hmem
      obtain ⟨he, hop⟩ := List.mem_filter.1 he
      rw [decide_eq_true_eq] at hop
      exact (List.mem_insertionSort _).2 (List.mem_dedup.2 (List.mem_map.2 ⟨e, he, hop.2⟩))
    · simp only [hcr]
      split
      · rfl
      · rename_i d hd
        rw [if_pos (hde d hd)]

/-- **A rebuilt block is the present one.** -/
theorem Db.Replays.patched_eq_find {db : Db X} (h : db.Replays) {brf : BlockRelevantFrom}
    (hbrf : brf ∈ maxCreationSeqs db.data.audit) : brfData db.data.audit brf ≠ [] ∧
      db.data.find (brf.fileId, brf.blockNum) = some (patched X db.data.audit brf) := by
  obtain ⟨hcr, hde⟩ := mem_maxCreationSeqs.1 hbrf
  rw [maxSeq_eq_greatestSeq] at hcr
  simp only [maxSeq_eq_greatestSeq] at hde
  obtain ⟨b, patches, hdata, hreplay⟩ :=
    replay_of_created (applyPatch X) (numbered_keyLog ..) hcr hde
  change replay (applyPatch X) (db.blockLog (brf.fileId, brf.blockNum)) = _ at hreplay
  rw [h] at hreplay
  have hbrfData : brfData db.data.audit brf = b :: patches := (brfData_eq db brf).trans hdata
  refine ⟨by simp [hbrfData], ?_⟩
  rw [db.data_find_eq, hreplay, patched, hbrfData]
  rfl

/-- **A present block is rebuilt.** -/
theorem Db.Replays.exists_brf_of_find {db : Db X} (h : db.Replays) {i k : ℕ} {r : DataRow}
    (hr : db.data.find (i, k) = some r) :
    ∃ brf ∈ maxCreationSeqs db.data.audit, (brf.fileId, brf.blockNum) = (i, k) := by
  by_contra hnone
  have hreplay : replay (applyPatch X) (db.blockLog (i, k)) = none := by
    refine replay_of_not_created (numbered_keyLog ..) ?_
    cases hcr : greatestSeq (db.blockLog (i, k)) .INSERT with
    | none => exact Or.inl rfl
    | some n =>
      refine Or.inr ⟨n, ?_⟩
      by_contra hde
      refine hnone ⟨⟨i, k, n⟩, mem_maxCreationSeqs.2 ⟨?_, fun d hd => ?_⟩, rfl⟩
      · rw [maxSeq_eq_greatestSeq, hcr]
      · rw [maxSeq_eq_greatestSeq] at hd
        by_contra hlt
        exact hde ⟨d, rfl, hd, hlt⟩
  rw [h, Db.blocks, hr] at hreplay
  exact absurd hreplay (by simp)

/-- No block is rebuilt twice. -/
theorem nodup_maxCreationSeqs (log : List (AuditRow DataRow)) :
    ((maxCreationSeqs log).map fun b => (b.fileId, b.blockNum)).Nodup := by
  have hkeys : ∀ (f : ℕ × ℕ → Option BlockRelevantFrom),
      (∀ k b, f k = some b → (b.fileId, b.blockNum) = k) → ∀ l : List (ℕ × ℕ),
        ((l.filterMap f).map fun b => (b.fileId, b.blockNum)).Sublist l := by
    intro f hf l
    induction l with
    | nil => exact List.Sublist.refl _
    | cons k l ih =>
      cases hb : f k with
      | none => rw [List.filterMap_cons_none hb]; exact ih.cons k
      | some b =>
        rw [List.filterMap_cons_some hb, List.map_cons, hf k b hb]
        exact ih.cons_cons k
  have hnodup : (blockKeys log).Nodup :=
    (List.perm_insertionSort _ _).nodup_iff.2 (List.nodup_dedup _)
  refine hnodup.sublist (hkeys _ (fun k b hb => ?_) _)
  split at hb
  · exact absurd hb (by simp)
  · split at hb
    · obtain rfl := Option.some.inj hb
      rfl
    · split_ifs at hb
      obtain rfl := Option.some.inj hb
      rfl

/-- The rows built for the blocks are the rows of the table. -/
theorem Db.Replays.perm_patched {db : Db X} (h : db.Replays) :
    ((maxCreationSeqs db.data.audit).map (patched X db.data.audit)).Perm db.data.rows := by
  have hnd := nodup_maxCreationSeqs db.data.audit
  have hnd₁ : ((maxCreationSeqs db.data.audit).map (patched X db.data.audit)).Nodup := by
    refine List.Nodup.of_map (dataSpec X).key ?_
    rw [List.map_map]
    exact hnd
  have hnd₂ : db.data.rows.Nodup := List.Nodup.of_map _ db.data.nodup_keys
  refine (List.perm_ext_iff_of_nodup hnd₁ hnd₂).2 fun r => ?_
  rw [List.mem_map]
  constructor
  · rintro ⟨brf, hbrf, rfl⟩
    exact AuditedTable.mem_of_find (h.patched_eq_find hbrf).2
  · intro hr
    have hfind : db.data.find (r.fileId, r.blockNum) = some r := db.data.find_key hr
    obtain ⟨brf, hbrf, hk⟩ := h.exists_brf_of_find hfind
    refine ⟨brf, hbrf, ?_⟩
    have := (h.patched_eq_find hbrf).2
    rw [hk, hfind] at this
    exact (Option.some.inj this).symm

theorem perm_patched (hX : X.Lawful) (db : Db X) :
    ((maxCreationSeqs db.data.audit).map (patched X db.data.audit)).Perm db.data.rows :=
  (hX.replays db).perm_patched

/-! ### Building the table -/

open Proc

/-- The database with another table `bdata`. -/
def Db.withBdata (db : Db X) (rows : Option (List DataRow)) : Db X := { db with bdata := rows }

theorem applyBrf_spec (db : Db X) (brf : BlockRelevantFrom) (rows : List DataRow)
    (hdata : brfData db.data.audit brf ≠ []) :
    (applyBrf true brf).Ensures (db.withBdata (some rows))
      (fun _ db' => db' = db.withBdata (some (rows ++ [patched X db.data.audit brf])))
      (fun _ _ => False) := by
  unfold applyBrf executeAll
  rw [ensures_bind, ensures_get]
  obtain ⟨b, patches, hb⟩ := List.exists_cons_of_ne_nil hdata
  have hlist : ((db.withBdata (some rows)).data.audit.filter fun e =>
      e.payload.fileId = brf.fileId ∧ e.payload.blockNum = brf.blockNum ∧ e.seq ≥ brf.seq).map
        (fun e => e.payload.data) = b :: patches := hb
  dsimp only
  rw [hlist]
  simp only [ensures_bind, ensures_require, ensures_modify, or_true, not_true_eq_false,
    false_implies, and_true, true_implies]
  rw [patched, hb]
  rfl

theorem each_applyBrf_spec (db : Db X) : (brfs : List BlockRelevantFrom) →
    (∀ brf ∈ brfs, brfData db.data.audit brf ≠ []) → (rows : List DataRow) →
    (each (applyBrf true) brfs).Ensures (db.withBdata (some rows))
      (fun _ db' => db' = db.withBdata (some (rows ++ brfs.map (patched X db.data.audit))))
      (fun _ _ => False)
  | [], _, rows => by
    refine (ensures_pure ()).2 ?_
    rw [List.map_nil, List.append_nil]
  | brf :: brfs, hdata, rows => by
    refine (ensures_bind _ _).2 ((applyBrf_spec db brf rows (hdata brf List.mem_cons_self)).mono
      (fun _ db' h => ?_) fun _ _ h => h)
    subst h
    refine (each_applyBrf_spec db brfs (fun b hb => hdata b (List.mem_cons_of_mem _ hb)) _).mono
      (fun _ db' h => ?_) fun _ _ h => h
    rw [h, List.map_cons, List.append_assoc, List.singleton_append]

/-- The numbers of the rebuilt blocks, which are read as `u32`. -/
def Db.BlocksFit (db : Db X) : Prop :=
  ∀ k r, db.data.find k = some r → r.fileId < 2 ^ 32 ∧ r.blockNum < 2 ^ 32

theorem Db.Replays.applyDiffs_spec {db : Db X} (h : db.Replays) (hfit : db.BlocksFit)
    (hseq : db.data.audit.length < 2 ^ 32) :
    (applyDiffs true).Ensures db
      (fun _ db' => db' = db.withBdata
        (some ((maxCreationSeqs db.data.audit).map (patched X db.data.audit))))
      (fun _ _ => False) := by
  have hbrfs : ∀ b ∈ maxCreationSeqs db.data.audit,
      b.fileId < 2 ^ 32 ∧ b.blockNum < 2 ^ 32 ∧ b.seq < 2 ^ 32 := by
    intro b hb
    obtain ⟨-, hfind⟩ := h.patched_eq_find hb
    have hnum := hfit _ _ hfind
    refine ⟨hnum.1, hnum.2, ?_⟩
    obtain ⟨hcr, -⟩ := mem_maxCreationSeqs.1 hb
    unfold maxSeq at hcr
    obtain ⟨e, he, hseq⟩ := List.mem_map.1 (List.max?_eq_some_iff.1 hcr).1
    obtain ⟨c, hc, rfl⟩ := List.mem_map.1 (List.mem_filter.1 he).1
    have hle := db.data.timeline.numbered.2 c hc
    have hlen : db.data.audit.length = db.data.history.length := List.length_map _
    omega
  unfold applyDiffs getMaxCreationSeq executeAll
  simp only [ensures_bind, ensures_modify, ensures_get, ensures_require, ensures_pure]
  refine ⟨fun _ => ?_, fun h => h hbrfs⟩
  exact each_applyBrf_spec db _ (fun b hb => (h.patched_eq_find hb).1) []

theorem applyDiffs_spec (hX : X.Lawful) (db : Db X) (hfit : db.BlocksFit)
    (hseq : db.data.audit.length < 2 ^ 32) :
    (applyDiffs true).Ensures db
      (fun _ db' => db' = db.withBdata
        (some ((maxCreationSeqs db.data.audit).map (patched X db.data.audit))))
      (fun _ _ => False) :=
  (hX.replays db).applyDiffs_spec hfit hseq

/-! ### Initialised databases -/

/-- A database on which `init` has run. The numbers in use fit into a `u32`, as the methods take
and return them as such. -/
structure Db.Initialised (db : Db X) : Prop extends db.RootInPlace where
  sequence_lt : db.sqliteSequence < 2 ^ 32
  block_lt : ∀ i k, (db.blocks i k).isSome → k < 2 ^ 32

theorem Db.initialised_initialised (clock : ℕ → ℕ) (self : Sqlite) (now : Now) :
    (Db.initialised X clock self now).Initialised := by
  have h := Db.onlyRoot_initialised (X := X) clock self now
  refine ⟨h.rootInPlace, ?_, fun i k hk => ?_⟩
  · rw [h.sqliteSequence]
    decide
  · rw [Db.blocks, h.data] at hk
    simp at hk

theorem Db.Initialised.blocksFit {db : Db X} (h : db.Initialised) : db.BlocksFit := by
  intro k r hr
  have hkey : (r.fileId, r.blockNum) = k := AuditedTable.key_of_find hr
  refine ⟨(db.sequence_bound _ (db.data_fk k r hr)).trans_lt h.sequence_lt,
    h.block_lt r.fileId _ ?_⟩
  rw [Db.blocks, hkey, hr]
  rfl

/-- The block number that an operation is given is a `u32`. -/
def BlockOp.Fits : BlockOp → Prop
  | .writeData _ _ block _ _ => block < 2 ^ 32
  | _ => True

theorem Db.RootInPlace.not_unnamed {db : Db X} (h : db.RootInPlace) : ¬ db.Unnamed 1 :=
  fun hn => hn _ _ h.dot rfl

theorem Db.Initialised.collect {db : Db X} (h : db.Initialised) (i : ℕ) :
    (db.collect i).Initialised := by
  by_cases hi : i = 1
  · rw [hi, db.collect_of_not_unnamed 1 h.not_unnamed]
    exact h
  · refine ⟨⟨?_, ?_, ?_⟩, ?_, fun j k hk => ?_⟩
    · rw [db.metadata_find_collect i 1 (Ne.symm hi)]
      exact h.root
    · exact (db.dentry_find_collect i _ _).2 ⟨h.dot, fun _ => Ne.symm hi⟩
    · exact (db.dentry_find_collect i _ _).2 ⟨h.dotdot, fun _ => Ne.symm hi⟩
    · rw [Db.sqliteSequence_collect]
      exact h.sequence_lt
    · by_cases hu : db.Unnamed i
      · rw [db.collect_of_unnamed i hu, Db.blocks, Db.data_find_deleteMetadata] at hk
        split_ifs at hk
        · simp at hk
        · exact h.block_lt j k hk
      · rw [db.collect_of_not_unnamed i hu] at hk
        exact h.block_lt j k hk

theorem Db.Initialised.deleteAll_unnamed {db : Db X} (h : db.Initialised) :
    (db.deleteAll db.unnamed).Initialised := by
  have h₁ : 1 ∉ db.unnamed := fun hmem => h.not_unnamed ((db.mem_unnamed 1).1 hmem).2
  refine ⟨⟨?_, ?_, ?_⟩, ?_, fun j k hk => ?_⟩
  · rw [Db.metadata_find_deleteAll, if_neg h₁]
    exact h.root
  · exact (Db.dentry_find_deleteAll _ _ _ _).2 ⟨h.dot, h₁, h₁⟩
  · exact (Db.dentry_find_deleteAll _ _ _ _).2 ⟨h.dotdot, h₁, h₁⟩
  · rw [Db.sqliteSequence_deleteAll]
    exact h.sequence_lt
  · rw [Db.blocks_deleteAll] at hk
    split_ifs at hk
    · simp at hk
    · exact h.block_lt j k hk

/-- What a truncation leaves are blocks that were there, and the last one. -/
theorem isSome_truncatedBlock {offset : ℕ} {blocks : ℕ → Option Bytes} {k : ℕ}
    (h : (truncatedBlock offset blocks k).isSome) :
    k = offset / blockSize + 1 ∨ (blocks k).isSome := by
  unfold truncatedBlock at h
  split_ifs at h with h₁ h₂
  · exact Or.inl h₁.2
  · simp at h
  · exact Or.inr h

/-- A database that differs in blocks and in columns of `metadata` only. -/
theorem Db.Initialised.of_eq {db db' : Db X} (h : db.Initialised)
    (hm : ∀ i, (db'.metadata.find i).isSome = (db.metadata.find i).isSome)
    (hd : db'.dentry = db.dentry) (hs : db'.sqliteSequence = db.sqliteSequence)
    (hb : ∀ i k, (db'.blocks i k).isSome → k < 2 ^ 32) : db'.Initialised := by
  refine ⟨⟨?_, ?_, ?_⟩, hs.trans_lt h.sequence_lt, hb⟩
  · rw [hm]
    exact h.root
  · rw [hd]
    exact h.dot
  · rw [hd]
    exact h.dotdot

theorem BlockOp.run_initialised (self : Sqlite) {db : Db X} (h : db.Initialised) (op : BlockOp)
    (hop : op.Fits) : (op.run self db).Initialised := by
  cases op with
  | writeData now i k data size =>
    have hspec := self.writeData_spec now db i k data size
    change ((self.writeData now i k data size db).1).Initialised
    unfold Ensures at hspec
    split at hspec <;> rename_i heq <;> rw [heq]
    · refine h.of_eq (fun j => ?_) hspec.dentry hspec.sqliteSequence fun j b hb => ?_
      · simpa only [Option.isSome_map] using congrArg Option.isSome (hspec.metadata j)
      · rw [hspec.blocks] at hb
        split_ifs at hb with hjb
        · rw [hjb.2]
          exact hop
        · exact h.block_lt j b hb
    · exact hspec.1 ▸ h
  | updateInode now attr t =>
    have hspec := self.updateInode_spec now db attr t
    change ((self.updateInode now attr t db).1).Initialised
    unfold Ensures at hspec
    split at hspec <;> rename_i heq <;> rw [heq]
    · refine h.of_eq (fun j => ?_) hspec.dentry hspec.sqliteSequence fun j b hb => ?_
      · simpa only [Option.isSome_map] using congrArg Option.isSome (hspec.metadata j)
      · rw [hspec.blocks] at hb
        split_ifs at hb with hj
        · rcases isSome_truncatedBlock hb with rfl | hb
          · have hlt := attr.size.toNat_lt
            have := Nat.div_le_self attr.size.toNat blockSize
            unfold blockSize at *
            omega
          · exact h.block_lt _ b hb
        · exact h.block_lt j b hb
    · exact hspec.1 ▸ h
  | releaseData i =>
    change (db.deleteDataWhere fun r => r.fileId = i).Initialised
    refine h.of_eq (fun j => ?_) (db.dentry_deleteDataWhere _) (db.sqliteSequence_deleteDataWhere _)
      fun j b hb => ?_
    · rw [db.metadata_deleteDataWhere]
    rw [db.blocks_deleteDataWhere i (fun r => r.fileId = i) (fun _ => True) (by simp)] at hb
    split_ifs at hb
    · simp at hb
    · exact h.block_lt j b hb
  | deleteInodeIfNoref i =>
    have hspec := self.deleteInodeIfNoref_spec db i
    change ((self.deleteInodeIfNoref i db).1).Initialised
    unfold Ensures at hspec
    split at hspec <;> rename_i heq <;> rw [heq]
    · exact hspec ▸ h.collect i
    · exact hspec.elim
  | deleteAllNorefInode =>
    have hspec := self.deleteAllNorefInode_spec db
    change ((self.deleteAllNorefInode db).1).Initialised
    unfold Ensures at hspec
    split at hspec <;> rename_i heq <;> rw [heq]
    · exact hspec ▸ h.deleteAll_unnamed
    · exact hspec.elim

/-- The database after a list of operations, each on a connection of its own settings. -/
def runBlockOps (db : Db X) (ops : List (Sqlite × BlockOp)) : Db X :=
  ops.foldl (fun db op => op.2.run op.1 db) db

theorem runBlockOps_initialised (ops : List (Sqlite × BlockOp)) {db : Db X} (h : db.Initialised)
    (hops : ∀ op ∈ ops, op.2.Fits) : (runBlockOps db ops).Initialised := by
  induction ops generalizing db with
  | nil => exact h
  | cons op ops ih =>
    exact ih (op.2.run_initialised op.1 h (hops op List.mem_cons_self))
      fun op' hop' => hops op' (List.mem_cons_of_mem _ hop')

/-- **Replaying the log rebuilds the live blocks.** After any operations on the blocks of an
initialised database, with extensions that keep their laws, the next `init` builds a table `bdata`
with the same rows as `data`. -/
theorem bdata_eq_data (hX : X.Lawful) (db : Db X) (hdb : db.Initialised)
    (ops : List (Sqlite × BlockOp)) (hops : ∀ op ∈ ops, op.2.Fits)
    (hseq : (runBlockOps db ops).data.audit.length < 2 ^ 32) (self : Sqlite)
      (hself : self.extensions = true)
    (now : Now) : ∃ rows, (self.init now (runBlockOps db ops)).1.bdata = some rows ∧
      rows.Perm (runBlockOps db ops).data.rows ∧
      (self.init now (runBlockOps db ops)).1.data = (runBlockOps db ops).data := by
  have hinit := runBlockOps_initialised ops hdb hops
  generalize runBlockOps db ops = db' at hinit hseq ⊢
  have hspec := applyDiffs_spec hX db' hinit.blocksFit hseq
  rw [self.init_of_rootInPlace now hinit.toRootInPlace, hself]
  obtain ⟨_, db'', heq, h⟩ := hspec.exists_ok
  rw [heq, h]
  exact ⟨_, rfl, perm_patched hX db', rfl⟩

/-- A file of two blocks, of which the first was written twice. -/
theorem bdata_eq_data_sample :
    let db := runBlockOps Sqlite.sampleDb [(.new, .writeData epoch 1 1 [97] 1),
      (.new, .writeData epoch 1 1 [98] 1), (.new, .writeData epoch 1 2 [99] 4097)]
    ∃ rows, (Sqlite.new.init epoch db).1.bdata = some rows ∧ rows.Perm db.data.rows ∧
      (Sqlite.new.init epoch db).1.data = db.data :=
  bdata_eq_data Externals.sample_lawful Sqlite.sampleDb (Db.initialised_initialised id .new epoch)
    [(.new, .writeData epoch 1 1 [97] 1), (.new, .writeData epoch 1 1 [98] 1),
      (.new, .writeData epoch 1 2 [99] 4097)] (by simp [BlockOp.Fits]) (by decide) .new rfl epoch

end TemporalFs
