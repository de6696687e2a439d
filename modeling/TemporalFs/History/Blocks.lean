import Mathlib
import TemporalFs.Db.Steps

/-!
# Old file contents on a rewound mount

`newAtTime` fills the table `tdata` from the log of the table `data`, and `getDataAtTime`
answers from it. The log holds a whole block where a block was inserted or replaced, and a
compressed difference where it was overwritten (`audit_update_data`). The query behind `tdata`
takes what the last entry carries, and does not apply differences. So an old block is read
correctly exactly where the last entry of the block before that time is not an `UPDATE`; after one
the difference itself is returned.

## Main definitions

* `BlockOp`: the operations on blocks; `heldData`: the bytes held at a past time.
* `LoggedWhole`: the log of a block does not end with a difference.

## Main results

* `getDataAtTime_eq_heldData_iff`: a rewound read is right if and only if the log of the block
  up to the time does not end with a difference.
-/

namespace TemporalFs

variable {X : Externals}

/-- The operations that change blocks. -/
inductive BlockOp
  | writeData (now : Now) (inode block : ℕ) (data : Bytes) (size : UInt32)
  | updateInode (now : Now) (attr : DBFileAttr) (truncate : Bool)
  | releaseData (inode : ℕ)
  | deleteInodeIfNoref (inode : ℕ)
  | deleteAllNorefInode

/-- The database after an operation, whether it succeeds or not. -/
def BlockOp.run (self : Sqlite) (db : Db X) : BlockOp → Db X
  | .writeData now inode block data size => (self.writeData now inode block data size db).1
  | .updateInode now attr truncate => (self.updateInode now attr truncate db).1
  | .releaseData inode => (self.releaseData inode db).1
  | .deleteInodeIfNoref inode => (self.deleteInodeIfNoref inode db).1
  | .deleteAllNorefInode => (self.deleteAllNorefInode db).1

/-- The bytes that a block had after the last change of `data` stamped before `time`, zeros where
it had no row. -/
def heldData (db : Db X) (time inode block length : ℕ) : Bytes :=
  match db.data.findAt time (inode, block) with
  | some r => r.data
  | none => List.replicate length 0

/-- The last entry of the block before `time` is no difference, or one that happens to be the
block itself. -/
def LoggedWhole (db : Db X) (time inode block : ℕ) : Prop :=
  ∀ c, lastChange (dataSpec X).key (db.data.changesBefore time) (inode, block) = some c →
    c.entry.tgOp = .UPDATE → ∀ old ∈ c.before, ∀ new ∈ c.after,
      (dataSpec X).key old = (inode, block) → (dataSpec X).key new = (inode, block) →
        X.compress (X.deltaCreate old.data new.data) = new.data

/-! ### What a rewound read returns -/

/-- The bytes that the last entry of a block before a time carries, zeros where there is none or
it is a deletion. -/
def loggedData (db : Db X) (time inode block length : ℕ) : Bytes :=
  match lastChange (dataSpec X).key (db.data.changesBefore time) (inode, block) with
  | some c => if c.entry.tgOp = .DELETE then List.replicate length 0 else c.entry.payload.data
  | none => List.replicate length 0

theorem dataAtTime_eq_loggedData {db : Db X} (hdb : db.data.StrictlyOrdered)
    (time inode block length : ℕ) :
    Sqlite.dataAtTime inode block length (Sqlite.tempTables db time) =
      loggedData db time inode block length := by
  have hfind : (Sqlite.tempTables db time).tdata.find?
      (fun r => r.fileId = inode ∧ r.blockNum = block) =
      (view (dataSpec X).key db.data.audit time).find?
        fun r => (dataSpec X).key r = (inode, block) := by
    refine congrArg (List.find? · _) (funext fun r => ?_)
    rw [decide_eq_decide, dataSpec_key, Prod.mk.injEq]
  unfold Sqlite.dataAtTime loggedData
  rw [hfind, db.data.find?_view hdb]
  cases lastChange (dataSpec X).key (db.data.changesBefore time) (inode, block) with
  | none => rfl
  | some c =>
    rw [Option.bind_some]
    by_cases hop : c.entry.tgOp = .DELETE
    · simp only [hop, ↓reduceIte]
    · simp only [hop, ↓reduceIte]

theorem getDataAtTime_snd (now : Now) (db : Db X) (time inode block length : ℕ) :
    ((Sqlite.newAtTime db time).getDataAtTime now inode block length db).2 =
      .ok (Sqlite.dataAtTime inode block length (Sqlite.tempTables db time)) := rfl

/-- The last entry of a block carries the bytes held if and only if it is no difference. -/
theorem loggedData_eq_heldData_iff {db : Db X} (hdb : db.data.StrictlyOrdered)
    (time inode block length : ℕ) :
    loggedData db time inode block length = heldData db time inode block length ↔
      LoggedWhole db time inode block := by
  unfold loggedData heldData
  rw [db.data.findAt_eq_find_cut hdb.ordered]
  have hcases := AuditedTable.find_lastChange rfl (dataSpec X).key (fun _ => rfl)
    (fun _ _ => rfl) (db.data.cut hdb.ordered time) (inode, block)
  rw [show (db.data.cut hdb.ordered time).history = db.data.changesBefore time from rfl] at hcases
  rcases hcases with ⟨hc, hf⟩ | ⟨c, hc, ⟨hop, r, hf, hpay⟩ |
    ⟨hop, old, hold, new, hnew, holdk, hf, hpay⟩ | ⟨hop, hf⟩⟩
  · rw [hc, hf]
    exact iff_of_true rfl fun c hc' => by simp [hc] at hc'
  · rw [hc, hf]
    refine iff_of_true ?_ fun c' hc' hop' => ?_
    · simp only [hop, reduceCtorEq, ↓reduceIte, hpay]
      rfl
    · obtain rfl := Option.some.inj (hc.symm.trans hc')
      rw [hop] at hop'
      exact absurd hop' (by simp)
  · rw [hc, hf]
    simp only [hop, reduceCtorEq, ↓reduceIte, hpay]
    constructor
    · intro heq c' hc' _ old' hold' new' hnew' holdk' hnewk'
      obtain rfl := Option.some.inj (hc.symm.trans hc')
      obtain ⟨hstep, hnd⟩ :=
        (db.data.cut hdb.ordered time).timeline.step_of_mem (mem_of_lastChange hc)
      obtain rfl := List.inj_on_of_nodup_map hnd hold' hold (holdk'.trans holdk.symm)
      obtain rfl := List.inj_on_of_nodup_map (hstep.nodup_keys hnd) hnew' hnew
        (hnewk'.trans (AuditedTable.key_of_find hf).symm)
      exact heq
    · intro hw
      exact hw c hc hop old hold new hnew holdk (AuditedTable.key_of_find hf)
  · rw [hc, hf]
    refine iff_of_true ?_ fun c' hc' hop' => ?_
    · simp only [hop, ↓reduceIte]
    · obtain rfl := Option.some.inj (hc.symm.trans hc')
      rw [hop] at hop'
      exact absurd hop' (by simp)

/-- **Time travel of file contents.** After any sequence of block operations with strictly
increasing stamps, a read at any past time returns the bytes that the block had then if and only if
the last entry of the block stamped before that time does not carry a difference. A difference is
logged where a block is overwritten; the read returns it as it stands. -/
theorem getDataAtTime_eq_heldData_iff (db₀ : Db X) (ops : List BlockOp) (now : Now)
    (time inode block length : ℕ)
    (hstamps : (ops.foldl (BlockOp.run .new) db₀).data.StrictlyOrdered) :
    let db := ops.foldl (BlockOp.run .new) db₀
    ((Sqlite.newAtTime db time).getDataAtTime now inode block length db).2 =
        .ok (heldData db time inode block length) ↔
      LoggedWhole db time inode block := by
  intro db
  rw [getDataAtTime_snd, Except.ok.injEq, dataAtTime_eq_loggedData hstamps]
  exact loggedData_eq_heldData_iff hstamps time inode block length

/-- Two blocks are written, and the first one again. -/
theorem getDataAtTime_eq_heldData_iff_sample :
    let db := [BlockOp.writeData epoch 1 1 [97] 1, .writeData epoch 1 2 [98] 2,
      .writeData epoch 1 1 [99] 2].foldl (BlockOp.run .new) Sqlite.sampleDb
    ((Sqlite.newAtTime db 9).getDataAtTime epoch 1 1 1 db).2 = .ok (heldData db 9 1 1 1) ↔
      LoggedWhole db 9 1 1 :=
  getDataAtTime_eq_heldData_iff Sqlite.sampleDb [.writeData epoch 1 1 [97] 1,
    .writeData epoch 1 2 [98] 2, .writeData epoch 1 1 [99] 2] epoch 9 1 1 1
    (by unfold AuditedTable.StrictlyOrdered; decide)

/-- A block that was overwritten reads as the compressed difference, although the extensions keep
their laws and the stamps increase. -/
theorem overwritten_block_is_lost :
    let db := [BlockOp.writeData epoch 1 1 [97] 1, .writeData epoch 1 1 [98] 1].foldl
      (BlockOp.run .new) Sqlite.sampleDb
    Externals.sample.Lawful ∧ db.data.StrictlyOrdered ∧ heldData db 99 1 1 1 = [98] ∧
      ((Sqlite.newAtTime db 99).getDataAtTime epoch 1 1 1 db).2 ≠ .ok [98] := by
  refine ⟨Externals.sample_lawful, ?_, by decide, by decide⟩
  unfold AuditedTable.StrictlyOrdered
  decide

end TemporalFs
