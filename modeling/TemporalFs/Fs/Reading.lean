import Mathlib
import TemporalFs.Fs.Writing

/-!
# Reading

`read` goes through the range block by block, from the position it has reached to the end of the
block or of the range. What is not stored is read as zeros, and the reading is cut nowhere: the size
of the file plays no part in it.

The induction is on the blocks that are left. In the middle of the range each step reads a whole
block, so that the position reached is a multiple of the block size from the second step on; only
the first and the last block are cut. What is read is compared with the bytes that the blocks hold
one after the other (`Lib.SparseBlocks`).

## Main results

* `SqliteFs.readLoop_spec`: the loop.
* `SqliteFs.read_replies`: the whole request.
-/

namespace TemporalFs

namespace SqliteFs

open Proc

variable {X : Externals} {s : SqliteFs X} {env : Env}

theorem readBlock_spec (hre : s.rewind = false) (i k length : ℕ) :
    (readBlock env i k length).Ensures s
      (fun bytes s' => bytes = (s.conn.blocks i k).getD (List.replicate length 0) ∧
        ∃ db', s' = s.withConn db' ∧ s.conn.SameUpTo .atimeless db')
      (fun e _ => e = .reply (.error .ENOENT) ∧ env.fails (.getData k) = true) := by
  unfold readBlock
  simp only [ensures_bind, ensures_get, ensures_callOrNoEnt, hre, Bool.false_eq_true, ↓reduceIte]
  refine ⟨fun hf => ⟨trivial, hf⟩, fun _ => ?_⟩
  exact (Sqlite.getData_spec _ _ _ _ _ _).mono (fun _ db h => ⟨h.1, db, rfl, h.2⟩)
    fun _ _ h => h.elim

/-- The part of a block that is read in one round: from the position `lo` in the block to its end,
or to that of the range. -/
def readEnd (size lo : ℕ) : ℕ := if (size + lo) / blockSize ≥ 1 then blockSize else size + lo

theorem readEnd_bounds {size lo : ℕ} (hsize : size ≠ 0) (hlo : lo < blockSize) :
    lo < readEnd size lo ∧ readEnd size lo ≤ blockSize ∧ readEnd size lo - lo ≤ size := by
  unfold readEnd
  unfold blockSize at *
  split_ifs <;> omega

/-- The bytes of one round, in terms of positions in the file. -/
theorem stretch_of_block (db : Db X) (i : ℕ) {offset hi : ℕ} (hhi : hi ≤ blockSize)
    {block : Bytes} (hlen : hi ≤ block.length) (hlo : offset % blockSize ≤ hi)
    (hblock : ∀ q < hi, block.getD q 0 =
      ((db.blocks i (offset / blockSize + 1)).getD []).getD q 0) :
    (block.take hi).drop (offset % blockSize) =
      stretch (db.bytes i) offset (hi - offset % blockSize) := by
  rw [drop_take_eq_stretch hlen]
  refine stretch_congr fun k hk => ?_
  have hmod : (offset + k) % blockSize = offset % blockSize + k := by
    unfold blockSize at *
    omega
  have hdiv : (offset + k) / blockSize = offset / blockSize := by
    unfold blockSize at *
    omega
  rw [hblock _ (by omega), Db.bytes, byteAt, hdiv, hmod]

/-- **The loop of `read`** collects the bytes of the range. -/
theorem readLoop_spec (ino fuel : ℕ) {size offset : ℕ} (data : Bytes) (hre : s.rewind = false)
    (hfits : offset + size < 2 ^ 32) (hfuel : size ≤ fuel) :
    (readLoop env ino fuel size offset data).Ensures s
      (fun bytes s' => bytes = data ++ stretch (s.conn.bytes (asU32 ino)) offset size ∧
        ∃ db', s' = s.withConn db' ∧ s.conn.SameUpTo .atimeless db')
      (fun e _ => e = .reply (.error .ENOENT) ∧ ∃ k, env.fails (.getData k) = true) := by
  induction fuel generalizing s size offset data with
  | zero =>
    obtain rfl : size = 0 := Nat.le_zero.1 hfuel
    exact ⟨by simp, s.conn, rfl, .refl _ _⟩
  | succ fuel ih =>
    unfold readLoop
    rw [ensures_ite]
    refine ⟨fun hzero => ?_, fun hsize => ?_⟩
    · subst hzero
      exact ⟨by simp, s.conn, rfl, .refl _ _⟩
    have hlo : offset % blockSize < blockSize := Nat.mod_lt _ (by decide)
    obtain ⟨hround, hhi, hle⟩ := readEnd_bounds hsize hlo
    have hwanted : size + offset % blockSize < 2 ^ 32 := by
      have := Nat.mod_le offset blockSize
      omega
    rw [ensures_bind]
    refine (readBlock_spec hre _ _ _).mono (fun bytes s₁ h₁ => ?_) fun e _ h => ⟨h.1, _, h.2⟩
    obtain ⟨rfl, db₁, rfl, h₁⟩ := h₁
    rw [ensures_bind, ensures_u32Add]
    refine ⟨fun _ => ?_, fun hc => absurd hwanted hc⟩
    have hfilled := getD_filled_block (s.conn.blocks (asU32 ino) (offset / blockSize + 1))
      blockSize (readEnd size (offset % blockSize))
    rw [← readEnd]
    generalize readEnd size (offset % blockSize) = hi at *
    rw [ensures_bind, ensures_slice]
    refine ⟨fun _ => ?_, fun hc => absurd ⟨hround.le, hfilled.1⟩ hc⟩
    rw [ensures_bind, ensures_u32Add]
    refine ⟨fun _ => ?_, fun hc => absurd (lt_of_le_of_lt (Nat.add_le_add_left hle _) hfits) hc⟩
    refine (ih (s := s.withConn db₁) _ hre (by omega) (by omega)).mono (fun bytes s₂ h₂ => ?_)
      fun _ _ h => h
    obtain ⟨rfl, db₂, rfl, h₂⟩ := h₂
    refine ⟨?_, db₂, rfl, h₁.trans h₂⟩
    rw [conn_withConn, Db.bytes_congr (Db.blocks_eq_of_data_eq h₁.data _),
      stretch_of_block s.conn (asU32 ino) hhi hfilled.1 hround.le hfilled.2,
      List.append_assoc, ← stretch_add, Nat.add_sub_cancel' hle]

/-- The whole request, where its range ends below `2 ^ 32` and no call fails. -/
theorem read_replies (hre : s.rewind = false) (hcalls : ∀ c, env.fails c = false) (ino fh : ℕ)
    {offset : ℤ} {size : ℕ} (hoffset : 0 ≤ offset) (hfits : offset + size < 2 ^ 32) :
    (handle env (.read ino fh offset size) s).2 =
        .replied (.data (stretch (s.conn.bytes (asU32 ino)) offset.toNat size)) ∧
      s.conn.SameUpTo .atimeless (s.after (env, .read ino fh offset size)).conn := by
  have hoff : i64AsU32 offset = offset.toNat := by
    unfold i64AsU32
    omega
  refine outcome_of_ensures (P := fun s' out => out =
    .replied (.data (stretch (s.conn.bytes (asU32 ino)) offset.toNat size)) ∧
      s.conn.SameUpTo .atimeless s'.conn) ?_
  unfold read
  rw [hoff, ensures_bind]
  refine (readLoop_spec ino size [] hre (by omega) le_rfl).mono (fun bytes s' h => ?_)
    fun e s' h => ?_
  · obtain ⟨rfl, db', rfl, h⟩ := h
    exact ⟨rfl, h⟩
  · obtain ⟨-, k, hfails⟩ := h
    exact absurd hfails (by simp [hcalls])

end SqliteFs

end TemporalFs
