import Mathlib
import TemporalFs.Lib.SparseBlocks
import TemporalFs.Fs.Mounts

/-!
# Writing

`write` goes through the blocks of the range one by one. A block at an end of the range is read,
changed in part and stored again; the others are stored as they come. As long as the end of the
range fits into a `u32`, the blocks together hold the old bytes with the new ones over them.

## Main definitions

* `Db.fileSize`: the size of a file; `Db.bytes`: its bytes, without end.
* `Db.Overlaid`: what the blocks stored so far have changed; `Db.Overwritten`: all of them.
* `endOfRange`, `writtenBlocks`: the end of the range as the program computes it, and its blocks.

## Main results

* `SqliteFs.writeBlock_spec`: one block.
* `SqliteFs.write_blocks_spec`: the loop.
* `SqliteFs.write_spec`: the whole request.
-/

namespace TemporalFs

variable {X : Externals}

/-- The `setattr` of the size alone, as `truncate` sends it. -/
def SqliteFs.SetAttr.ofSize (size : ℕ) : SqliteFs.SetAttr :=
  ⟨none, none, none, some size, none, none, none, none⟩

/-- The size of the file `i`, zero where there is none. -/
def Db.fileSize (db : Db X) (i : ℕ) : ℕ := ((db.metadata.find i).map fun m => m.size.toNat).getD 0

/-- The byte of the file `i` at a position; what is not stored is zero. -/
def Db.bytes (db : Db X) (i p : ℕ) : UInt8 := byteAt blockSize (db.blocks i) p

theorem Db.blocks_eq_of_data_eq {db db' : Db X} (h : db'.data = db.data) (i : ℕ) :
    db'.blocks i = db.blocks i := by
  unfold Db.blocks
  rw [h]

theorem Db.bytes_congr {db db' : Db X} {i : ℕ} (h : db'.blocks i = db.blocks i) :
    db'.bytes i = db.bytes i := by
  funext p
  rw [Db.bytes, h, Db.bytes]

/-- A block that is stored enlarges the file to its end at most. -/
theorem Db.Written.fileSize {db db' : Db X} {i k : ℕ} {bytes : Bytes} {size : UInt32}
    (h : db.Written i k bytes size db') (j : ℕ) :
    db'.fileSize j = if j = i then max (db.fileSize i) size.toNat else db.fileSize j := by
  have hj := congrArg (Option.map fun m : MetadataRow => m.size.toNat) (h.metadata j)
  rw [Option.map_map, Option.map_map] at hj
  change (db'.metadata.find j).map (fun m => m.size.toNat) = _ at hj
  unfold Db.fileSize
  rw [hj]
  by_cases hji : j = i
  · subst hji
    obtain ⟨m, hm⟩ := Option.isSome_iff_exists.1 h.found
    simp only [hm, Option.map_some, Option.getD_some, ↓reduceIte, Function.comp_apply, true_and]
    split_ifs with hgt
    · exact (max_eq_right (UInt32.lt_iff_toNat_lt.1 hgt).le).symm
    · exact (max_eq_left (UInt32.le_iff_toNat_le.1 (UInt32.not_lt.1 hgt))).symm
  · simp only [hji, false_and, ↓reduceIte]
    rfl

/-- The size of a file is the one that `updateInode` sets. -/
theorem Db.Updated.fileSize {db db' : Db X} {attr : DBFileAttr} {truncate : Bool}
    (h : db.Updated attr truncate db') (j : ℕ) :
    db'.fileSize j = if j = attr.ino then attr.size.toNat else db.fileSize j := by
  have hj := congrArg (Option.map fun m : MetadataRow => m.size.toNat) (h.metadata j)
  rw [Option.map_map, Option.map_map] at hj
  change (db'.metadata.find j).map (fun m => m.size.toNat) = _ at hj
  unfold Db.fileSize
  rw [hj]
  by_cases hji : j = attr.ino
  · obtain ⟨m, hm⟩ := Option.isSome_iff_exists.1 h.found
    rw [hji, hm, if_pos rfl, Option.map_some, Option.getD_some, Function.comp_apply, if_pos rfl]
  · simp only [hji, ↓reduceIte]
    rfl

theorem resize_eq_padTo (data : Bytes) (n : ℕ) : resize data n = padTo n data := rfl

/-- The row without its times and its size, which a write leaves alone. -/
def MetadataRow.sizeless (m : MetadataRow) : MetadataRow := { m.timeless with size := 0 }

/-- The end of the part of the range that lies in block `k` or before. -/
def writtenEnd (offset size k : ℕ) : ℕ :=
  if k = (offset + size - 1) / blockSize + 1 then offset + size else k * blockSize

/-! ### The part of the range in one block -/

/-- The part of block `i` that the range from `offset` on covers starts here. -/
def blockLo (offset i : ℕ) : ℕ := if i = offset / blockSize + 1 then offset % blockSize else 0

/-- The new bytes of block `i` end before this place: at the end of the range in the last block, at
the end of the block in the others. -/
def blockHi (offset size i : ℕ) : ℕ :=
  if i = (offset + size - 1) / blockSize + 1 then (offset + size - 1) % blockSize + 1
  else blockSize

theorem blockHi_pos (offset size i : ℕ) : 0 < blockHi offset size i := by
  unfold blockHi
  split_ifs
  · exact Nat.succ_pos _
  · decide

/-- The place in the data of the first byte that goes to block `i`. -/
def blockSkip (offset i : ℕ) : ℕ :=
  if i > offset / blockSize + 1 then
    (i - (offset / blockSize + 1) - 1) * blockSize + blockSize - offset % blockSize
  else 0

/-- How the block `i` lies in the range. These are the facts of arithmetic that the handler relies
on when it cuts the data and the old block. -/
structure InRange (offset size i : ℕ) : Prop where
  lo_le_hi : blockLo offset i ≤ blockHi offset size i
  hi_le : blockHi offset size i ≤ blockSize
  skip_le : blockSkip offset i + blockHi offset size i - blockLo offset i ≤ size
  lo_le : blockLo offset i ≤ blockSkip offset i + blockHi offset size i
  sum_le : blockSkip offset i + blockHi offset size i ≤ max size blockSize
  end_eq : (i - 1) * blockSize + blockHi offset size i = writtenEnd offset size i
  end_le : writtenEnd offset size i ≤ offset + size
  mem_iff : ∀ q < blockSize, (blockLo offset i ≤ q ∧ q < blockHi offset size i ↔
    offset ≤ (i - 1) * blockSize + q ∧ (i - 1) * blockSize + q < offset + size)
  skip_add : ∀ q, blockLo offset i ≤ q →
    blockSkip offset i + (q - blockLo offset i) = (i - 1) * blockSize + q - offset

theorem inRange {offset size i : ℕ} (h : 1 ≤ offset + size) (hi : offset / blockSize + 1 ≤ i)
    (hi' : i ≤ (offset + size - 1) / blockSize + 1) : InRange offset size i := by
  unfold blockSize at hi hi'
  constructor
  · unfold blockLo blockHi blockSize
    split_ifs <;> omega
  · unfold blockHi blockSize
    split_ifs <;> omega
  · unfold blockLo blockHi blockSkip blockSize
    split_ifs <;> omega
  · unfold blockLo blockHi blockSkip blockSize
    split_ifs <;> omega
  · unfold blockHi blockSkip blockSize
    split_ifs <;> omega
  · unfold blockHi writtenEnd blockSize
    split_ifs <;> omega
  · unfold writtenEnd blockSize
    split_ifs <;> omega
  · intro q hq
    unfold blockSize at hq
    unfold blockLo blockHi blockSize
    split_ifs <;> omega
  · intro q hq
    unfold blockLo blockSize at hq
    unfold blockLo blockSkip blockSize
    split_ifs at hq ⊢ <;> omega

/-! ### What the blocks change -/

/-- The blocks `done` of the range of `size` bytes from `offset` on have been written. -/
structure Db.Overlaid (db : Db X) (i offset size : ℕ) (data : Bytes) (done : List ℕ) (db' : Db X) :
    Prop where
  bytes : ∀ p, db'.bytes i p = if p / blockSize + 1 ∈ done ∧ offset ≤ p ∧ p < offset + size
    then data.getD (p - offset) 0 else db.bytes i p
  stored : ∀ k blob, db'.blocks i k = some blob →
    db.blocks i k = some blob ∨ (k ∈ done ∧ blob.length = blockSize)
  others : ∀ j, j ≠ i → ∀ k, db'.blocks j k = db.blocks j k
  size : ∀ j, db'.fileSize j = if j = i then
    done.foldl (fun n k => max n (writtenEnd offset size k)) (db.fileSize i) else db.fileSize j
  metadata : ∀ j, (db'.metadata.find j).map MetadataRow.sizeless =
    (db.metadata.find j).map MetadataRow.sizeless
  dentry : db'.dentry = db.dentry
  xattr : db'.xattr = db.xattr
  times : ∀ ok, ClockIn ok → AllTimes ok db.metadata → AllTimes ok db'.metadata

namespace Db.Overlaid

variable {db db' db'' : Db X} {i offset size : ℕ} {data : Bytes} {done : List ℕ}

theorem nil {f : MetadataRow → MetadataRow} (hf : ∀ m, (f m).sizeless = m.sizeless)
    (hsize : ∀ m, (f m).size = m.size) (h : db.SameUpTo f db') :
    db.Overlaid i offset size data [] db' where
  bytes p := by
    rw [Db.bytes, Db.blocks_eq_of_data_eq h.data, Db.bytes]
    simp only [List.not_mem_nil, false_and, ↓reduceIte]
  stored k blob hk := Or.inl ((Db.blocks_eq_of_data_eq h.data i) ▸ hk)
  others j _ k := by rw [Db.blocks_eq_of_data_eq h.data]
  size j := by
    have : db'.fileSize j = db.fileSize j := by
      unfold Db.fileSize
      rw [h.metadata.find_map (fun m => m.size.toNat) (fun m => congrArg UInt32.toNat (hsize m))]
    rw [this, List.foldl_nil]
    split_ifs with hj
    · rw [hj]
    · rfl
  metadata j := h.metadata.find_map _ hf j
  dentry := h.dentry
  xattr := h.xattr
  times := h.metadata.times

theorem append {done' : List ℕ} (h : db.Overlaid i offset size data done db')
    (h' : db'.Overlaid i offset size data done' db'') :
    db.Overlaid i offset size data (done ++ done') db'' where
  bytes p := by
    rw [h'.bytes, h.bytes]
    simp only [List.mem_append]
    by_cases hp : offset ≤ p ∧ p < offset + size
    · simp only [hp, and_true]
      split_ifs <;> tauto
    · simp only [hp, and_false, ↓reduceIte]
  stored k blob hk := by
    rcases h'.stored k blob hk with hk | ⟨hk, hlen⟩
    · exact (h.stored k blob hk).imp_right (And.imp_left (List.mem_append_left _))
    · exact Or.inr ⟨List.mem_append_right _ hk, hlen⟩
  others j hj b := (h'.others j hj b).trans (h.others j hj b)
  size j := by
    rw [h'.size, h.size, h.size]
    simp only [List.foldl_append, ↓reduceIte]
    split_ifs <;> rfl
  metadata j := (h'.metadata j).trans (h.metadata j)
  dentry := h'.dentry.trans h.dentry
  xattr := h'.xattr.trans h.xattr
  times ok hok ht := h'.times ok hok (h.times ok hok ht)

theorem isSome (h : db.Overlaid i offset size data done db') (j : ℕ) :
    (db'.metadata.find j).isSome = (db.metadata.find j).isSome := by
  have := congrArg Option.isSome (h.metadata j)
  rwa [Option.isSome_map, Option.isSome_map] at this

end Db.Overlaid

/-- The last byte of the range, modulo `2 ^ 32`, where its computation does not panic. -/
def endOfRange (env : Env) (offset size : ℕ) : Option ℕ :=
  if (1 ≤ offset + size ∧ offset + size < 2 ^ 32) ∨ env.checked = false then
    some ((offset + size + 2 ^ 32 - 1) % 2 ^ 32)
  else none

theorem endOfRange_lt {env : Env} {offset size last : ℕ}
    (h : endOfRange env offset size = some last) :
    last < 2 ^ 32 := by
  unfold endOfRange at h
  split_ifs at h
  rw [← Option.some.inj h]
  exact Nat.mod_lt _ (by decide)

/-- The blocks that a `write` stores, one after the other. -/
def writtenBlocks (offset : ℤ) (size : ℕ) : List ℕ :=
  let offset := i64AsU32 offset
  let last := (offset + asU32 size + 2 ^ 32 - 1) % 2 ^ 32
  List.range' (offset / blockSize + 1) (last / blockSize + 1 - offset / blockSize)

namespace SqliteFs

open Proc

variable {env : Env}

/-- The end of the range can be computed: it fits into a `u32`, or wraps to zero. -/
def EndFits (env : Env) (offset size : ℕ) : Prop :=
  offset + size < 2 ^ 32 ∨ (env.checked = false ∧ offset + size = 2 ^ 32)

theorem ensures_lastByte {s : SqliteFs X} {Q : ℕ → SqliteFs X → Prop}
    {E : Exit → SqliteFs X → Prop} {offset size : ℕ} (h₁ : 1 ≤ offset + size)
    (h₂ : EndFits env offset size) :
    (lastByte env offset size).Ensures s Q E ↔ Q (offset + size - 1) s := by
  unfold lastByte
  rcases h₂ with h₂ | ⟨hc, h₂⟩
  · simp only [ensures_bind, ensures_u32Add, ensures_u32Sub, h₁, h₂, not_true_eq_false,
      false_implies, true_implies, and_true]
  · simp only [ensures_bind, ensures_u32Add, ensures_u32Sub, h₂, hc, lt_self_iff_false,
      Nat.mod_self, not_false_eq_true, false_implies, true_implies, true_and, Bool.false_eq_true,
      show ¬ 1 ≤ 0 by omega, Nat.zero_add]

theorem lastByte_eq (env : Env) (offset size : ℕ) : (lastByte env offset size : Handler X ℕ) =
    Proc.ofOption (endOfRange env offset size) (.panic none) := by
  unfold lastByte u32Add u32Sub endOfRange
  by_cases hlt : offset + size < 2 ^ 32
  · rw [if_pos hlt]
    change (if 1 ≤ offset + size then _ else _) = _
    by_cases hle : 1 ≤ offset + size
    · rw [if_pos hle, if_pos (Or.inl ⟨hle, hlt⟩)]
      exact congrArg pure (by omega)
    · rw [if_neg hle]
      cases hc : env.checked
      · rw [if_neg (by decide), if_pos (Or.inr rfl)]
        exact congrArg pure (by omega)
      · rw [if_pos rfl, if_neg (by simp [hle])]
        rfl
  · rw [if_neg hlt]
    cases hc : env.checked
    · rw [if_neg (by decide), if_pos (Or.inr rfl)]
      change (if 1 ≤ (offset + size) % 2 ^ 32 then _ else _) = _
      by_cases hle : 1 ≤ (offset + size) % 2 ^ 32
      · rw [if_pos hle]
        exact congrArg pure (by omega)
      · rw [if_neg hle]
        exact congrArg pure (by omega)
    · rw [if_pos rfl, if_neg fun h => h.elim (fun h => hlt h.2) (by simp)]
      rfl

/-- Why the block `k` could not be read or stored: one of the two calls fails, the inode has no row,
or the extensions are not loaded. -/
def WriteFails (env : Env) (s : SqliteFs X) (ino k : ℕ) : Prop :=
  env.fails (.getData k) = true ∨ env.fails (.writeData k) = true ∨
    s.conn.metadata.find ino = none ∨ s.db.extensions = false

theorem get_block_spec (s : SqliteFs X) (ino k : ℕ) :
    (callOrNoEnt env (.getData k) fun db =>
        db.getData (env.now (.getData k)) ino k blockSize).Ensures s
      (fun pre s' => pre = (s.conn.blocks ino k).getD (List.replicate blockSize 0) ∧
        ∃ db', s' = s.withConn db' ∧ s.conn.SameUpTo .atimeless db')
      (fun e s' => e = .reply (.error .ENOENT) ∧ s' = s ∧ env.fails (.getData k) = true) := by
  rw [ensures_callOrNoEnt]
  refine ⟨fun hf => ⟨rfl, rfl, hf⟩, fun _ => ?_⟩
  exact (Sqlite.getData_spec _ _ _ _ _ _).mono (fun pre db h => ⟨h.1, db, rfl, h.2⟩)
    fun _ _ h => h.elim

theorem put_block_spec (s : SqliteFs X) (ino k : ℕ) (bytes : Bytes) (size : UInt32) :
    (callOrNoEnt env (.writeData k) fun db =>
        db.writeData (env.now (.writeData k)) ino k bytes size).Ensures s
      (fun _ s' => s.db.extensions = true ∧ ∃ db', s' = s.withConn db' ∧
        s.conn.Written ino k bytes size db')
      (fun e s' => e = .reply (.error .ENOENT) ∧ s' = s ∧ s.WriteFails env ino k) := by
  rw [ensures_callOrNoEnt]
  refine ⟨fun hf => ⟨rfl, rfl, Or.inr (Or.inl hf)⟩, fun _ => ?_⟩
  refine ((Sqlite.writeData_spec _ _ _ ino k bytes size).and
    (Sqlite.writeData_returns _ _ _ ino k bytes size)).mono (fun _ db' h => ?_) fun e db' h => ?_
  · exact ⟨h.2, db', rfl, h.1⟩
  · obtain ⟨⟨rfl, hpanic, hcause⟩, -⟩ := h
    cases e with
    | err kind => exact ⟨rfl, rfl, Or.inr (Or.inr hcause)⟩
    | panic => exact absurd rfl hpanic

variable {s : SqliteFs X} {ino offset size i : ℕ} {data : Bytes}

/-- The byte at the place `q` of a block after the write: one of the data within the range, and the
old one outside. -/
def newByte (offset size i : ℕ) (data pre : Bytes) (q : ℕ) : UInt8 :=
  if blockLo offset i ≤ q ∧ q < blockHi offset size i then
    data.getD (blockSkip offset i + (q - blockLo offset i)) 0
  else pre.getD q 0

/-- A block that is changed in part. -/
theorem change_block_spec (h : InRange offset size i) (hsize : size < 2 ^ 32)
    (hlen : size ≤ data.length) {pre : Bytes} (hpre : blockSize ≤ pre.length) :
    (do
        let before ← slice pre 0 (blockLo offset i)
        let data_end ← u32Add env none (blockSkip offset i) (blockHi offset size i)
        let data_end ← u32Sub env data_end (blockLo offset i)
        let written ← slice data (blockSkip offset i) data_end
        let after ← slice pre (blockHi offset size i) blockSize
        pure (before ++ written ++ after) : Handler X Bytes).Ensures s
      (fun bytes s' => s' = s ∧ bytes.length = blockSize ∧ ∀ q < blockSize,
        bytes.getD q 0 = newByte offset size i data pre q)
      (fun _ _ => False) := by
  have hle := h.lo_le_hi
  have hhi := h.hi_le
  have hskip := h.skip_le
  have hlo := h.lo_le
  have hsum : blockSkip offset i + blockHi offset size i < 2 ^ 32 := by
    have := h.sum_le
    have : blockSize < 2 ^ 32 := by decide
    omega
  simp only [ensures_bind, ensures_slice, ensures_u32Add, ensures_u32Sub, ensures_pure]
  refine ⟨fun _ => ⟨fun _ => ⟨fun _ => ⟨fun hwritten => ⟨fun _ => ⟨trivial, ?_, fun q hq => ?_⟩,
    fun hc => hc ⟨hhi, hpre⟩⟩, fun hc => hc ⟨by omega, by omega⟩⟩, fun hc => absurd hlo hc⟩,
    fun hc => absurd hsum hc⟩, fun hc => hc ⟨Nat.zero_le _, by omega⟩⟩
  · simp only [List.length_append, List.length_drop, List.length_take]
    omega
  rw [List.drop_zero, getD_splice hle hhi hpre ?_ hq, newByte]
  · split_ifs with hin
    · simp only [List.getD_eq_getElem?_getD, List.getElem?_drop, List.getElem?_take]
      rw [if_pos (by omega)]
    · rfl
  · rw [List.length_drop, List.length_take]
    omega

theorem fill_fits (h : InRange offset size i) (hsize : size < 2 ^ 32)
    (hlo : blockLo offset i = 0) (hhi : blockHi offset size i = blockSize) :
    blockSkip offset i + blockSize < 2 ^ 32 ∧ blockSkip offset i + blockSize ≤ size := by
  have hskip := h.skip_le
  have hsum := h.sum_le
  have : blockSize < 2 ^ 32 := by decide
  omega

/-- A block that is filled. -/
theorem ensures_filled {Q : Bytes → SqliteFs X → Prop} {E : Exit → SqliteFs X → Prop} {skip : ℕ}
    (hsum : skip + blockSize < 2 ^ 32) (hin : skip + blockSize ≤ data.length) :
    (do
        let data_end ← u32Add env none skip blockSize
        slice data skip data_end : Handler X Bytes).Ensures s Q E ↔
      Q ((data.take (skip + blockSize)).drop skip) s := by
  have hin : skip ≤ skip + blockSize ∧ skip + blockSize ≤ data.length := by omega
  rw [ensures_bind, ensures_u32Add, and_iff_left fun hc => absurd hsum hc,
    forall_prop_of_true hsum, ensures_slice, and_iff_left fun hc => absurd hin hc,
    forall_prop_of_true hin]

theorem length_filled {skip : ℕ} (h : skip + blockSize ≤ data.length) :
    ((data.take (skip + blockSize)).drop skip).length = blockSize := by
  rw [List.length_drop, List.length_take, min_eq_left h, Nat.add_sub_cancel_left]

theorem getD_filled (hlo : blockLo offset i = 0)
    (hhi : blockHi offset size i = blockSize) (pre : Bytes) {q : ℕ} (hq : q < blockSize) :
    ((data.take (blockSkip offset i + blockSize)).drop (blockSkip offset i)).getD q 0 =
      newByte offset size i data pre q := by
  rw [newByte, if_pos ⟨by omega, by omega⟩, hlo, Nat.sub_zero]
  simp only [List.getD_eq_getElem?_getD, List.getElem?_drop, List.getElem?_take]
  rw [if_pos (by omega)]

/-- A block as it is read, a missing one as `m` zeros, filled up with zeros to the length `n`. -/
theorem getD_filled_block (stored : Option Bytes) (m n : ℕ) :
    let pre := stored.getD (List.replicate m 0)
    let pre := if pre.length < n then resize pre n else pre
    n ≤ pre.length ∧ ∀ q < n, pre.getD q 0 = (stored.getD []).getD q 0 := by
  have hread : ∀ q, (stored.getD (List.replicate m 0)).getD q 0 = (stored.getD []).getD q 0 := by
    intro q
    cases stored with
    | none => simp
    | some l => rfl
  dsimp only
  split_ifs with hl
  · rw [resize_eq_padTo, length_padTo]
    exact ⟨le_refl n, fun q hq => by rw [getD_padTo, if_pos hq, hread]⟩
  · exact ⟨not_lt.1 hl, fun q _ => hread q⟩

/-- The end of the range in the block, computed with `u32`. -/
theorem ensures_blockHi {Q : ℕ → SqliteFs X → Prop} {E : Exit → SqliteFs X → Prop}
    (h₁ : 1 ≤ offset + size) (h₂ : EndFits env offset size) :
    (if i = (offset + size - 1) / blockSize + 1 then do
        let last ← lastByte env offset size
        pure (last % blockSize + 1)
      else pure blockSize : Handler X ℕ).Ensures s Q E ↔ Q (blockHi offset size i) s := by
  unfold blockHi
  split_ifs with hi
  · rw [ensures_bind, ensures_lastByte h₁ h₂, ensures_pure]
  · rw [ensures_pure]

/-- The new bytes of a block, in terms of positions in the file. -/
theorem newByte_eq (h : InRange offset size i) (db : Db X) {p : ℕ} (hp : p / blockSize + 1 = i) :
    newByte offset size i data ((db.blocks ino i).getD []) (p % blockSize) =
      if offset ≤ p ∧ p < offset + size then data.getD (p - offset) 0 else db.bytes ino p := by
  have hpos : (i - 1) * blockSize + p % blockSize = p := by
    rw [← hp, Nat.add_sub_cancel, Nat.mul_comm]
    exact Nat.div_add_mod p blockSize
  have hmem := h.mem_iff _ (Nat.mod_lt p (by decide : 0 < blockSize))
  rw [hpos] at hmem
  unfold newByte
  by_cases hin : offset ≤ p ∧ p < offset + size
  · rw [if_pos (hmem.2 hin), if_pos hin, h.skip_add _ (hmem.2 hin).1, hpos]
  · rw [if_neg fun hc => hin (hmem.1 hc), if_neg hin, Db.bytes, byteAt, hp]

/-- A block of the range, once it is stored. -/
theorem overlaid_of_written (h : InRange offset size i) (hfits : offset + size < 2 ^ 32)
    {db db₁ db₂ : Db X} {bytes : Bytes} (hdb : db.SameUpTo .atimeless db₁)
    (hlen : bytes.length = blockSize) (hbytes : ∀ q < blockSize, bytes.getD q 0 =
      newByte offset size i data ((db.blocks ino i).getD []) q)
    (hw : db₁.Written ino i bytes (UInt32.ofNat (writtenEnd offset size i)) db₂) :
    db.Overlaid ino offset size data [i] db₂ where
  bytes p := by
    have hread : db₁.bytes ino p = db.bytes ino p := by
      rw [Db.bytes, Db.blocks_eq_of_data_eq hdb.data, Db.bytes]
    have hblocks : ∀ b, db₂.blocks ino b = if b = i then some bytes else db₁.blocks ino b :=
      fun b => (hw.blocks ino b).trans (if_congr (and_iff_right rfl) rfl rfl)
    rw [Db.bytes, byteAt_update _ hblocks p]
    by_cases hp : p / blockSize + 1 = i
    · rw [if_pos hp, hbytes _ (Nat.mod_lt p (by decide)), newByte_eq h db hp]
      simp [hp]
    · rw [if_neg hp, if_neg fun hc => hp (List.mem_singleton.1 hc.1)]
      exact hread
  stored k blob hk := by
    rw [hw.blocks] at hk
    split_ifs at hk with hki
    · obtain rfl := Option.some.inj hk
      exact Or.inr ⟨List.mem_singleton.2 hki.2, hlen⟩
    · exact Or.inl (Db.blocks_eq_of_data_eq hdb.data ino ▸ hk)
  others j hj k := by
    rw [hw.blocks, if_neg fun hc => hj hc.1, Db.blocks_eq_of_data_eq hdb.data]
  size j := by
    have hend := h.end_le
    have hsize : ∀ j, db₁.fileSize j = db.fileSize j := fun j => by
      unfold Db.fileSize
      rw [hdb.metadata.find_map (fun m => m.size.toNat) fun _ => rfl]
    rw [hw.fileSize, hsize, hsize, UInt32.toNat_ofNat_of_lt' (hend.trans_lt hfits)]
    rfl
  metadata j := by
    have hj := congrArg (Option.map MetadataRow.sizeless) (hw.metadata j)
    rw [Option.map_map, Option.map_map] at hj
    refine (Eq.trans ?_ hj).trans (Eq.trans ?_ (hdb.metadata.find_map _ (fun _ => rfl) j))
    · rfl
    · refine congrArg (Option.map · _) (funext fun m => ?_)
      rw [Function.comp_apply]
      split_ifs <;> rfl
  dentry := hw.dentry.trans hdb.dentry
  xattr := hw.xattr.trans hdb.xattr
  times ok hok ht := hw.times ok hok (hdb.metadata.times ok hok ht)

/-- **One block of a write.** -/
theorem writeBlock_spec (hpos : 1 ≤ offset + size) (hfits : offset + size < 2 ^ 32)
    (hlen : size ≤ data.length) (hi : offset / blockSize + 1 ≤ i)
    (hi' : i ≤ (offset + size - 1) / blockSize + 1) :
    (writeBlock env ino offset size data (offset / blockSize + 1)
        ((offset + size - 1) / blockSize + 1) i).Ensures s
      (fun _ s' => (s.conn.metadata.find ino).isSome ∧ s.db.extensions = true ∧
        ∃ db', s' = s.withConn db' ∧ s.conn.Overlaid ino offset size data [i] db')
      (fun e s' => e = .reply (.error .ENOENT) ∧ s.WriteFails env ino i ∧
        ∃ db', s' = s.withConn db' ∧ s.conn.SameUpTo .atimeless db') := by
  have h := inRange hpos hi hi'
  have hsize : size < 2 ^ 32 := by omega
  have hnew : (i - 1) * blockSize + blockHi offset size i < 2 ^ 32 :=
    (h.end_eq.trans_le h.end_le).trans_lt hfits
  unfold writeBlock
  rw [ensures_bind, ensures_blockHi hpos (Or.inl hfits)]
  -- the new bytes of the block, then the end of the file, then the block is stored
  rw [ensures_bind]
  have hstore : ∀ (db₁ : Db X) (bytes : Bytes), s.conn.SameUpTo .atimeless db₁ →
      bytes.length = blockSize → (∀ q < blockSize, bytes.getD q 0 =
        newByte offset size i data ((s.conn.blocks ino i).getD []) q) →
      (u32Add env none ((i - 1) * blockSize) (blockHi offset size i) >>= fun new_size =>
        callOrNoEnt env (.writeData i) fun db => db.writeData (env.now (.writeData i)) ino i
          bytes (UInt32.ofNat new_size)).Ensures (s.withConn db₁)
        (fun _ s' => (s.conn.metadata.find ino).isSome ∧ s.db.extensions = true ∧
          ∃ db', s' = s.withConn db' ∧ s.conn.Overlaid ino offset size data [i] db')
        (fun e s' => e = .reply (.error .ENOENT) ∧ s.WriteFails env ino i ∧
        ∃ db', s' = s.withConn db' ∧ s.conn.SameUpTo .atimeless db') := by
    intro db₁ bytes hdb₁ hblen hbytes
    rw [ensures_bind, ensures_u32Add]
    refine ⟨fun _ => ?_, fun hc => absurd hnew hc⟩
    refine (put_block_spec _ _ _ _ _).mono (fun _ s₂ h₂ => ?_) fun e s₂ h₂ => ?_
    · obtain ⟨hext, db₂, rfl, hw⟩ := h₂
      refine ⟨?_, hext, db₂, rfl, ?_⟩
      · rw [← hdb₁.metadata.isSome]
        exact hw.found
      · rw [h.end_eq] at hw
        exact overlaid_of_written h hfits hdb₁ hblen hbytes hw
    · obtain ⟨he, rfl, hcause⟩ := h₂
      refine ⟨he, hcause.imp_right (Or.imp_right (Or.imp_left fun hnone => ?_)), db₁, rfl, hdb₁⟩
      have hrow := hdb₁.metadata.isSome ino
      rw [conn_withConn] at hnone
      rw [hnone] at hrow
      exact Option.not_isSome_iff_eq_none.1 (by simp [← hrow])
  refine (ensures_ite _ _ _).2 ⟨fun _ => ?_, fun hfull => ?_⟩
  · rw [ensures_bind]
    refine (get_block_spec s ino i).mono (fun pre s₁ h₁ => ?_)
      fun e s' h' => ⟨h'.1, Or.inl h'.2.2, s.conn, h'.2.1, .refl _ _⟩
    obtain ⟨hpre, db₁, rfl, hdb₁⟩ := h₁
    have hfilled := getD_filled_block (s.conn.blocks ino i) blockSize blockSize
    rw [← hpre] at hfilled
    refine (change_block_spec h hsize hlen hfilled.1).mono (fun bytes s₂ h₂ => ?_)
      fun _ _ h => h.elim
    rw [h₂.1]
    refine hstore db₁ bytes hdb₁ h₂.2.1 fun q hq => ?_
    rw [h₂.2.2 q hq, newByte, newByte, hfilled.2 q hq]
  · push Not at hfull
    have hlo : blockLo offset i = 0 := hfull.1
    have hfill := fill_fits h hsize hlo hfull.2
    rw [ensures_filled (by exact hfill.1) (by exact hfill.2.trans hlen)]
    exact hstore s.conn _ (.refl _ _) (length_filled (hfill.2.trans hlen)) fun q hq =>
      getD_filled hlo hfull.2 _ hq

/-- **The blocks of a write**, up to the first that fails. -/
theorem write_blocks_spec (hpos : 1 ≤ offset + size) (hfits : offset + size < 2 ^ 32)
    (hlen : size ≤ data.length) (l : List ℕ)
    (hl : ∀ k ∈ l, offset / blockSize + 1 ≤ k ∧ k ≤ (offset + size - 1) / blockSize + 1) :
    (Proc.each (writeBlock env ino offset size data (offset / blockSize + 1)
        ((offset + size - 1) / blockSize + 1)) l).Ensures s
      (fun _ s' => ∃ db', s' = s.withConn db' ∧ s.conn.Overlaid ino offset size data l db')
      (fun e s' => e = .reply (.error .ENOENT) ∧ ∃ done k, done ++ [k] <+: l ∧
        s.WriteFails env ino k ∧
          ∃ db', s' = s.withConn db' ∧ s.conn.Overlaid ino offset size data done db') := by
  have hatime : ∀ m : MetadataRow, m.atimeless.sizeless = m.sizeless := fun _ => rfl
  induction l generalizing s with
  | nil => exact ⟨s.conn, rfl, .nil hatime (fun _ => rfl) (.refl _ _)⟩
  | cons k l ih =>
    obtain ⟨hk, hk'⟩ := hl k List.mem_cons_self
    refine (ensures_bind _ _).2 ((writeBlock_spec hpos hfits hlen hk hk').mono
      (fun _ s₁ h₁ => ?_) fun e s₁ h₁ => ?_)
    · obtain ⟨hrow, hext, db₁, rfl, h₁⟩ := h₁
      refine (ih fun j hj => hl j (List.mem_cons_of_mem _ hj)).mono (fun _ s₂ h₂ => ?_)
        fun e s₂ h₂ => ?_
      · obtain ⟨db₂, rfl, h₂⟩ := h₂
        exact ⟨db₂, rfl, h₁.append h₂⟩
      · obtain ⟨he, done, j, hdone, hfails, db₂, rfl, h₂⟩ := h₂
        refine ⟨he, k :: done, j, List.cons_prefix_cons.2 ⟨rfl, hdone⟩, ?_, db₂, rfl,
          h₁.append h₂⟩
        refine hfails.imp_right (Or.imp_right (Or.imp_left fun hnone => ?_))
        have hsame := h₁.isSome ino
        rw [conn_withConn] at hnone
        rw [hnone, hrow] at hsame
        exact absurd hsame (by simp)
    · obtain ⟨he, hfails, db₁, rfl, h₁⟩ := h₁
      exact ⟨he, [], k, List.cons_prefix_cons.2 ⟨rfl, List.nil_prefix⟩, hfails, db₁, rfl,
        .nil hatime (fun _ => rfl) h₁⟩

end SqliteFs

/-! ### The whole range -/

/-- The file `i` has the bytes `data` from `offset` on, `size` of them, and the rest is as it was. A
write of no bytes still sets the size, unless it is at the start of a block. -/
structure Db.Overwritten (db : Db X) (i offset size : ℕ) (data : Bytes) (db' : Db X) : Prop where
  bytes : ∀ p, db'.bytes i p = if offset ≤ p ∧ p < offset + size
    then data.getD (p - offset) 0 else db.bytes i p
  others : ∀ j, j ≠ i → ∀ k, db'.blocks j k = db.blocks j k
  size : ∀ j, db'.fileSize j = if j = i ∧ (size ≠ 0 ∨ offset % blockSize ≠ 0)
    then max (db.fileSize i) (offset + size) else db.fileSize j
  metadata : ∀ j, (db'.metadata.find j).map MetadataRow.sizeless =
    (db.metadata.find j).map MetadataRow.sizeless
  dentry : db'.dentry = db.dentry
  xattr : db'.xattr = db.xattr

theorem le_foldl_max {f : ℕ → ℕ} (l : List ℕ) (a : ℕ) :
    a ≤ l.foldl (fun n k => max n (f k)) a ∧ ∀ k ∈ l, f k ≤ l.foldl (fun n k => max n (f k)) a := by
  induction l generalizing a with
  | nil => exact ⟨le_refl a, fun _ h => absurd h List.not_mem_nil⟩
  | cons j l ih =>
    obtain ⟨hle, hl⟩ := ih (max a (f j))
    refine ⟨(le_max_left _ _).trans hle, fun k hk => ?_⟩
    rcases List.mem_cons.1 hk with rfl | hk
    · exact (le_max_right _ _).trans hle
    · exact hl k hk

theorem foldl_max_of_le {f : ℕ → ℕ} (l : List ℕ) {a : ℕ} (h : ∀ k ∈ l, f k ≤ a) :
    l.foldl (fun n k => max n (f k)) a = a := by
  induction l with
  | nil => rfl
  | cons k l ih =>
    rw [List.foldl_cons, max_eq_left (h k List.mem_cons_self)]
    exact ih fun j hj => h j (List.mem_cons_of_mem _ hj)

theorem foldl_max_eq {f : ℕ → ℕ} (l : List ℕ) (a : ℕ) {k : ℕ} (hk : k ∈ l)
    (h : ∀ j ∈ l, f j ≤ f k) : l.foldl (fun n j => max n (f j)) a = max a (f k) := by
  induction l generalizing a with
  | nil => exact absurd hk List.not_mem_nil
  | cons j l ih =>
    have hj := h j List.mem_cons_self
    have hl : ∀ j ∈ l, f j ≤ f k := fun j hj => h j (List.mem_cons_of_mem _ hj)
    rw [List.foldl_cons]
    rcases List.mem_cons.1 hk with rfl | hk
    · exact foldl_max_of_le l fun j hj => (hl j hj).trans (le_max_right _ _)
    · rw [ih _ hk hl, max_assoc, max_eq_right hj]

/-- The numbers of the blocks of a range, from the first to the last that has a byte of it. -/
def blockRange (offset size : ℕ) : List ℕ :=
  List.range' (offset / blockSize + 1)
    ((offset + size - 1) / blockSize + 1 + 1 - (offset / blockSize + 1))

theorem mem_blockRange {offset size k : ℕ} (h : 1 ≤ offset + size) : k ∈ blockRange offset size ↔
    offset / blockSize + 1 ≤ k ∧ k ≤ (offset + size - 1) / blockSize + 1 := by
  rw [blockRange, List.mem_range'_1]
  unfold blockSize
  omega

/-- All blocks of the range together. -/
theorem Db.Overlaid.overwritten {db db' : Db X} {i offset size : ℕ} {data : Bytes}
    (hpos : 1 ≤ offset + size)
    (h : db.Overlaid i offset size data (blockRange offset size) db') :
    db.Overwritten i offset size data db' where
  bytes p := by
    rw [h.bytes]
    refine if_congr ⟨And.right, fun hp => ⟨(mem_blockRange hpos).2 ?_, hp⟩⟩ rfl rfl
    unfold blockSize
    omega
  others := h.others
  size j := by
    rw [h.size]
    by_cases hj : j = i
    · rw [if_pos hj]
      by_cases hsome : size ≠ 0 ∨ offset % blockSize ≠ 0
      · have hlast : (offset + size - 1) / blockSize + 1 ∈ blockRange offset size := by
          rw [mem_blockRange hpos]
          unfold blockSize at *
          omega
        have hend : writtenEnd offset size ((offset + size - 1) / blockSize + 1) =
          offset + size := if_pos rfl
        rw [if_pos ⟨hj, hsome⟩, foldl_max_eq _ _ hlast, hend]
        intro k hk
        obtain ⟨hk, hk'⟩ := (mem_blockRange hpos).1 hk
        rw [hend]
        exact (inRange hpos hk hk').end_le
      · have hnil : blockRange offset size = [] := by
          refine List.eq_nil_iff_forall_not_mem.2 fun k hk => ?_
          rw [mem_blockRange hpos] at hk
          unfold blockSize at *
          omega
        rw [if_neg fun hc => hsome hc.2, hnil, hj]
        rfl
    · rw [if_neg hj, if_neg fun hc => hj hc.1]
  metadata := h.metadata
  dentry := h.dentry
  xattr := h.xattr

section Write

variable {env : Env} {s : SqliteFs X} (ino : ℕ) {offset : ℤ} {data : Bytes}
  (hpos : 1 ≤ i64AsU32 offset + asU32 data.length)
  (hfits : i64AsU32 offset + asU32 data.length < 2 ^ 32) (hro : s.readOnly = false)

include hpos hfits hro

/-- A write whose end can be computed, in terms of the blocks that it has stored. -/
theorem SqliteFs.write_overlaid_spec :
    (write env ino offset data).Ensures s
      (fun reply s' => reply = .written (asU32 data.length) ∧ ∃ db', s' = s.withConn db' ∧
        s.conn.Overlaid (asU32 ino) (i64AsU32 offset) (asU32 data.length) data
          (blockRange (i64AsU32 offset) (asU32 data.length)) db')
      (fun e s' => e = .reply (.error .ENOENT) ∧
        ∃ done k, done ++ [k] <+: blockRange (i64AsU32 offset) (asU32 data.length) ∧
          s.WriteFails env (asU32 ino) k ∧ ∃ db', s' = s.withConn db' ∧
            s.conn.Overlaid (asU32 ino) (i64AsU32 offset) (asU32 data.length) data done
              db') := by
  unfold write
  simp only [Proc.ensures_bind, ensures_writable, hro, not_true_eq_false, false_implies,
    true_implies, and_true, ensures_lastByte hpos (Or.inl hfits), Proc.ensures_pure, true_and]
  have hlen : asU32 data.length ≤ data.length := Nat.mod_le _ _
  exact write_blocks_spec hpos hfits hlen (blockRange _ _) fun k hk => (mem_blockRange hpos).1 hk

/-- **A write whose end can be computed.** -/
theorem SqliteFs.write_spec :
    (write env ino offset data).Ensures s
      (fun reply s' => reply = .written (asU32 data.length) ∧ ∃ db', s' = s.withConn db' ∧
        s.conn.Overwritten (asU32 ino) (i64AsU32 offset) (asU32 data.length) data db')
      (fun e s' => e = .reply (.error .ENOENT) ∧
        ∃ done k, done ++ [k] <+: blockRange (i64AsU32 offset) (asU32 data.length) ∧
          s.WriteFails env (asU32 ino) k ∧ ∃ db', s' = s.withConn db' ∧
            s.conn.Overlaid (asU32 ino) (i64AsU32 offset) (asU32 data.length) data done
              db') := by
  refine (write_overlaid_spec ino hpos hfits hro).mono (fun _ s' h => ?_) fun e s' h => h
  obtain ⟨hreply, db', rfl, h⟩ := h
  exact ⟨hreply, db', rfl, h.overwritten hpos⟩

end Write

end TemporalFs
