import Mathlib
import TemporalFs.Db.Stamps
import TemporalFs.Fs.Writing

/-!
# Writes that break off

A write stores one block after the other, each by a call of its own, so that a call that fails
leaves the blocks before it stored. What is stored then is given exactly, times included, for every
offset and all data.

The loop is followed block by block, from the one in which the range begins. The row of the file
after some blocks is the row before the write with the size that the last of these blocks gave it,
and the blocks behind them are as they were. A call that fails has rolled back, so that what it
leaves is what the calls before it have stored.

## Main definitions

* `SqliteFs.CallsFail`: a call for a block fails.
* `SqliteFs.PartlyWritten`: the blocks before some block have been stored.

## Main results

* `Sqlite.writeData_row`: the row of the file after a block is stored.
* `SqliteFs.write_breaks_off`: how far a write gets.
-/

namespace TemporalFs

variable {X : Externals}

open Proc

/-- The row of a file of which the bytes up to `size` were stored. -/
def Sqlite.writtenRow (self : Sqlite) (now : Now) (size : UInt32) (m : MetadataRow) :
    MetadataRow :=
  { m with
    size := if size > m.size then size else m.size
    mtime := if self.timeRecording then now.1.throughDatetime else m.mtime
    ctime := if self.timeRecording then now.1.throughDatetime else m.ctime }

/-- The row after two blocks is the row after the second. -/
theorem Sqlite.writtenRow_writtenRow (self : Sqlite) (now now' : Now) {size size' : UInt32}
    (hle : size ≤ size') (m : MetadataRow) :
    self.writtenRow now' size' (self.writtenRow now size m) = self.writtenRow now' size' m := by
  have hsize : (if size' > (if size > m.size then size else m.size) then size'
      else (if size > m.size then size else m.size)) =
        if size' > m.size then size' else m.size := by
    split_ifs <;> grind
  unfold writtenRow
  cases self.timeRecording <;> simp only [hsize, ↓reduceIte, Bool.false_eq_true]

theorem Sqlite.writeData_row (self : Sqlite) (now : Now) (db : Db X) (i k : ℕ) (bytes : Bytes)
    (size : UInt32) :
    (self.writeData now i k bytes size).Ensures db
      (fun _ db' => ∀ j, (db'.metadata.find j).map .atimeless = (db.metadata.find j).map fun m =>
        if j = i then (self.writtenRow now size m).atimeless else m.atimeless)
      (fun _ _ => True) := by
  unfold writeData execute executeAll
  simp only [ensures_atomically, ensures_bind, ensures_get, ensures_ofOption, ensures_require,
    implies_true, and_true]
  intro row hrow _
  refine (ensures_step _ _).2 ⟨fun db₁ h₁ => ?_, fun _ => trivial⟩
  obtain ⟨-, hm₁, -⟩ := Db.upsertData_eq_some h₁
  have htimes : ∀ db₂ : Db X, (∀ j, db₂.metadata.find j = if j = i then
      some { row with size := if size > row.size then size else row.size }
      else db.metadata.find j) →
      (Proc.when self.timeRecording do
        updateMtime i now
        updateCtime i now).Ensures db₂
          (fun _ db' => ∀ j, (db'.metadata.find j).map .atimeless =
            (db.metadata.find j).map fun m =>
              if j = i then (self.writtenRow now size m).atimeless else m.atimeless)
          (fun _ _ => True) := by
    intro db₂ h₂
    unfold updateMtime updateCtime executeAll
    simp only [ensures_when, ensures_bind, ensures_modify, Db.metadata_find_updateMetadata, h₂]
    refine ⟨fun hrec j => ?_, fun hrec j => ?_⟩
    · by_cases hj : j = i
      · simp only [hj, ↓reduceIte, Option.map_some, hrow, Sqlite.writtenRow, hrec]
        rfl
      · simp only [hj, ↓reduceIte]
    · by_cases hj : j = i
      · simp only [hj, ↓reduceIte, Option.map_some, hrow, Sqlite.writtenRow, hrec]
        rfl
      · simp only [hj, ↓reduceIte]
  refine (ensures_when _ _).2 ⟨fun hgt => htimes _ fun j => ?_, fun hgt => htimes db₁ fun j => ?_⟩
  · rw [Db.metadata_find_updateMetadata, hm₁, hrow, if_pos hgt]
    rfl
  · rw [hm₁, if_neg hgt]
    split_ifs with hj
    · rw [hj, hrow]
    · rfl

/-- The block `k` of the file `i` was stored, and nothing else but times and the size of the file
have changed. -/
structure Db.BlockStored (sqlite : Sqlite) (now : Now) (db : Db X) (i k : ℕ) (bytes : Bytes)
    (size : UInt32) (db' : Db X) : Prop where
  blocks : ∀ j b, db'.blocks j b = if j = i ∧ b = k then some bytes else db.blocks j b
  metadata : ∀ j, (db'.metadata.find j).map .atimeless = (db.metadata.find j).map fun m =>
    if j = i then (sqlite.writtenRow now size m).atimeless else m.atimeless
  dentry : db'.dentry = db.dentry
  xattr : db'.xattr = db.xattr

namespace SqliteFs

/-- The end of the range in block `k`, where `last` is its last byte. -/
def blockEnd (last k : ℕ) : ℕ :=
  if k = last / blockSize + 1 then last % blockSize + 1 else blockSize

/-- A call for the block `k` fails. A block that is filled is not read before it is stored. -/
def CallsFail (env : Env) (offset last k : ℕ) : Prop :=
  env.fails (.writeData k) = true ∨
    (blockLo offset k ≠ 0 ∨ blockEnd last k ≠ blockSize) ∧ env.fails (.getData k) = true

/-- A block as `write` reads it. -/
def blockRead (stored : Option Bytes) : Bytes :=
  let data_pre := stored.getD (List.replicate blockSize 0)
  if data_pre.length < blockSize then resize data_pre blockSize else data_pre

/-- The block `k`, other than the last, as `write` stores it. -/
def newBlock (stored : Option Bytes) (offset : ℕ) (data : Bytes) (k : ℕ) : Bytes :=
  if blockLo offset k = 0 then (data.drop (blockSkip offset k)).take blockSize
  else (blockRead stored).take (blockLo offset k) ++ data.take (blockSize - blockLo offset k)

variable {env : Env} {s : SqliteFs X} {ino offset size last i : ℕ} {data : Bytes}

/-- A sum is exact where it fits. -/
theorem ensures_u32Add_of {Q : ℕ → SqliteFs X → Prop} {E : Exit → SqliteFs X → Prop} {a b : ℕ}
    (h : ∀ v, (a + b < 2 ^ 32 → v = a + b) → Q v s) (hpanic : E (.panic none) s) :
    (u32Add env none a b).Ensures s Q E :=
  (ensures_u32Add none a b).2 ⟨fun _ => h _ fun _ => rfl,
    fun hover => ⟨fun _ => hpanic, fun _ => h _ fun hfits => absurd hfits hover⟩⟩

/-- A difference is exact where it is not negative. -/
theorem ensures_u32Sub_of {Q : ℕ → SqliteFs X → Prop} {E : Exit → SqliteFs X → Prop} {a b : ℕ}
    (h : ∀ v, (b ≤ a → v = a - b) → Q v s) (hpanic : E (.panic none) s) :
    (u32Sub env a b).Ensures s Q E :=
  (ensures_u32Sub a b).2 ⟨fun _ => h _ fun _ => rfl,
    fun hneg => ⟨fun _ => hpanic, fun _ => h _ fun hle => absurd hle hneg⟩⟩

theorem ensures_blockEnd {Q : ℕ → SqliteFs X → Prop} {E : Exit → SqliteFs X → Prop}
    (hlast : endOfRange env offset size = some last) :
    (if i = last / blockSize + 1 then do
        let last ← lastByte env offset size
        pure (last % blockSize + 1)
      else pure blockSize : Handler X ℕ).Ensures s Q E ↔ Q (blockEnd last i) s := by
  unfold blockEnd
  split_ifs with hi
  · rw [ensures_bind, lastByte_eq, hlast]
    rfl
  · rw [ensures_pure]

/-- How a block ends that is stored. -/
structure BlockDone (env : Env) (s : SqliteFs X) (ino offset last : ℕ) (data : Bytes) (i : ℕ)
    (s' : SqliteFs X) : Prop where
  calls : ¬ CallsFail env offset last i
  row : (s.conn.metadata.find ino).isSome
  extensions : s.db.extensions = true
  stored : offset / blockSize + 1 ≤ i → i < last / blockSize + 1 → ∃ db', s' = s.withConn db' ∧
    s.conn.BlockStored s.db (env.now (.writeData i)) ino i
      (newBlock (s.conn.blocks ino i) offset data i) (UInt32.ofNat (i * blockSize)) db'

/-- How a block ends that is not stored. -/
def BlockFails (env : Env) (s : SqliteFs X) (ino offset last i : ℕ) (e : Exit) (s' : SqliteFs X) :
    Prop :=
  e = .panic none ∨ (e = .reply (.error .ENOENT) ∧ (CallsFail env offset last i ∨
    s.conn.metadata.find ino = none ∨ s.db.extensions = false) ∧
      ∃ db', s' = s.withConn db' ∧ s.conn.SameUpTo .atimeless db')

/-- The call that stores a block. -/
theorem store_block_spec {db₁ : Db X} (hdb₁ : s.conn.SameUpTo .atimeless db₁) (bytes : Bytes)
    (new_size : UInt32) :
    (callOrNoEnt env (.writeData i) fun db => db.writeData (env.now (.writeData i)) ino i
        bytes new_size).Ensures (s.withConn db₁)
      (fun _ s' => env.fails (.writeData i) = false ∧ (s.conn.metadata.find ino).isSome ∧
        s.db.extensions = true ∧ ∃ db', s' = s.withConn db' ∧
          s.conn.BlockStored s.db (env.now (.writeData i)) ino i bytes new_size db')
      (BlockFails env s ino offset last i) := by
  rw [ensures_callOrNoEnt]
  refine ⟨fun hf => Or.inr ⟨rfl, Or.inl (Or.inl hf), db₁, rfl, hdb₁⟩, fun hf => ?_⟩
  refine ((Sqlite.writeData_spec _ _ _ ino i bytes new_size).and
    ((Sqlite.writeData_returns _ _ _ ino i bytes new_size).and
      (Sqlite.writeData_row _ _ _ ino i bytes new_size))).mono (fun _ db' h => ?_) fun e db' h => ?_
  · obtain ⟨hw, hext, hrow⟩ := h
    refine ⟨hf, ?_, hext, db', rfl, fun j b => ?_, fun j => ?_, ?_, ?_⟩
    · rw [← hdb₁.metadata.isSome]
      exact hw.found
    · rw [hw.blocks, conn_withConn, Db.blocks_eq_of_data_eq hdb₁.data]
    · rw [hrow j, conn_withConn]
      exact hdb₁.metadata.find_map (fun m => if j = ino then
        (s.db.writtenRow (env.now (.writeData i)) new_size m).atimeless else m.atimeless)
          (fun _ => rfl) j
    · exact hw.dentry.trans hdb₁.dentry
    · exact hw.xattr.trans hdb₁.xattr
  · obtain ⟨⟨rfl, hpanic, hcause⟩, -⟩ := h
    cases e with
    | panic => exact absurd rfl hpanic
    | err kind =>
      refine Or.inr ⟨rfl, Or.inr (hcause.imp_left fun hnone => ?_), db', rfl, hdb₁⟩
      have hrow := hdb₁.metadata.isSome ino
      rw [conn_withConn] at hnone
      rw [hnone] at hrow
      exact Option.not_isSome_iff_eq_none.1 (by simp [← hrow])

/-- The end of a round: the end of the file is computed, and the block stored. -/
theorem store_block_ends (hlt : last < 2 ^ 32) {db₁ : Db X} {bytes : Bytes}
    (hdb₁ : s.conn.SameUpTo .atimeless db₁)
    (hget : (blockLo offset i ≠ 0 ∨ blockEnd last i ≠ blockSize) →
      env.fails (.getData i) = false)
    (hbytes : offset / blockSize + 1 ≤ i → i < last / blockSize + 1 →
      bytes = newBlock (s.conn.blocks ino i) offset data i) :
    (u32Add env none ((i - 1) * blockSize) (blockEnd last i) >>= fun new_size =>
      callOrNoEnt env (.writeData i) fun db => db.writeData (env.now (.writeData i)) ino i
        bytes (UInt32.ofNat new_size)).Ensures (s.withConn db₁)
      (fun _ => BlockDone env s ino offset last data i) (BlockFails env s ino offset last i) := by
  have hcalls : env.fails (.writeData i) = false → ¬ CallsFail env offset last i := by
    rintro hput (hf | ⟨hpart, hf⟩)
    · simp [hput] at hf
    · simp [hget hpart] at hf
  refine (ensures_bind _ _).2 (ensures_u32Add_of (fun new_size hnew => ?_) (Or.inl rfl))
  refine (store_block_spec hdb₁ bytes _).mono (fun _ s' h => ?_) fun _ _ h => h
  obtain ⟨hput, hrow, hext, db', rfl, h⟩ := h
  refine ⟨hcalls hput, hrow, hext, fun hi hi' => ⟨db', rfl, ?_⟩⟩
  have hend : (i - 1) * blockSize + blockEnd last i = i * blockSize := by
    rw [blockEnd, if_neg hi'.ne, ← Nat.succ_mul, Nat.succ_eq_add_one,
      Nat.sub_add_cancel ((Nat.le_add_left 1 _).trans hi)]
  have hfits : i * blockSize < 2 ^ 32 := by
    unfold blockSize at hi' ⊢
    omega
  rw [hbytes hi hi', hnew (hend.trans_lt hfits), hend] at h
  exact h

/-- **One block of a write**, whatever the range. -/
theorem writeBlock_ends (hlast : endOfRange env offset size = some last) (i : ℕ) :
    (writeBlock env ino offset size data (offset / blockSize + 1) (last / blockSize + 1)
        i).Ensures s
      (fun _ => BlockDone env s ino offset last data i) (BlockFails env s ino offset last i) := by
  have hlt := endOfRange_lt hlast
  have hpanic : ∀ s' : SqliteFs X, BlockFails env s ino offset last i (.panic none) s' :=
    fun _ => Or.inl rfl
  unfold writeBlock
  rw [ensures_bind, ensures_blockEnd hlast, ensures_bind]
  refine (ensures_ite _ _ _).2 ⟨fun hpart => ?_, fun hfull => ?_⟩
  · refine (ensures_bind _ _).2 ((ensures_callOrNoEnt _ _).2 ⟨fun hget => ?_, fun hget => ?_⟩)
    · exact Or.inr ⟨rfl, Or.inl (Or.inr ⟨hpart, hget⟩), s.conn, rfl, .refl _ _⟩
    · refine (Sqlite.getData_spec _ _ _ _ _ _).mono (fun pre db₁ h₁ => ?_) fun _ _ h => h.elim
      obtain ⟨rfl, hdb₁⟩ := h₁
      refine (ensures_bind _ _).2 ((ensures_slice _ _ _).2 ⟨fun _ => ?_, fun _ => hpanic _⟩)
      refine (ensures_bind _ _).2 (ensures_u32Add_of (fun data_end hsum => ?_) (hpanic _))
      refine (ensures_bind _ _).2 (ensures_u32Sub_of (fun data_end' hdiff => ?_) (hpanic _))
      refine (ensures_bind _ _).2 ((ensures_slice _ _ _).2 ⟨fun _ => ?_, fun _ => hpanic _⟩)
      refine (ensures_bind _ _).2 ((ensures_slice _ _ _).2 ⟨fun _ => ?_, fun _ => hpanic _⟩)
      refine store_block_ends hlt hdb₁ (fun _ => hget) fun hi hi' => ?_
      -- a block before the last that is not filled is the first
      have hhi : blockEnd last i = blockSize := if_neg hi'.ne
      have hlo : blockLo offset i ≠ 0 := hpart.resolve_right fun hne => hne hhi
      have hle : blockLo offset i ≤ blockSize := by
        unfold blockLo
        split_ifs
        · exact (Nat.mod_lt _ (by decide)).le
        · exact Nat.zero_le _
      have hskip : blockSkip offset i = 0 := by
        unfold blockLo at hlo
        unfold blockSkip
        split_ifs at hlo with hfirst
        · exact if_neg (by omega)
        · exact absurd rfl hlo
      replace hsum : blockSkip offset i + blockEnd last i < 2 ^ 32 →
        data_end = blockSkip offset i + blockEnd last i := hsum
      replace hdiff : blockLo offset i ≤ data_end → data_end' = data_end - blockLo offset i := hdiff
      rw [hskip, hhi, Nat.zero_add] at hsum
      rw [hsum (by decide)] at hdiff
      have hdata_end' := hdiff hle
      have hrest : ∀ pre : Bytes, (pre.take blockSize).drop blockSize = [] := fun pre =>
        List.drop_eq_nil_of_le (List.length_take_le _ _)
      rw [newBlock, if_neg hlo, hdata_end', hhi, hrest, List.append_nil, List.drop_zero]
      exact congrArg (_ ++ (data.take (blockSize - blockLo offset i)).drop ·) hskip
  · have hlo : blockLo offset i = 0 := not_not.1 (not_or.1 hfull).1
    have hhi : blockEnd last i = blockSize := not_not.1 (not_or.1 hfull).2
    have hslice : ∀ data_end, (offset / blockSize + 1 ≤ i → i < last / blockSize + 1 →
        data_end = blockSkip offset i + blockSize) →
        (slice data (blockSkip offset i) data_end).Ensures s (fun bytes s' =>
          (u32Add env none ((i - 1) * blockSize) (blockEnd last i) >>= fun new_size =>
            callOrNoEnt env (.writeData i) fun db => db.writeData (env.now (.writeData i)) ino i
              bytes (UInt32.ofNat new_size)).Ensures s'
            (fun _ => BlockDone env s ino offset last data i)
            (BlockFails env s ino offset last i)) (BlockFails env s ino offset last i) := by
      intro data_end hend
      refine (ensures_slice _ _ _).2 ⟨fun _ => ?_, fun _ => hpanic _⟩
      refine store_block_ends hlt (.refl _ _) (fun hpart => ?_) fun hi hi' => ?_
      · exact absurd hpart (by simp [hlo, hhi])
      · rw [hend hi hi', newBlock, if_pos hlo, List.drop_take, Nat.add_sub_cancel_left]
    rw [ensures_bind, ensures_u32Add]
    refine ⟨fun _ => hslice _ fun _ _ => rfl, fun hover => ⟨fun _ => hpanic _, fun _ => ?_⟩⟩
    refine hslice _ fun hi hi' => absurd ?_ hover
    unfold blockSize at hi hi' ⊢
    split_ifs <;> omega

/-! ### The blocks before one that fails -/

/-- The blocks of the range before the block `k` have been stored. -/
structure PartlyWritten (env : Env) (s : SqliteFs X) (ino offset : ℕ) (data : Bytes) (k : ℕ)
    (db : Db X) : Prop where
  blocks : ∀ j b, db.blocks j b = if j = ino ∧ offset / blockSize + 1 ≤ b ∧ b < k
    then some (newBlock (s.conn.blocks ino b) offset data b) else s.conn.blocks j b
  metadata : ∀ j, (db.metadata.find j).map .atimeless = (s.conn.metadata.find j).map fun m =>
    if j = ino ∧ offset / blockSize + 1 < k
    then (s.db.writtenRow (env.now (.writeData (k - 1))) (UInt32.ofNat ((k - 1) * blockSize))
      m).atimeless
    else m.atimeless
  dentry : db.dentry = s.conn.dentry
  xattr : db.xattr = s.conn.xattr

namespace PartlyWritten

variable {k : ℕ} {db db' : Db X}

theorem start (s : SqliteFs X) :
    s.PartlyWritten env ino offset data (offset / blockSize + 1) s.conn where
  blocks _ _ := (if_neg fun h => absurd h.2.1 (not_le.2 h.2.2)).symm
  metadata _ := congrArg (Option.map · _) (funext fun _ => (if_neg fun h => h.2.ne rfl).symm)
  dentry := rfl
  xattr := rfl

theorem accessed (h : s.PartlyWritten env ino offset data k db) (hdb : db.SameUpTo .atimeless db') :
    s.PartlyWritten env ino offset data k db' where
  blocks j b := by rw [Db.blocks_eq_of_data_eq hdb.data, h.blocks]
  metadata j := (hdb.metadata.find j).trans (h.metadata j)
  dentry := hdb.dentry.trans h.dentry
  xattr := hdb.xattr.trans h.xattr

theorem isSome (h : s.PartlyWritten env ino offset data k db) (j : ℕ) :
    (db.metadata.find j).isSome = (s.conn.metadata.find j).isSome := by
  have := congrArg Option.isSome (h.metadata j)
  rwa [Option.isSome_map, Option.isSome_map] at this

theorem find_eq_none (h : s.PartlyWritten env ino offset data k db) {j : ℕ}
    (hnone : db.metadata.find j = none) : s.conn.metadata.find j = none := by
  have := h.isSome j
  rw [hnone] at this
  exact Option.not_isSome_iff_eq_none.1 (by simp [← this])

/-- One more block. -/
theorem next (h : s.PartlyWritten env ino offset data k db) (hk : offset / blockSize + 1 ≤ k)
    (hfits : k * blockSize < 2 ^ 32)
    (hstored : db.BlockStored s.db (env.now (.writeData k)) ino k
      (newBlock (db.blocks ino k) offset data k) (UInt32.ofNat (k * blockSize)) db') :
    s.PartlyWritten env ino offset data (k + 1) db' where
  blocks j b := by
    have hold : db.blocks ino k = s.conn.blocks ino k :=
      (h.blocks ino k).trans (if_neg fun hc => hc.2.2.ne rfl)
    rw [hstored.blocks, h.blocks j b, hold]
    by_cases hb : j = ino ∧ b = k
    · rw [if_pos hb, if_pos ⟨hb.1, hb.2 ▸ hk, by omega⟩, hb.2]
    · rw [if_neg hb]
      refine if_congr (and_congr_right fun hj => and_congr_right fun _ => ?_) rfl rfl
      have hbk : b ≠ k := fun hbk => hb ⟨hj, hbk⟩
      omega
  metadata j := by
    have hj := congrArg (Option.map fun m : MetadataRow => if j = ino then (s.db.writtenRow
      (env.now (.writeData k)) (UInt32.ofNat (k * blockSize)) m).atimeless else m.atimeless)
        (h.metadata j)
    rw [Option.map_map, Option.map_map] at hj
    refine (hstored.metadata j).trans (Eq.trans hj ?_)
    refine congrArg (Option.map · _) (funext fun m => ?_)
    simp only [Function.comp_apply, Nat.add_sub_cancel, Nat.lt_succ_of_le hk, and_true]
    by_cases hj : j = ino
    · have hle : UInt32.ofNat ((k - 1) * blockSize) ≤ UInt32.ofNat (k * blockSize) := by
        have hmul : (k - 1) * blockSize ≤ k * blockSize := Nat.mul_le_mul_right _ (Nat.sub_le _ _)
        rw [UInt32.le_iff_toNat_le, UInt32.toNat_ofNat_of_lt' hfits,
          UInt32.toNat_ofNat_of_lt' (hmul.trans_lt hfits)]
        exact hmul
      simp only [hj, ↓reduceIte, true_and]
      split_ifs
      · refine Eq.trans ?_ (congrArg MetadataRow.atimeless (s.db.writtenRow_writtenRow
          (env.now (.writeData (k - 1))) (env.now (.writeData k)) hle m))
        rfl
      · rfl
    · simp only [hj, ↓reduceIte, false_and]
      rfl
  dentry := hstored.dentry.trans h.dentry
  xattr := hstored.xattr.trans h.xattr

end PartlyWritten

/-- From the block `i` on, the block `k` is the first for which a call fails. -/
structure BreaksOffAt (env : Env) (s : SqliteFs X) (ino offset last i k : ℕ) : Prop where
  first_le : i ≤ k
  le_last : k ≤ last / blockSize + 1
  before : ∀ j, i ≤ j → j < k → ¬ CallsFail env offset last j
  stored : i < k → (s.conn.metadata.find ino).isSome ∧ s.db.extensions = true
  cause : CallsFail env offset last k ∨ s.conn.metadata.find ino = none ∨ s.db.extensions = false

section BreaksOffAt

variable {k k' : ℕ} (hrow : (s.conn.metadata.find ino).isSome) (hext : s.db.extensions = true)

include hrow hext

/-- Where the file can be written, only calls fail. -/
theorem BreaksOffAt.callsFail (h : s.BreaksOffAt env ino offset last i k) :
    CallsFail env offset last k := by
  refine h.cause.resolve_right fun hc => hc.elim (fun hnone => ?_) fun hno => ?_
  · simp [hnone] at hrow
  · simp [hno] at hext

/-- There is one first block for which a call fails. -/
theorem BreaksOffAt.eq (h : s.BreaksOffAt env ino offset last i k)
    (h' : s.BreaksOffAt env ino offset last i k') : k = k' := by
  rcases Nat.lt_trichotomy k k' with hlt | heq | hlt
  · exact absurd (h.callsFail hrow hext) (h'.before k h.first_le hlt)
  · exact heq
  · exact absurd (h'.callsFail hrow hext) (h.before k' h'.first_le hlt)

end BreaksOffAt

/-- **How far the loop of a write gets**: up to the first block for which a call fails. -/
theorem write_blocks_break_off (hlast : endOfRange env offset size = some last) {n : ℕ}
    (hn : last / blockSize + 1 + 1 - i = n) (hi : offset / blockSize + 1 ≤ i) {s₁ : SqliteFs X}
    (hs₁ : i ≤ last / blockSize + 1 → ∃ db₁, s₁ = s.withConn db₁ ∧
      s.PartlyWritten env ino offset data i db₁) :
    (Proc.each (writeBlock env ino offset size data (offset / blockSize + 1)
        (last / blockSize + 1)) (List.range' i n)).Ensures s₁
      (fun _ _ => ∀ j, i ≤ j → j ≤ last / blockSize + 1 → ¬ CallsFail env offset last j)
      (fun e s' => e = .panic none ∨ (e = .reply (.error .ENOENT) ∧
        ∃ k, s.BreaksOffAt env ino offset last i k ∧
          ∃ db', s' = s.withConn db' ∧ s.PartlyWritten env ino offset data k db')) := by
  induction n generalizing i s₁ with
  | zero => exact fun j hij hj => absurd (hij.trans hj) (by omega)
  | succ n ih =>
    have hend : i ≤ last / blockSize + 1 := by omega
    obtain ⟨db₁, rfl, h⟩ := hs₁ hend
    rw [List.range'_succ]
    refine (ensures_bind _ _).2 ((writeBlock_ends hlast i).mono (fun _ s₂ h₂ => ?_)
      fun e s₂ h₂ => ?_)
    · have hrow : (s.conn.metadata.find ino).isSome := (h.isSome ino).symm.trans h₂.row
      -- the state after the block matters only where another block follows
      refine (ih (by omega) (hi.trans (Nat.le_succ i)) fun hnext => ?_).mono
        (fun _ s₃ h₃ j hij hj => ?_) fun e s₃ h₃ => ?_
      · obtain ⟨db₂, rfl, hstored⟩ := h₂.stored hi hnext
        have hfits : i * blockSize < 2 ^ 32 := by
          have := endOfRange_lt hlast
          unfold blockSize at hnext ⊢
          omega
        exact ⟨db₂, rfl, h.next hi hfits hstored⟩
      · rcases Nat.eq_or_lt_of_le hij with rfl | hlt
        · exact h₂.calls
        · exact h₃ j hlt hj
      · refine h₃.imp_right fun ⟨he, k, hk, hs₃⟩ => ⟨he, k, ?_, hs₃⟩
        refine ⟨(Nat.le_succ i).trans hk.first_le, hk.le_last, fun j hij hj => ?_,
          fun _ => ⟨hrow, h₂.extensions⟩, hk.cause⟩
        rcases Nat.eq_or_lt_of_le hij with rfl | hlt
        · exact h₂.calls
        · exact hk.before j hlt hj
    · rcases h₂ with rfl | ⟨rfl, hcause, db', rfl, hdb'⟩
      · exact Or.inl rfl
      · exact Or.inr ⟨rfl, i, ⟨le_refl i, hend, fun j hij hj => absurd hij (not_le.2 hj),
          fun hlt => absurd rfl hlt.ne, hcause.imp_right (Or.imp_left h.find_eq_none)⟩, db', rfl,
          h.accessed hdb'⟩

/-- **How far a write gets.** -/
theorem write_breaks_off (ino : ℕ) (offset : ℤ) (data : Bytes) (hro : s.readOnly = false) :
    (write env ino offset data).Ensures s
      (fun reply _ => reply = .written (asU32 data.length) ∧
        ∀ last, endOfRange env (i64AsU32 offset) (asU32 data.length) = some last →
          ∀ j, i64AsU32 offset / blockSize + 1 ≤ j → j ≤ last / blockSize + 1 →
            ¬ CallsFail env (i64AsU32 offset) last j)
      (fun e s' => e = .panic none ∨ (e = .reply (.error .ENOENT) ∧
        ∃ last, endOfRange env (i64AsU32 offset) (asU32 data.length) = some last ∧
          ∃ k, s.BreaksOffAt env (asU32 ino) (i64AsU32 offset) last
              (i64AsU32 offset / blockSize + 1) k ∧
            ∃ db', s' = s.withConn db' ∧
              s.PartlyWritten env (asU32 ino) (i64AsU32 offset) data k db')) := by
  unfold write
  rw [ensures_bind, ensures_writable]
  refine ⟨fun _ => ?_, fun hc => absurd hro hc⟩
  refine (ensures_bind _ _).2 ?_
  rw [lastByte_eq, ensures_ofOption]
  refine ⟨fun last hlast => ?_, fun _ => Or.inl rfl⟩
  refine (ensures_bind _ _).2 ((write_blocks_break_off (s := s) hlast rfl (le_refl _) fun _ =>
    ⟨s.conn, rfl, .start s⟩).mono (fun _ s' h => ⟨rfl, fun last' hlast' => ?_⟩) fun e s' h => ?_)
  · obtain rfl := Option.some.inj (hlast.symm.trans hlast')
    exact h
  · exact h.imp_right fun ⟨he, k, hk, hs'⟩ => ⟨he, last, hlast, k, hk, hs'⟩

end SqliteFs

end TemporalFs
