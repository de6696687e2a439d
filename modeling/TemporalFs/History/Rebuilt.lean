import Mathlib
import TemporalFs.Ext.DeltaCreate
import TemporalFs.Ext.Compress
import TemporalFs.History.Replay
import TemporalFs.Fs.Times
import TemporalFs.Fs.Writing
import TemporalFs.Fs.Invariants
import TemporalFs.Fs.ReadOnly

/-!
# The log of the blocks with the extensions of the repository

The laws that are documented of the extensions hold of the code in `ext/` for blobs of less than
`2 ^ 30` bytes. The blocks that the handlers store are never that large, so what was logged with
this code can be replayed with it: in every run, each mount builds the table `bdata` with the rows
of `data`.

## Main definitions

* `Externals.vendored`: the extensions of the repository, over the functions of zlib.
* `Db.HeldBelow`: all blocks that were ever stored are small and near the start of their file.
* `SqliteFs.SmallVisit`: the states of writable mounts whose requests are small.

## Main results

* `applyPatch_vendored`: a difference that was logged turns the old block into the new one.
* `SqliteFs.SmallVisit.storesBelow`: the handlers store small blocks.
* `SqliteFs.bdata_rebuilt`: the next mount rebuilds the blocks.
-/

namespace TemporalFs

open Proc

/-! ### The extensions -/

/-- The value of a function that ends with a blob. -/
def SqlResult.toOption : SqlResult → Option Bytes
  | .blob z => some z
  | _ => none

/-- The output of an application that ends with one. -/
def Fossil.Applied.toOption : Fossil.Applied → Option Bytes
  | .done y => some y
  | _ => none

/-- The SQL functions in `ext/` as the program calls them. Behind each delta there is something in
memory. -/
def Externals.vendored (Z : Zlib) (signed : Bool) (behind : Bytes → Bytes)
    (bareRow : List DataRow → ℕ) : Externals where
  compress x := (compressFunc Z x).toOption.getD []
  uncompress z := (uncompressFunc Z z).toOption
  deltaCreate x y := (Fossil.deltaCreateFunc signed x y).getD []
  deltaApply x d := (Fossil.deltaApplyFunc x d (behind d)).toOption
  bareRow := bareRow

/-- **A difference that was logged turns the old block into the new one.** -/
theorem applyPatch_vendored {Z : Zlib} (hZ : Z.Lawful) {signed : Bool} {behind : Bytes → Bytes}
    {bareRow : List DataRow → ℕ} {old new : DataRow} (hold : old.data.length < 2 ^ 29 + 2 ^ 14)
    (hnew : new.data.length < 2 ^ 29 + 2 ^ 14) :
    applyPatch (.vendored Z signed behind bareRow) old.data
      ((dataSpec (.vendored Z signed behind bareRow)).loggedUpdate old new).data = new.data := by
  obtain ⟨d, hd, hlen, happly⟩ := Fossil.deltaCreateFunc_spec signed
    (show old.data.length < 2 ^ 30 by omega) (show new.data.length < 2 ^ 30 by omega)
  have hsmall : d.length < 2 ^ 30 := by omega
  obtain ⟨y, hy, hz⟩ := compressFunc_spec hZ hsmall
  have huncompress := uncompressFunc_sizeHeader hZ hsmall hy
  simp only [applyPatch, dataSpec, DataRow.withData, Externals.vendored, hd, hz, Option.getD_some,
    huncompress, Option.bind_some, happly, SqlResult.toOption, Fossil.Applied.toOption]

variable {X : Externals} {n : ℕ}

/-! ### All blocks are small -/

/-- All blocks that were ever stored have less than `n` bytes, and numbers that a file of less than
`2 ^ 32` bytes needs. -/
def Db.HeldBelow (n : ℕ) (db : Db X) : Prop :=
  db.data.Always fun r => r.data.length < n ∧ r.blockNum ≤ 2 ^ 20

namespace Db.HeldBelow

variable {db db' : Db X}

theorem of_eq (h : db.HeldBelow n) (heq : db'.data = db.data) : db'.HeldBelow n := by
  rw [HeldBelow, heq]
  exact h

theorem foldl {β : Type} {f : Db X → β → Db X} (hf : ∀ db b, db.HeldBelow n → (f db b).HeldBelow n)
    (l : List β) {db : Db X} (h : db.HeldBelow n) : (l.foldl f db).HeldBelow n := by
  induction l generalizing db with
  | nil => exact h
  | cons b l ih => exact ih (hf db b h)

theorem deleteDataWhere (h : db.HeldBelow n) (p : DataRow → Bool) :
    (db.deleteDataWhere p).HeldBelow n :=
  foldl (f := fun d (r : DataRow) => d.deleteDataRow r.fileId r.blockNum)
    (fun db _ h => h.erase db.now _) _ h

theorem deleteMetadata (h : db.HeldBelow n) (i : ℕ) : (db.deleteMetadata i).HeldBelow n := by
  unfold Db.deleteMetadata
  split
  · exact h
  · have hxattr : (db.deleteXattrWhere fun r => r.fileId = i).HeldBelow n :=
      h.of_eq (db.data_deleteXattrWhere _)
    have hdata := hxattr.deleteDataWhere fun r => r.fileId = i
    exact hdata.of_eq ((Db.data_deleteDentryWhere _ _).trans (Db.data_deleteDentryWhere _ _))

theorem collect (h : db.HeldBelow n) (i : ℕ) : (db.collect i).HeldBelow n := by
  unfold Db.collect
  split_ifs
  · exact h.deleteMetadata i
  · exact h

theorem replaceData (h : db.HeldBelow n) {r : DataRow}
    (hr : r.data.length < n ∧ r.blockNum ≤ 2 ^ 20) (hdb : db.replaceData r = some db') :
      db'.HeldBelow n := by
  obtain ⟨-, -, -, hdata, -⟩ := Db.replaceData_eq_some hdb
  rw [HeldBelow, hdata]
  exact AuditedTable.Always.put h hr _

theorem upsertData (h : db.HeldBelow n) {r : DataRow}
    (hr : r.data.length < n ∧ r.blockNum ≤ 2 ^ 20) (hdb : db.upsertData r = some db') :
      db'.HeldBelow n := by
  unfold Db.upsertData at hdb
  split at hdb
  · obtain rfl := Option.some.inj hdb
    exact AuditedTable.Always.update (f := fun x => x.withData r.data) h
      (fun x hx => ⟨hr.1, (h.rows (AuditedTable.mem_of_find hx)).2⟩) _
      (dataSpec_key_withData X r.data)
  · exact h.replaceData hr hdb

end Db.HeldBelow

/-! ### Methods -/

section Methods

variable {db : Db X}

theorem keeps_metadata_heldBelow {f : Db X → Db X} (hf : ∀ db, (f db).data = db.data) :
    (Proc.modify f : Conn X Unit).Keeps (Db.HeldBelow n) :=
  keeps_modify fun db h => h.of_eq (hf db)

/-- The block of a byte whose offset is a `u32`. -/
theorem block_le {offset : ℕ} (h : offset < 2 ^ 32) : offset / blockSize + 1 ≤ 2 ^ 20 := by
  unfold blockSize
  omega

/-- A truncation cuts a block to less than `blockSize` bytes. -/
theorem keeps_releaseData_heldBelow (hn : blockSize ≤ n) (i : ℕ) (offset : UInt32) :
    (releaseData i offset : Conn X Unit).Keeps (Db.HeldBelow n) := by
  refine keeps_ite (keeps_modify fun db h => h.deleteDataWhere _) (keeps_ite
    (keeps_modify fun db h => h.deleteDataWhere _) (keeps_bind keeps_get fun db => ?_))
  refine keeps_bind (keeps_step fun db db' h hr => h.replaceData ⟨?_, ?_⟩ hr)
    fun _ => keeps_modify fun db h => h.deleteDataWhere _
  · have hlt := Nat.mod_lt offset.toNat (show 0 < blockSize by decide)
    rw [resize_eq_padTo, length_padTo]
    omega
  · exact block_le offset.toNat_lt

namespace Sqlite

variable (self : Sqlite) (now : Now)

theorem keeps_updateInode_heldBelow (hn : blockSize ≤ n) (attr : DBFileAttr) (truncate : Bool) :
    (self.updateInode now attr truncate : Conn X Unit).Keeps (Db.HeldBelow n) :=
  keeps_atomically <| keeps_bind (keeps_getInodeLocal _) fun _ =>
    keeps_bind keeps_ofOption fun _ => keeps_bind (keeps_utcFrom _) fun _ =>
      keeps_bind (keeps_ite (keeps_pure _) (keeps_utcFrom _)) fun _ =>
        keeps_bind (keeps_utcFrom _) fun _ =>
          keeps_bind (keeps_metadata_heldBelow fun _ => rfl) fun _ =>
            keeps_when (keeps_releaseData_heldBelow hn _ _)

theorem keeps_writeData_heldBelow (i : ℕ) {k : ℕ} (hk : k ≤ 2 ^ 20) {data : Bytes}
    (hdata : data.length < n) (size : UInt32) :
      (self.writeData now i k data size : Conn X Unit).Keeps (Db.HeldBelow n) :=
  keeps_atomically <| keeps_bind keeps_get fun _ => keeps_bind keeps_ofOption fun _ =>
    keeps_bind keeps_require fun _ =>
      keeps_bind (keeps_step fun _ _ h hu => h.upsertData ⟨hdata, hk⟩ hu) fun _ =>
        keeps_bind (keeps_when (keeps_metadata_heldBelow fun _ => rfl)) fun _ =>
          keeps_when (keeps_bind (keeps_metadata_heldBelow fun _ => rfl) fun _ =>
            keeps_metadata_heldBelow fun _ => rfl)

theorem keeps_addInodeAndDentry_heldBelow (p : ℕ) (name : Name) (attr : DBFileAttr) :
    (self.addInodeAndDentry now p name attr : Conn X ℕ).Keeps (Db.HeldBelow n) := fun db h =>
  (self.addInodeAndDentry_spec now p name attr db).mono (fun _ _ hadd => h.of_eq hadd.data)
    fun _ _ heq => heq ▸ h

theorem keeps_getData_heldBelow (i k length : ℕ) :
    (self.getData now i k length : Conn X Bytes).Keeps (Db.HeldBelow n) := fun db h =>
  (self.getData_spec now db i k length).mono (fun _ _ hget => h.of_eq hget.2.data)
    fun _ _ h => h.elim

end Sqlite

end Methods

/-! ### Handlers -/

/-- The requests that store blocks. -/
def Request.stores : Request → Bool
  | .write .. | .symlink .. | .setattr .. => true
  | _ => false

/-- The request has less than `2 ^ 29` bytes. -/
def Request.Small : Request → Prop
  | .write _ _ _ data => data.length < 2 ^ 29
  | _ => True

namespace SqliteFs

variable {env : Env} {s s' : SqliteFs X} {r : Request} {out : Outcome}

/-- All blocks that the database of a mount has ever held are small. -/
def StoresBelow (n : ℕ) (s : SqliteFs X) : Prop := s.conn.HeldBelow n

theorem keeps_callOrNoEnt {α : Type} {c : Call} {m : Sqlite → Conn X α}
    (hm : ∀ self, (m self).Keeps (Db.HeldBelow n)) :
    (callOrNoEnt env c m).Keeps (StoresBelow n) := fun s hs => by
  rw [ensures_callOrNoEnt]
  exact ⟨fun _ => hs, fun _ => hm s.db s.conn hs⟩

theorem keeps_countLookup_storesBelow (sent : Option Reply) (i : ℕ) :
    (countLookup env sent i : Handler X Unit).Keeps (StoresBelow n) :=
  keeps_bind keeps_get fun _ => keeps_bind (keeps_u32Add _ _ _) fun _ => keeps_modify fun _ h => h

theorem keeps_setattr_storesBelow (hn : blockSize ≤ n) (ino : ℕ) (req : SetAttr) :
    (setattr env ino req : Handler X Reply).Keeps (StoresBelow n) := by
  have htime : ∀ t o, (setTime t o : Handler X SystemTime).Keeps (StoresBelow n) := by
    intro t o
    cases o with
    | none => exact keeps_pure t
    | some ts => exact keeps_ofOption
  exact keeps_bind keeps_writable fun _ =>
    keeps_bind (keeps_callOrNoEnt fun self => keeps_getInodeLocal _) fun _ =>
      keeps_bind keeps_ofOption fun _ => keeps_bind (htime _ _) fun _ =>
        keeps_bind (htime _ _) fun _ => keeps_bind (htime _ _) fun _ =>
          keeps_bind (keeps_callOrNoEnt fun self =>
            self.keeps_updateInode_heldBelow _ hn _ _) fun _ => keeps_pure _

theorem keeps_symlink_storesBelow (hn : blockSize < n) (parent : ℕ) (name link : Bytes) :
    (symlink env parent name link : Handler X Reply).Keeps (StoresBelow n) := by
  refine keeps_bind keeps_writable fun _ => keeps_bind (keeps_toStr _) fun _ =>
    keeps_bind (keeps_callOrNoEnt fun self => self.keeps_addInodeAndDentry_heldBelow _ _ _ _)
      fun _ => keeps_bind (keeps_toStr _) fun data => fun s hs => ?_
  -- the target is stored after its length was checked
  refine (ensures_bind _ _).2 ((ensures_require _ _).2 ⟨fun hlen => ?_, fun _ => hs⟩)
  exact keeps_bind (keeps_callOrNoEnt fun self =>
    self.keeps_writeData_heldBelow _ _ (by decide) (hlen.trans_lt hn) _) (fun _ =>
      keeps_bind (keeps_countLookup_storesBelow _ _) fun _ => keeps_pure _) s hs

/-- A block that is written has the bytes of the request, and less than two blocks around them. -/
theorem keeps_writeBlock_storesBelow {data : Bytes} (hn : data.length + 2 * blockSize < n)
    (ino offset size start_block end_block : ℕ) {i : ℕ} (hi : i ≤ 2 ^ 20) :
    (writeBlock env ino offset size data start_block end_block i : Handler X Unit).Keeps
      (StoresBelow n) := by
  have hslice : ∀ (bytes : Bytes) (lo hi : ℕ) (s : SqliteFs X), s.StoresBelow n →
      (slice bytes lo hi : Handler X Bytes).Ensures s
        (fun piece s' => s'.StoresBelow n ∧ piece.length ≤ min bytes.length hi)
        fun _ s' => s'.StoresBelow n := by
    intro bytes lo hi s hs
    refine (ensures_slice _ _ _).2 ⟨fun h => ⟨hs, ?_⟩, fun _ => hs⟩
    rw [List.length_drop, List.length_take]
    omega
  have hstart : (if i = start_block then offset % blockSize else 0) ≤ blockSize := by
    split_ifs
    · exact (Nat.mod_lt _ (by decide)).le
    · exact Nat.zero_le _
  intro s hs
  unfold writeBlock
  generalize hB : blockSize = B at hn hstart ⊢
  dsimp only
  generalize (if i = start_block then offset % B else 0) = b_start at hstart ⊢
  generalize (if i > start_block then (i - start_block - 1) * B + B - offset % B else 0) =
    data_offset
  refine (ensures_bind _ _).2 ((keeps_ite (keeps_bind (keeps_lastByte _ _) fun _ => keeps_pure _)
    (keeps_pure _) s hs).mono (fun b_end s₁ h₁ => ?_) fun _ _ h => h)
  have hput : ∀ (bytes : Bytes) (s₂ : SqliteFs X), s₂.StoresBelow n → bytes.length < n →
      (u32Add env none ((i - 1) * B) b_end >>= fun new_size =>
        callOrNoEnt env (.writeData i) fun db => db.writeData (env.now (.writeData i)) ino i
          bytes (UInt32.ofNat new_size)).Ensures s₂
        (fun _ s' => s'.StoresBelow n) fun _ s' => s'.StoresBelow n := fun bytes s₂ h₂ hlen =>
    keeps_bind (keeps_u32Add _ _ _) (fun _ => keeps_callOrNoEnt fun self =>
      self.keeps_writeData_heldBelow _ _ hi hlen _) s₂ h₂
  refine (ensures_bind _ _).2 ((ensures_ite _ _ _).2 ⟨fun _ => ?_, fun _ => ?_⟩)
  · refine (ensures_bind _ _).2 ((keeps_callOrNoEnt (fun self =>
      self.keeps_getData_heldBelow _ _ _ _) s₁ h₁).mono (fun pre s₂ h₂ => ?_) fun _ _ h => h)
    refine (ensures_bind _ _).2 ((hslice _ _ _ s₂ h₂).mono (fun before s₃ h₃ => ?_) fun _ _ h => h)
    refine (ensures_bind _ _).2 ((keeps_u32Add _ _ _ s₃ h₃.1).mono (fun e s₄ h₄ => ?_)
      fun _ _ h => h)
    refine (ensures_bind _ _).2 ((keeps_u32Sub _ _ s₄ h₄).mono (fun e s₅ h₅ => ?_) fun _ _ h => h)
    refine (ensures_bind _ _).2 ((hslice _ _ _ s₅ h₅).mono (fun written s₆ h₆ => ?_)
      fun _ _ h => h)
    refine (ensures_bind _ _).2 ((hslice _ _ _ s₆ h₆.1).mono (fun after s₇ h₇ => ?_)
      fun _ _ h => h)
    refine (ensures_pure _).2 (hput _ s₇ h₇.1 ?_)
    rw [List.length_append, List.length_append]
    have hbefore := h₃.2
    have hwritten := h₆.2
    have hafter := h₇.2
    omega
  · refine (ensures_bind _ _).2 ((keeps_u32Add _ _ _ s₁ h₁).mono (fun e s₂ h₂ => ?_)
      fun _ _ h => h)
    refine (hslice _ _ _ s₂ h₂).mono (fun bytes s₃ h₃ => hput _ s₃ h₃.1 ?_) fun _ _ h => h
    have hbytes := h₃.2
    omega

/-- The last byte has an offset that is a `u32`, and so the last block is near the start. -/
theorem keeps_write_storesBelow {data : Bytes} (hn : data.length + 2 * blockSize < n) (ino : ℕ)
    (offset : ℤ) : (write env ino offset data : Handler X Reply).Keeps (StoresBelow n) := by
  refine keeps_bind keeps_writable fun _ s hs => ?_
  dsimp only
  rw [lastByte_eq]
  refine (ensures_bind _ _).2 ((ensures_ofOption _ _).2 ⟨fun last hlast => ?_, fun _ => hs⟩)
  have hend := block_le (endOfRange_lt hlast)
  refine (ensures_bind _ _).2 (Ensures.mono (ensures_each (fun i hi s₁ h₁ =>
    keeps_writeBlock_storesBelow hn _ _ _ _ _ ?_ s₁ h₁) hs) (fun _ _ h => h) fun _ _ h => h)
  have hmem := List.mem_range'_1.1 hi
  omega

/-- The other requests delete blocks at most. -/
theorem Effect.storesBelow (h : Effect env s r s' out) (hr : r.stores = false)
    (hs : s.StoresBelow n) : s'.StoresBelow n := by
  have hfinish : ∀ {db : Db X} {res : Option ℕ}, s.Finishes env db res s' out →
      db.HeldBelow n → s'.StoresBelow n := fun h hdb => by
    rcases h.conn_eq_or with h | ⟨j, -, h⟩
    · exact hdb.of_eq (congrArg Db.data h)
    · exact (hdb.collect j).of_eq (congrArg Db.data h)
  cases h with
  | quiet h => exact Db.HeldBelow.of_eq hs h.conn.data
  | looked_up _ hdb _ hs' =>
    exact Db.HeldBelow.of_eq hs ((congrArg Db.data hs'.conn_eq).trans hdb.data)
  | made _ hdb hadd hcont hs' =>
    rcases hcont with rfl | ⟨link, rfl, -, -⟩
    · exact Db.HeldBelow.of_eq hs
        ((congrArg Db.data hs'.conn_eq).trans (hadd.data.trans hdb.data))
    · exact absurd hr (by simp [Request.stores])
  | half_made _ hdb hadd hs' =>
    exact Db.HeldBelow.of_eq hs (hs' ▸ hadd.data.trans hdb.data)
  | linked h hs' => exact Db.HeldBelow.of_eq hs ((congrArg Db.data hs'.conn_eq).trans h.rest.data)
  | removed _ hdb h _ hs' => exact hfinish hs' (Db.HeldBelow.of_eq hs (h.rest.data.trans hdb.data))
  | renamed _ h hs' => exact hfinish hs' (Db.HeldBelow.of_eq hs h.rest.data)
  | renamed_onto_itself _ h hs' => exact hfinish hs' (Db.HeldBelow.of_eq hs h.rest.data)
  | forgot h =>
    cases h with
    | ignored => exact hs
    | counted_down _ _ hconn =>
      rw [StoresBelow, hconn]
      split_ifs
      · exact Db.HeldBelow.collect hs _
      · exact hs
    | too_much _ _ _ hconn => exact Db.HeldBelow.of_eq hs (congrArg Db.data hconn)
  | swept _ hs' => exact hs' ▸ Db.HeldBelow.foldl (fun _ i h => h.deleteMetadata i) _ hs
  | destroyed _ hs' => exact hs' ▸ Db.HeldBelow.foldl (fun _ i h => h.collect i) _ hs
  | wrote => exact absurd hr (by simp [Request.stores])
  | updated => exact absurd hr (by simp [Request.stores])
  | xattr_changed _ h hs' => exact hs' ▸ Db.HeldBelow.of_eq hs h.data

/-- The states of writable mounts of a database made by `init`, where the requests are small. -/
inductive SmallVisit : SqliteFs X → Prop
  | mounted {s : SqliteFs X} {db : Sqlite} {now : Now} (clock : ℕ → ℕ)
      (h : mount db now (Db.empty X clock) false false = some s) : SmallVisit s
  | handled {s : SqliteFs X} (h : SmallVisit s) (r : Env × Request) (hsmall : r.2.Small) :
      SmallVisit (s.after r)
  | remounted {s s' : SqliteFs X} {db : Sqlite} {now : Now} (h : SmallVisit s)
      (hs : mount db now s.conn false false = some s') : SmallVisit s'

theorem SmallVisit.visited (h : s.SmallVisit) : s.Visited := by
  induction h with
  | mounted clock h => exact .mounted clock h
  | handled _ r _ ih => exact ih.handled r
  | remounted _ hs ih => exact ih.remounted hs

theorem SmallVisit.writable (h : s.SmallVisit) : s.WritableMount := h.visited.storable.1

/-- A mount keeps the blocks, and builds `bdata` from their log. -/
theorem mount_applies_diffs {db : Sqlite} {now : Now} {conn : Db X}
    (h : mount db now conn false false = some s) :
    ∃ db₁ : Db X, db₁.data = conn.data ∧ s.conn = (applyDiffs db.extensions db₁).1 := by
  have hinit := db.init_applies_diffs (I := fun db₁ => db₁.data = conn.data) now
    (fun db₁ h₁ => (addInodeLocal_spec db₁ _).mono (fun _ _ hadd => hadd.2.2.2.1.trans h₁)
      fun _ _ h => h)
    (fun n _ db₁ h₁ => (addDentry_spec db₁ _).mono (fun _ _ hadd => hadd.2.2.2.1.trans h₁)
      fun _ _ _ => trivial) rfl
  obtain ⟨conn', hconn', rfl⟩ := opened_of_mount h hinit
  exact hconn'

theorem data_applyDiffs (extensions : Bool) (db : Db X) :
    (applyDiffs extensions db).1.data = db.data :=
  (keeps_applyDiffs (I := fun db' : Db X => db'.data = db.data) (fun _ _ h => h) extensions).fst rfl

/-- **The handlers store small blocks** in these states. -/
theorem SmallVisit.storesBelow (h : s.SmallVisit) : s.StoresBelow (2 ^ 29 + 2 ^ 14) := by
  have hmount : ∀ {db : Sqlite} {now : Now} {conn : Db X} {s : SqliteFs X},
      mount db now conn false false = some s → conn.HeldBelow (2 ^ 29 + 2 ^ 14) →
        s.StoresBelow (2 ^ 29 + 2 ^ 14) := by
    intro db now conn s h hconn
    obtain ⟨db₁, hdata, hs⟩ := mount_applies_diffs h
    exact hconn.of_eq ((congrArg Db.data hs).trans ((data_applyDiffs _ _).trans hdata))
  induction h with
  | mounted clock h => exact hmount h (AuditedTable.always_empty _)
  | @handled s h r hsmall ih =>
    by_cases hstores : r.2.stores = true
    · obtain ⟨env, r⟩ := r
      cases r with
      | write ino fh offset data =>
        have hlen : data.length < 2 ^ 29 := hsmall
        exact outcome_keeps (keeps_write_storesBelow (by unfold blockSize; omega) ino offset) ih
      | symlink parent name link =>
        exact outcome_keeps (keeps_symlink_storesBelow (by decide) parent name link) ih
      | setattr ino req => exact outcome_keeps (keeps_setattr_storesBelow (by decide) ino req) ih
      | _ => exact absurd hstores (by simp [Request.stores])
    · exact (h.writable.handle_effect r).storesBelow (Bool.eq_false_iff.2 hstores) ih
  | remounted _ hs ih => exact hmount hs ih

/-- The numbers of the blocks fit into a `u32`. -/
theorem SmallVisit.blocksFit (h : s.SmallVisit) : s.conn.BlocksFit := by
  intro k r hr
  have hblock := (AuditedTable.Always.rows h.storesBelow (AuditedTable.mem_of_find hr)).2
  refine ⟨(s.conn.sequence_bound _ (s.conn.data_fk k r hr)).trans_lt h.writable.sequence_lt, ?_⟩
  omega

/-- **The blocks are rebuilt**: after any requests to any mounts, the next mount builds the table
`bdata` with the rows of `data`, by the extensions of the repository. -/
theorem bdata_rebuilt {Z : Zlib} (hZ : Z.Lawful) {signed : Bool} {behind : Bytes → Bytes}
    {bareRow : List DataRow → ℕ} {s s' : SqliteFs (.vendored Z signed behind bareRow)}
    (h : s.SmallVisit)
    (hseq : s.conn.data.audit.length < 2 ^ 32) {db : Sqlite} (hdb : db.extensions = true)
      {now : Now}
    (hs : mount db now s.conn false false = some s') :
    ∃ rows, s'.conn.bdata = some rows ∧ rows.Perm s'.conn.data.rows := by
  obtain ⟨db₁, hdata, hconn⟩ := mount_applies_diffs hs
  have hbelow : db₁.HeldBelow (2 ^ 29 + 2 ^ 14) := h.storesBelow.of_eq hdata
  have hreplays : db₁.Replays := db₁.replays_of_history fun c hc old hold new hnew =>
    applyPatch_vendored hZ (hbelow.before hc hold).1 (hbelow c hc new hnew).1
  have hfit : db₁.BlocksFit := by
    rw [Db.BlocksFit, hdata]
    exact h.blocksFit
  rw [← hdata] at hseq
  obtain ⟨_, db₂, happly, hdb₂⟩ := (hreplays.applyDiffs_spec hfit hseq).exists_ok
  rw [hconn, hdb, happly, hdb₂]
  exact ⟨_, rfl, hreplays.perm_patched⟩

/-- A file is made and its block is written twice. -/
theorem bdata_rebuilt_sample :
    let s := (((newWithDb .new (Db.initialised (.vendored .sample true id fun _ => 0) id .new
      epoch)).after (.sample, .create 1 [97] 0)).after (.sample, .write 2 0 0 [97])).after
        (.sample, .write 2 0 0 [98])
    ∃ s', mount .new epoch s.conn false false = some s' ∧
      ∃ rows, s'.conn.bdata = some rows ∧ rows.Perm s'.conn.data.rows := by
  intro s
  have hmount : mount .new epoch (Db.empty (.vendored .sample true id fun _ => 0) id) false false =
    some (newWithDb .new (Db.initialised (.vendored .sample true id fun _ => 0) id .new epoch)) :=
      rfl
  have hcreated := (SmallVisit.mounted id hmount).handled (.sample, .create 1 [97] 0) trivial
  have hwritten := hcreated.handled (.sample, .write 2 0 0 [97]) (show 1 < 2 ^ 29 by decide)
  have htwice := hwritten.handled (.sample, .write 2 0 0 [98]) (show 1 < 2 ^ 29 by decide)
  have hroot : s.conn.RootInPlace := ⟨by decide +kernel, by decide +kernel, by decide +kernel⟩
  have hs := mount_of_rootInPlace .new epoch hroot false false
  exact ⟨_, hs, bdata_rebuilt Zlib.sample_lawful htwice (by decide +kernel) rfl hs⟩

end SqliteFs

end TemporalFs
