import Mathlib
import TemporalFs.Fs.Times
import TemporalFs.Fs.Writing

/-!
# Stored blocks stay within the file

A block is stored for a part of the file, and what it holds past the end of the file is zero. Writes
fill blocks up with zeros before the size covers them, and a change of the size cuts the block that
it ends in; in between the size may grow without the blocks.

## Main definitions

* `Db.BlocksWithin`: the invariant, in terms of block numbers and positions.
* `Db.BlocksWithinFiles`: the same of the rows of the table `data`.
* `SqliteFs.BoundedVisit`: the states of writable mounts whose requests stay within a `u32`.

## Main results

* `SqliteFs.blocks_within_files`: the invariant holds in these states.
-/

namespace TemporalFs

variable {X : Externals}

/-- The row holds a block of a file of `size` bytes, with zeros past its end. -/
structure DataRow.Within (r : DataRow) (size : ℕ) : Prop where
  num : 1 ≤ r.blockNum
  length : r.data.length ≤ blockSize
  starts : (r.blockNum - 1) * blockSize < size
  zero : ∀ q < r.data.length, size ≤ (r.blockNum - 1) * blockSize + q → r.data.getD q 0 = 0

/-- **The stored blocks lie within their files.** -/
def Db.BlocksWithinFiles (db : Db X) : Prop :=
  ∀ r ∈ db.data.rows, ∃ m, db.metadata.find r.fileId = some m ∧ r.Within m.size.toNat

/-- The blocks have numbers and lengths that fit the files, and the bytes past the ends are zero. -/
structure Db.BlocksWithin (db : Db X) : Prop where
  block : ∀ i k blob, db.blocks i k = some blob →
    1 ≤ k ∧ blob.length ≤ blockSize ∧ (k - 1) * blockSize < db.fileSize i
  zero : ∀ i p, db.fileSize i ≤ p → db.bytes i p = 0

/-- The bytes of a file that was cut. -/
theorem byteAt_truncatedBlock (n : ℕ) (blocks : ℕ → Option Bytes) (p : ℕ) :
    byteAt blockSize (truncatedBlock n blocks) p =
      if p < n then byteAt blockSize blocks p else 0 := by
  have hin : p % blockSize < blockSize := Nat.mod_lt p (by decide)
  have hlt : p < n ↔ p / blockSize < n / blockSize ∨
      (p / blockSize = n / blockSize ∧ p % blockSize < n % blockSize) := by
    unfold blockSize
    omega
  unfold byteAt truncatedBlock
  split_ifs with hcut hp hgone hp hp
  · rw [Option.getD_some, resize_eq_padTo, getD_padTo, if_pos (by omega)]
    cases blocks (p / blockSize + 1) with
    | none => simp [List.getD_eq_getElem?_getD, hin]
    | some blob => rfl
  · rw [Option.getD_some, resize_eq_padTo, getD_padTo, if_neg (by omega)]
  · omega
  · rfl
  · rfl
  · have hn : n % blockSize = 0 ∨ p / blockSize ≠ n / blockSize := by omega
    unfold blockSize at *
    omega

/-- The bytes of a file whose size was set. -/
theorem Db.Updated.bytes {db db' : Db X} {attr : DBFileAttr} {truncate : Bool}
    (h : db.Updated attr truncate db') (p : ℕ) : db'.bytes attr.ino p =
      if truncate = true then if p < attr.size.toNat then db.bytes attr.ino p else 0
      else db.bytes attr.ino p := by
  have hblocks : db'.blocks attr.ino = if truncate = true then
      truncatedBlock attr.size.toNat (db.blocks attr.ino) else db.blocks attr.ino := by
    funext b
    rw [h.blocks]
    cases truncate <;> simp
  rw [Db.bytes, hblocks]
  split_ifs with htr hp
  · rw [byteAt_truncatedBlock, if_pos hp, Db.bytes]
  · rw [byteAt_truncatedBlock, if_neg hp]
  · rfl

/-- What is left of a file that was cut to `n` bytes. -/
theorem truncatedBlock_within {n k : ℕ} {blob : Bytes} {blocks : ℕ → Option Bytes}
    (h : ∀ k blob, blocks k = some blob → 1 ≤ k ∧ blob.length ≤ blockSize)
    (hk : truncatedBlock n blocks k = some blob) :
    1 ≤ k ∧ blob.length ≤ blockSize ∧ (k - 1) * blockSize < n := by
  have hB : 0 < blockSize := by decide
  have hn := Nat.div_add_mod n blockSize
  have hin := Nat.mod_lt n hB
  unfold truncatedBlock at hk
  split_ifs at hk with hcut hgone
  · obtain rfl := Option.some.inj hk
    rw [resize_eq_padTo, length_padTo, hcut.2, Nat.add_sub_cancel, Nat.mul_comm]
    exact ⟨Nat.le_add_left 1 _, hin.le, by omega⟩
  · obtain ⟨hnum, hlength⟩ := h k blob hk
    refine ⟨hnum, hlength, ?_⟩
    push Not at hgone
    have hle := Nat.mul_le_mul_right blockSize hgone.2
    have hpred : (k - 1) * blockSize + blockSize = k * blockSize := by
      rw [← Nat.succ_mul, Nat.succ_eq_add_one, Nat.sub_add_cancel hnum]
    rw [Nat.mul_comm (n / blockSize)] at hle
    omega

namespace Db

variable {db db' : Db X}

theorem fileSize_congr {i : ℕ} (h : (db'.metadata.find i).map MetadataRow.timeless =
    (db.metadata.find i).map MetadataRow.timeless) : db'.fileSize i = db.fileSize i := by
  have hsize := congrArg (Option.map fun m : MetadataRow => m.size.toNat) h
  rw [Option.map_map, Option.map_map] at hsize
  unfold fileSize
  exact congrArg (Option.getD · 0) hsize

namespace BlocksWithin

variable (h : db.BlocksWithin)

include h

theorem withinFiles : db.BlocksWithinFiles := by
  intro r hr
  have hfind := db.data.find_key hr
  have hblock : db.blocks r.fileId r.blockNum = some r.data := by
    rw [dataSpec_key] at hfind
    rw [blocks, hfind, Option.map_some]
  obtain ⟨m, hm⟩ := Option.isSome_iff_exists.1 (db.data_fk _ r hfind)
  have hsize : db.fileSize r.fileId = m.size.toNat := by
    unfold fileSize
    rw [hm]
    rfl
  obtain ⟨hnum, hlength, hstarts⟩ := h.block _ _ _ hblock
  rw [hsize] at hstarts
  refine ⟨m, hm, hnum, hlength, hstarts, fun q hq hpast => ?_⟩
  have hzero := h.zero r.fileId ((r.blockNum - 1) * blockSize + q) (hsize ▸ hpast)
  have hplace : ((r.blockNum - 1) * blockSize + q) / blockSize + 1 = r.blockNum ∧
      ((r.blockNum - 1) * blockSize + q) % blockSize = q := by
    unfold blockSize at *
    omega
  rwa [bytes, byteAt, hplace.1, hplace.2, hblock] at hzero

/-- Blocks may go, with their file or without. -/
theorem mono (hsub : ∀ i k blob, db'.blocks i k = some blob →
    db.blocks i k = some blob ∧ db'.fileSize i = db.fileSize i) : db'.BlocksWithin where
  block i k blob hk := by
    obtain ⟨hk, hsize⟩ := hsub i k blob hk
    rw [hsize]
    exact h.block i k blob hk
  zero i p hp := by
    cases hk : db'.blocks i (p / blockSize + 1) with
    | none => rw [bytes, byteAt, hk, Option.getD_none, List.getD_nil]
    | some blob =>
      obtain ⟨hold, hsize⟩ := hsub i _ blob hk
      rw [hsize] at hp
      rw [bytes, byteAt, hk, ← hold]
      exact h.zero i p hp

theorem same (hdata : db'.data = db.data) (hsize : ∀ i, db'.fileSize i = db.fileSize i) :
    db'.BlocksWithin :=
  h.mono fun i _ _ hk => ⟨(blocks_eq_of_data_eq hdata i) ▸ hk, hsize i⟩

/-- A block is stored that lies in the file, with zeros past its end. -/
theorem written {i k : ℕ} {bytes : Bytes} {size : UInt32} (hw : db.Written i k bytes size db')
    (hk : 1 ≤ k) (hlen : bytes.length ≤ blockSize)
    (hstarts : (k - 1) * blockSize < max (db.fileSize i) size.toNat)
    (hzero : ∀ q, max (db.fileSize i) size.toNat ≤ (k - 1) * blockSize + q →
      bytes.getD q 0 = 0) : db'.BlocksWithin where
  block j b blob hb := by
    rw [hw.fileSize]
    rw [hw.blocks] at hb
    split_ifs at hb with hjb
    · obtain ⟨rfl, rfl⟩ := hjb
      obtain rfl := Option.some.inj hb
      rw [if_pos rfl]
      exact ⟨hk, hlen, hstarts⟩
    · obtain ⟨hnum, hlength, hstart⟩ := h.block j b blob hb
      refine ⟨hnum, hlength, hstart.trans_le ?_⟩
      split_ifs with hj
      · exact hj ▸ le_max_left _ _
      · exact le_refl _
  zero j p hp := by
    rw [hw.fileSize] at hp
    by_cases hj : j = i
    · subst hj
      rw [if_pos rfl] at hp
      have hblocks : ∀ b, db'.blocks j b = if b = k then some bytes else db.blocks j b :=
        fun b => (hw.blocks j b).trans (if_congr (and_iff_right rfl) rfl rfl)
      rw [Db.bytes, byteAt_update _ hblocks p]
      split_ifs with hpk
      · refine hzero _ (hp.trans_eq ?_)
        rw [← hpk, Nat.add_sub_cancel, Nat.mul_comm]
        exact (Nat.div_add_mod p blockSize).symm
      · exact h.zero j p ((le_max_left _ _).trans hp)
    · rw [if_neg hj] at hp
      have hblocks : db'.blocks j = db.blocks j := by
        funext b
        rw [hw.blocks, if_neg fun hc => hj hc.1]
      rw [Db.bytes, hblocks]
      exact h.zero j p hp

/-- A part of the range of a write is stored. -/
theorem overlaid {i offset size : ℕ} {data : Bytes} {done : List ℕ} (hpos : 1 ≤ offset + size)
    (hdone : ∀ k ∈ done, offset / blockSize + 1 ≤ k ∧ k ≤ (offset + size - 1) / blockSize + 1)
    (ho : db.Overlaid i offset size data done db') : db'.BlocksWithin := by
  have hsize := ho.size i
  rw [if_pos rfl] at hsize
  obtain ⟨hgrown, hend⟩ := le_foldl_max (f := writtenEnd offset size) done (db.fileSize i)
  rw [← hsize] at hgrown hend
  have hothers : ∀ j, j ≠ i → db'.fileSize j = db.fileSize j := fun j hj =>
    (ho.size j).trans (if_neg hj)
  constructor
  · intro j k blob hk
    by_cases hj : j = i
    · subst hj
      rcases ho.stored k blob hk with hk | ⟨hk, hlen⟩
      · obtain ⟨hnum, hlength, hstart⟩ := h.block j k blob hk
        exact ⟨hnum, hlength, hstart.trans_le hgrown⟩
      · obtain ⟨hlo, hhi⟩ := hdone k hk
        refine ⟨(Nat.le_add_left 1 _).trans hlo, hlen.le, lt_of_lt_of_le ?_ (hend k hk)⟩
        rw [← (inRange hpos hlo hhi).end_eq]
        exact Nat.lt_add_of_pos_right (blockHi_pos offset size k)
    · rw [hothers j hj]
      exact h.block j k blob (ho.others j hj k ▸ hk)
  · intro j p hp
    by_cases hj : j = i
    · subst hj
      rw [ho.bytes, if_neg, h.zero j p (hgrown.trans hp)]
      rintro ⟨hin, -, hlt⟩
      have hbefore : p < writtenEnd offset size (p / blockSize + 1) := by
        unfold writtenEnd
        split_ifs
        · exact hlt
        · unfold blockSize
          omega
      exact absurd (hbefore.trans_le (hend _ hin)) (not_lt.2 hp)
    · rw [hothers j hj] at hp
      rw [Db.bytes, show db'.blocks j = db.blocks j from funext (ho.others j hj)]
      exact h.zero j p hp

/-- The size of a file is set, and the file is cut if it was larger. -/
theorem updated {attr : DBFileAttr} {truncate : Bool} (hu : db.Updated attr truncate db')
    (htruncate : truncate = false → db.fileSize attr.ino ≤ attr.size.toNat) :
    db'.BlocksWithin := by
  have hothers : ∀ j, j ≠ attr.ino → db'.blocks j = db.blocks j := fun j hj => by
    funext b
    rw [hu.blocks, if_neg fun hc => hj hc.1]
  generalize hn : attr.size.toNat = n at *
  have hsize : ∀ j, db'.fileSize j = if j = attr.ino then n else db.fileSize j := fun j =>
    hn ▸ hu.fileSize j
  have hblocks : db'.blocks attr.ino = if truncate = true then
      truncatedBlock n (db.blocks attr.ino) else db.blocks attr.ino := by
    funext b
    rw [hu.blocks, hn]
    cases truncate <;> simp
  constructor
  · intro j k blob hk
    by_cases hj : j = attr.ino
    · subst hj
      rw [hsize, if_pos rfl]
      rw [hblocks] at hk
      cases htr : truncate with
      | false =>
        rw [htr, if_neg (by simp)] at hk
        obtain ⟨hnum, hlength, hstart⟩ := h.block _ k blob hk
        exact ⟨hnum, hlength, hstart.trans_le (htruncate htr)⟩
      | true =>
        rw [htr, if_pos rfl] at hk
        exact truncatedBlock_within (fun k blob hk => (h.block _ k blob hk).imp_right And.left) hk
    · rw [hsize, if_neg hj]
      rw [hothers j hj] at hk
      exact h.block j k blob hk
  · intro j p hp
    rw [hsize] at hp
    by_cases hj : j = attr.ino
    · subst hj
      rw [if_pos rfl] at hp
      rw [hu.bytes, hn, if_neg (not_lt.2 hp)]
      split_ifs with htr
      · rfl
      · exact h.zero _ p ((htruncate (by simpa using htr)).trans hp)
    · rw [if_neg hj] at hp
      rw [Db.bytes, hothers j hj]
      exact h.zero j p hp

theorem deleteMetadata (i : ℕ) : (db.deleteMetadata i).BlocksWithin := by
  refine h.mono fun j k blob hk => ?_
  unfold blocks at hk
  rw [data_find_deleteMetadata] at hk
  by_cases hj : j = i
  · rw [if_pos hj] at hk
    exact absurd hk (by simp)
  · rw [if_neg hj] at hk
    refine ⟨hk, ?_⟩
    unfold fileSize
    rw [metadata_find_deleteMetadata, if_neg hj]

theorem collect (i : ℕ) : (db.collect i).BlocksWithin := by
  unfold Db.collect
  split_ifs
  · exact h.deleteMetadata i
  · exact h

omit h in
theorem foldl {β : Type} {f : Db X → β → Db X} (hf : ∀ db b, db.BlocksWithin →
    (f db b).BlocksWithin)
    (l : List β) {db : Db X} (h : db.BlocksWithin) : (l.foldl f db).BlocksWithin := by
  induction l generalizing db with
  | nil => exact h
  | cons b l ih => exact ih (hf db b h)

omit h in
/-- Only files have blocks. -/
theorem isSome_of_block {i k : ℕ} {blob : Bytes} (hk : db.blocks i k = some blob) :
    (db.metadata.find i).isSome := by
  obtain ⟨r, hr, -⟩ := Option.map_eq_some_iff.1 hk
  have hkey := AuditedTable.key_of_find hr
  rw [dataSpec_key, Prod.mk.injEq] at hkey
  exact hkey.1 ▸ db.data_fk _ r hr

/-- A new inode has no blocks. -/
theorem added {p : ℕ} {n : Name} {attr : DBFileAttr} {child : ℕ}
    (hadd : db.Added p n attr child db') : db'.BlocksWithin := by
  refine h.mono fun i k blob hk => ?_
  rw [blocks_eq_of_data_eq hadd.data] at hk
  refine ⟨hk, fileSize_congr ?_⟩
  rw [hadd.metadata, if_neg fun hi => ?_]
  have := db.sequence_bound i (isSome_of_block hk)
  have := hadd.child_eq
  omega

end BlocksWithin

end Db

/-- The size of a file whose attributes are read. -/
theorem fileSize_of_inodeAttr {db : Db X} {i : ℕ} {a : DBFileAttr}
    (h : inodeAttr i db = .ok (some a)) : db.fileSize i = a.size.toNat := by
  obtain ⟨m, hm, hattr⟩ := inodeAttr_eq_ok_some h
  rw [Db.fileSize, hm, Option.map_some, Option.getD_some]
  exact congrArg UInt32.toNat (MetadataRow.attr_eq_some hattr).2.2.1.symm

/-- The request stays within a `u32` and stores no empty target. -/
def Request.Bounded : Request → Prop
  | .write _ _ offset data => data ≠ [] ∧ 0 ≤ offset ∧ offset + data.length < 2 ^ 32
  | .symlink _ _ target => target ≠ []
  | _ => True

namespace SqliteFs

open Proc

variable {s s' : SqliteFs X} {env : Env} {r : Request} {out : Outcome}

/-- Requests other than `write` keep the blocks within their files. -/
theorem Effect.blocksWithin (h : Effect env s r s' out) (hr : r.Bounded)
    (hwrite : ∀ ino fh offset data, r ≠ .write ino fh offset data) (hs : s.conn.BlocksWithin) :
    s'.conn.BlocksWithin := by
  have haccess : ∀ {db : Db X}, s.conn.SameUpTo .atimeless db → db.BlocksWithin := fun hdb =>
    hs.same hdb.data fun i => Db.fileSize_congr (hdb.timeless.metadata.find i)
  have hmoved : ∀ {db db' : Db X}, db.BlocksWithin → db.SameButDentry .timeless db' →
      db'.BlocksWithin := fun hdb h =>
    hdb.same h.data fun i => Db.fileSize_congr (h.metadata.find i)
  have hfinish : ∀ {db : Db X} {res : Option ℕ}, s.Finishes env db res s' out →
      db.BlocksWithin → s'.conn.BlocksWithin := fun h hdb => by
    rcases h.conn_eq_or with h | ⟨j, -, h⟩
    · exact h ▸ hdb
    · exact h ▸ hdb.collect j
  cases h with
  | quiet h => exact haccess h.conn
  | looked_up _ hdb _ hs' => exact hs'.conn_eq ▸ haccess hdb
  | made _ hdb hadd hcont hs' =>
    rw [hs'.conn_eq]
    rcases hcont with rfl | ⟨link, rfl, hlen, hlink⟩
    · exact (haccess hdb).added hadd
    · -- the target fits into the first block and is all of the file
      have hpos := List.length_pos_iff.2 hr
      have hsize : (UInt32.ofNat link.length).toNat = link.length :=
        UInt32.toNat_ofNat_of_lt' (hlen.trans_lt (by decide))
      refine ((haccess hdb).added hadd).written hlink le_rfl hlen ?_ fun q hq => ?_
      · rw [Nat.sub_self, Nat.zero_mul, hsize]
        exact lt_max_of_lt_right hpos
      · rw [hsize, Nat.sub_self, Nat.zero_mul, Nat.zero_add] at hq
        exact List.getD_eq_default _ _ ((le_max_right _ _).trans hq)
  | half_made _ hdb hadd hs' => exact hs' ▸ (haccess hdb).added hadd
  | linked h hs' => exact hs'.conn_eq ▸ hmoved hs h.rest
  | removed _ hdb h _ hs' => exact hfinish hs' (hmoved (haccess hdb) h.rest)
  | renamed _ h hs' => exact hfinish hs' (hmoved hs h.rest)
  | renamed_onto_itself _ h hs' => exact hfinish hs' (hmoved hs h.rest)
  | forgot h =>
    cases h with
    | ignored => exact hs
    | counted_down _ _ hconn =>
      rw [hconn]
      split_ifs
      · exact hs.collect _
      · exact hs
    | too_much _ _ _ hconn => exact hconn ▸ hs
  | swept _ hs' => exact hs' ▸ Db.BlocksWithin.foldl (fun _ i h => h.deleteMetadata i) _ hs
  | destroyed _ hs' => exact hs' ▸ Db.BlocksWithin.foldl (fun _ i h => h.collect i) _ hs
  | wrote => exact absurd rfl (hwrite _ _ _ _)
  | updated hold hattr h hs' =>
    rename_i ino req old attr db _
    refine hs' ▸ hs.updated h fun htruncate => ?_
    rw [hattr.ino, ino_of_inodeAttr hold, fileSize_of_inodeAttr hold, ← UInt32.le_iff_toNat_le]
    exact UInt32.not_lt.1 (of_decide_eq_false htruncate)
  | xattr_changed _ h hs' =>
    exact hs' ▸ hs.same h.data fun i => Db.fileSize_congr (h.metadata.find i)

/-- And so does `write`, whether all of its blocks are stored or not. -/
theorem write_blocksWithin (hro : s.readOnly = false) (hs : s.conn.BlocksWithin) {ino fh : ℕ}
    {offset : ℤ} {data : Bytes} (hr : (Request.write ino fh offset data).Bounded) :
    (s.after (env, .write ino fh offset data)).conn.BlocksWithin := by
  obtain ⟨hnil, hoffset, hfits⟩ := hr
  have hlen : asU32 data.length = data.length := Nat.mod_eq_of_lt (by omega)
  have hoff : (i64AsU32 offset : ℤ) = offset := by
    unfold i64AsU32
    omega
  have hpos : 1 ≤ i64AsU32 offset + asU32 data.length :=
    hlen.symm ▸ (List.length_pos_iff.2 hnil).trans_le (Nat.le_add_left _ _)
  refine outcome_of_ensures (P := fun s' _ => s'.conn.BlocksWithin)
    ((write_overlaid_spec ino hpos (by omega) hro).mono (fun _ s' h => ?_) fun e s' h => ?_)
  · obtain ⟨-, db', rfl, h⟩ := h
    exact hs.overlaid hpos (fun k hk => (mem_blockRange hpos).1 hk) h
  · obtain ⟨-, done, k, hdone, -, db', rfl, h⟩ := h
    exact hs.overlaid hpos (fun j hj => (mem_blockRange hpos).1
      (hdone.subset (List.mem_append_left _ hj))) h

/-- The states of writable mounts of a database made by `init`, where the requests stay within a
`u32`. -/
inductive BoundedVisit : SqliteFs X → Prop
  | mounted {s : SqliteFs X} {db : Sqlite} {now : Now} (clock : ℕ → ℕ)
      (h : mount db now (Db.empty X clock) false false = some s) : BoundedVisit s
  | handled {s : SqliteFs X} (h : BoundedVisit s) (r : Env × Request) (hr : r.2.Bounded) :
      BoundedVisit (s.after r)
  | remounted {s s' : SqliteFs X} {db : Sqlite} {now : Now} (h : BoundedVisit s)
      (hs : mount db now s.conn false false = some s') : BoundedVisit s'

/-- A mount adds a root without a size at most. -/
theorem blocksWithin_of_mount {db : Sqlite} {now : Now} {conn : Db X} {readOnly rewind : Bool}
    (h : mount db now conn readOnly rewind = some s) (hconn : conn.BlocksWithin) :
    s.conn.BlocksWithin := by
  have hinit : (db.init now).Ensures conn (fun _ db' => db'.BlocksWithin) fun _ _ => True := by
    refine db.init_ensures now (fun db h => ?_) (fun n _ db h => ?_) (fun _ _ h => ⟨h.1, h.2⟩) hconn
    · refine (addInodeLocal_spec db _).mono (fun child db' hadd => ?_) fun _ _ h => h
      obtain ⟨hchild, -, -, hdata, -, -, hm⟩ := hadd
      refine h.mono fun i k blob hk => ?_
      rw [Db.blocks_eq_of_data_eq hdata] at hk
      refine ⟨hk, ?_⟩
      have hrow := Db.BlocksWithin.isSome_of_block hk
      unfold Db.fileSize
      rw [hm, if_neg fun hi => ?_]
      have := db.sequence_bound i hrow
      omega
    · refine (addDentry_spec db _).mono (fun _ db' hadd => ?_) fun _ _ _ => trivial
      refine h.same hadd.2.2.2.1 fun i => ?_
      unfold Db.fileSize
      rw [hadd.2.2.1]
  obtain ⟨conn', hconn', rfl⟩ := opened_of_mount h hinit
  exact hconn'

theorem BoundedVisit.visited (h : s.BoundedVisit) : s.Visited := by
  induction h with
  | mounted clock h => exact .mounted clock h
  | handled _ r _ ih => exact ih.handled r
  | remounted _ hs ih => exact ih.remounted hs

theorem BoundedVisit.blocksWithin (h : s.BoundedVisit) : s.conn.BlocksWithin := by
  induction h with
  | mounted clock h =>
    refine blocksWithin_of_mount h ⟨fun i k blob hk => ?_, fun i p _ => ?_⟩
    · exact absurd hk (by simp [Db.blocks, Db.empty])
    · simp [Db.bytes, byteAt, Db.blocks, Db.empty]
  | handled h r hr ih =>
    have hw := h.visited.storable.1
    by_cases hwrite : ∃ ino fh offset data, r.2 = .write ino fh offset data
    · obtain ⟨env, r⟩ := r
      obtain ⟨ino, fh, offset, data, rfl⟩ := hwrite
      exact write_blocksWithin hw.readOnly ih hr
    · exact (hw.handle_effect r).blocksWithin hr
        (fun ino fh offset data heq => hwrite ⟨ino, fh, offset, data, heq⟩) ih
  | remounted _ hs ih => exact blocksWithin_of_mount hs ih

/-- **Stored blocks stay within the file**, in every run of requests that stay within a `u32`, over
any number of mounts and whatever calls fail: a block has a number from 1 on and begins before the
end of the file, it is no longer than `blockSize`, and its bytes past the end are zero. -/
theorem blocks_within_files (h : s.BoundedVisit) : s.conn.BlocksWithinFiles :=
  h.blocksWithin.withinFiles

/-- A file is made, five bytes are written to it over a hole of a block, and it is cut in the
hole. -/
theorem blocks_within_files_sample :
    ((((sample.after (.sample, .create 1 [97] 0)).after
      (.sample, .write 2 0 5000 [1, 2, 3, 4, 5])).after
        (.sample, .setattr 2 (.ofSize 100)))).conn.BlocksWithinFiles := by
  have hmount : mount .new epoch (Db.empty .sample id) false false = some sample := rfl
  have hcreated := (BoundedVisit.mounted id hmount).handled (.sample, .create 1 [97] 0) trivial
  have hwritten := hcreated.handled (.sample, .write 2 0 5000 [1, 2, 3, 4, 5])
    ⟨by simp, by simp, by decide⟩
  exact blocks_within_files (hwritten.handled (.sample, .setattr 2 (.ofSize 100)) trivial)

end SqliteFs

end TemporalFs
