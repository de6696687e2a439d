import Mathlib
import TemporalFs.Fs.Writing
import TemporalFs.Fs.Crashes
import TemporalFs.Attr.SetAttr

/-!
# Positions and sizes beyond `u32`

Positions and sizes arrive with 64 bits and are cut to 32. A write whose range ends below `2 ^ 32`
does what it says, and so does a change of the size to less than that; the others do not. A write of
no bytes is computed as a range that ends before it starts, so that it may set the size, or panic.

## Main definitions

* `Db.WritesExactly`, `Db.ResizesExactly`: the request fails and leaves the file alone, or it has
  the effect that its arguments ask for.
* `Db.WriteFits`: the arguments of `write` for which that is so.

## Main results

* `SqliteFs.sizes_exact_iff`: these are the ones.
-/

namespace TemporalFs

variable {X : Externals}

/-- The file `i` has the same size and the same bytes. -/
def Db.SameFile (db : Db X) (i : ℕ) (db' : Db X) : Prop :=
  db'.fileSize i = db.fileSize i ∧ ∀ p, db'.bytes i p = db.bytes i p

/-- The write fails and changes nothing, or it replies the length of the data, changes no byte
outside its range and extends the file to its end. -/
def Db.WritesExactly (db : Db X) (i : ℕ) (offset : ℤ) (data : Bytes) (out : Outcome)
    (db' : Db X) : Prop :=
  ((∃ e, out = .replied (.error e)) ∧ db.SameFile i db') ∨
    (out = .replied (.written data.length) ∧
      (∀ p : ℕ, ¬ (offset ≤ p ∧ p < offset + data.length) → db'.bytes i p = db.bytes i p) ∧
      (db'.fileSize i : ℤ) =
        if data = [] then (db.fileSize i : ℤ) else max (db.fileSize i : ℤ) (offset + data.length))

/-- The change of the size fails and changes nothing, or the file has that size. -/
def Db.ResizesExactly (db : Db X) (i size : ℕ) (out : Outcome) (db' : Db X) : Prop :=
  ((∃ e, out = .replied (.error e)) ∧ db.SameFile i db') ∨
    ((∃ ttl fa, out = .replied (.attr ttl fa)) ∧ db'.fileSize i = size)

/-- The range is not empty and ends below `2 ^ 32`, or it is empty, does not start at zero, and
starts at a block or in the file, all modulo `2 ^ 32`. -/
def Db.WriteFits (db : Db X) (i : ℕ) (offset : ℤ) (data : Bytes) : Prop :=
  (data ≠ [] ∧ offset + data.length < 2 ^ 32) ∨
    (data = [] ∧ i64AsU32 offset ≠ 0 ∧
      (i64AsU32 offset % blockSize = 0 ∨ i64AsU32 offset ≤ db.fileSize i))

theorem Db.fileSize_lt (db : Db X) (i : ℕ) : db.fileSize i < 2 ^ 32 := by
  unfold Db.fileSize
  cases db.metadata.find i with
  | none => simp
  | some m => exact m.size.toNat_lt

theorem i64AsU32_lt (offset : ℤ) : i64AsU32 offset < 2 ^ 32 := by
  unfold i64AsU32
  omega

namespace SqliteFs

open Proc

variable {s : SqliteFs X} {env : Env}

/-! ### Writing -/

section Write

variable {ino : ℕ} {offset : ℤ} {data : Bytes}

/-- Where no call fails, the blocks of an existing file are read and stored. -/
theorem write_blocks_no_error (hcalls : ∀ c, env.fails c = false) {i : ℕ} (o n first last : ℕ)
    (l : List ℕ) : (Proc.each (writeBlock env i o n data first last) l).Preserves Exit.IsPanic
      fun s : SqliteFs X => (s.conn.metadata.find i).isSome ∧ s.db.extensions = true := by
  refine preserves_each (fun k => preserves_writeBlock trivial (fun s hs => ?_)
    (fun bytes size s hs => ?_) _ _ _ _ _) l
  · rw [ensures_callOrNoEnt]
    refine ⟨fun hf => absurd hf (by simp [hcalls]), fun _ => ?_⟩
    refine (Sqlite.getData_spec _ _ _ _ _ _).mono (fun _ db h => ⟨?_, hs.2⟩) fun _ _ h => h.elim
    rw [conn_withConn, h.2.metadata.isSome]
    exact hs.1
  · rw [ensures_callOrNoEnt]
    refine ⟨fun hf => absurd hf (by simp [hcalls]), fun _ => ?_⟩
    refine (Sqlite.writeData_spec _ _ _ _ _ _ _).mono (fun _ db h => ⟨?_, hs.2⟩) fun _ _ h => ?_
    · have hrow := congrArg Option.isSome (h.metadata i)
      rw [Option.isSome_map, Option.isSome_map] at hrow
      rw [conn_withConn, hrow]
      exact hs.1
    · rcases h.2.2 with hnone | hext
      · exact absurd hs.1 (by simp [hnone])
      · exact absurd hs.2 (by simp [hext])

/-- A write to an existing file replies the length, cut to 32 bits, or panics. -/
theorem write_replies (hcalls : ∀ c, env.fails c = false) (hro : s.readOnly = false)
    (hext : s.db.extensions = true) (hfile : (s.conn.metadata.find (asU32 ino)).isSome) :
    (write env ino offset data).Ensures s
      (fun reply _ => reply = .written (asU32 data.length)) (fun e _ => e.IsPanic) := by
  unfold write
  rw [ensures_bind, ensures_writable]
  refine ⟨fun _ => ?_, fun hc => absurd hro hc⟩
  rw [ensures_bind]
  refine (preserves_lastByte (P := Exit.IsPanic) (I := fun s : SqliteFs X =>
    (s.conn.metadata.find (asU32 ino)).isSome ∧ s.db.extensions = true) trivial _ _ s
      ⟨hfile, hext⟩).mono (fun last s₁ h₁ => ?_) fun _ _ h => h.1
  rw [ensures_bind]
  exact (write_blocks_no_error hcalls _ _ _ _ _ s₁ h₁).mono (fun _ _ _ => rfl) fun _ _ h => h.1

/-- The whole request on an existing file, where the end of the range can be computed. -/
theorem write_succeeds (hcalls : ∀ c, env.fails c = false) (hro : s.readOnly = false)
    (hext : s.db.extensions = true) (hfile : (s.conn.metadata.find (asU32 ino)).isSome) (fh : ℕ)
    (hpos : 1 ≤ i64AsU32 offset + asU32 data.length)
    (hfits : i64AsU32 offset + asU32 data.length < 2 ^ 32) :
    (handle env (.write ino fh offset data) s).2 = .replied (.written (asU32 data.length)) ∧
      s.conn.Overwritten (asU32 ino) (i64AsU32 offset) (asU32 data.length) data
        (s.after (env, .write ino fh offset data)).conn := by
  refine outcome_of_ensures (P := fun s' out => out = .replied (.written (asU32 data.length)) ∧
    s.conn.Overwritten (asU32 ino) (i64AsU32 offset) (asU32 data.length) data s'.conn)
    (((write_spec ino hpos hfits hro).and (write_replies hcalls hro hext hfile)).mono
      (fun _ s' h => ?_) fun e s' h => ?_)
  · obtain ⟨⟨rfl, db', rfl, h⟩, -⟩ := h
    exact ⟨rfl, h⟩
  · obtain ⟨⟨rfl, -⟩, hpanic⟩ := h
    exact hpanic.elim

/-- **What a write does is right** if and only if its range fits. -/
theorem writesExactly_iff (hcalls : ∀ c, env.fails c = false) (hro : s.readOnly = false)
    (hext : s.db.extensions = true) (hfile : (s.conn.metadata.find (asU32 ino)).isSome) (fh : ℕ)
    (hoffset : 0 ≤ offset) :
    s.conn.WritesExactly (asU32 ino) offset data (handle env (.write ino fh offset data) s).2
      (s.after (env, .write ino fh offset data)).conn ↔
        s.conn.WriteFits (asU32 ino) offset data := by
  have hsucceeds (hpos : 1 ≤ i64AsU32 offset + asU32 data.length)
      (hfits : i64AsU32 offset + asU32 data.length < 2 ^ 32) :=
    write_succeeds hcalls hro hext hfile fh hpos hfits
  have ho := i64AsU32_lt offset
  constructor
  · rintro (⟨⟨e, he⟩, -⟩ | ⟨hout, -, hsize⟩)
    · have hreply : (write env ino offset data).Ensures s _ _ := write_replies hcalls hro hext hfile
      have hno := outcome_of_ensures (P := fun _ out => ∀ e, out ≠ .replied (.error e))
        (hreply.mono (fun _ _ h => h ▸ by simp) fun e _ h => by
          cases e <;> simp_all [Exit.IsPanic, Exit.outcome])
      exact absurd he (hno e)
    · by_cases hnil : data = []
      · subst hnil
        refine Or.inr ⟨rfl, fun hzero => ?_, ?_⟩
        · have hpanic : PanicsIff (write env ino offset []) s
              (Panics env s (.write ino fh offset [])) := write_panics ino fh offset (by decide)
          have hwraps : Panics env s (.write ino fh offset []) :=
            ⟨hro, Or.inl (by rw [hzero]; rfl)⟩
          have hnone := outcome_of_ensures (P := fun _ out => ∀ r, out ≠ .replied r)
            (hpanic.mono (fun _ _ h => absurd hwraps h) fun e _ h => by
              have := h.2 hwraps
              cases e <;> simp_all [Exit.IsPanic, Exit.outcome])
          exact absurd hout (hnone _)
        · by_contra hc
          push Not at hc
          have hzero : asU32 ([] : Bytes).length = 0 := rfl
          have hover := (hsucceeds (by omega) (by omega)).2.size (asU32 ino)
          rw [if_pos ⟨rfl, Or.inr hc.1⟩] at hover
          rw [if_pos rfl] at hsize
          omega
      · rw [if_neg hnil] at hsize
        have := (s.after (env, .write ino fh offset data)).conn.fileSize_lt (asU32 ino)
        exact Or.inl ⟨hnil, by omega⟩
  · rintro (⟨hnil, hfits⟩ | ⟨rfl, hzero, hstart⟩)
    · have hoff : (i64AsU32 offset : ℤ) = offset := by
        unfold i64AsU32
        omega
      have hlen : asU32 data.length = data.length := Nat.mod_eq_of_lt (by omega)
      have hpos := List.length_pos_iff.2 hnil
      obtain ⟨hout, hover⟩ := hsucceeds (by omega) (by omega)
      rw [hlen] at hout hover
      refine Or.inr ⟨hout, fun p hp => ?_, ?_⟩
      · rw [hover.bytes, if_neg (by omega)]
      · rw [hover.size, if_pos ⟨rfl, Or.inl hpos.ne'⟩, if_neg hnil]
        omega
    · have hlen : asU32 ([] : Bytes).length = 0 := rfl
      obtain ⟨hout, hover⟩ := hsucceeds (by omega) (by omega)
      rw [hlen] at hover
      refine Or.inr ⟨hout, fun p _ => ?_, ?_⟩
      · rw [hover.bytes, if_neg (by omega)]
      · rw [hover.size, if_pos rfl]
        split_ifs with hblock
        · have := hblock.2
          omega
        · rfl

end Write

/-! ### Changing the size -/

theorem SetAttr.apply_ofSize (size : ℕ) (old : DBFileAttr) :
    (SetAttr.ofSize size).apply old = some { old with size := UInt32.ofNat size } := rfl

theorem resize_succeeds (hs : s.Visited) (hcalls : ∀ c, env.fails c = false) {ino : ℕ}
    {old : DBFileAttr} (hold : s.conn.shown (asU32 ino) = some old) (size : ℕ) :
    (handle env (.setattr ino (.ofSize size)) s).2 = .replied (.attr oneSec
        { old with size := UInt32.ofNat size }.getFileAttr) ∧
      s.conn.Updated { old with size := UInt32.ofNat size } (old.size > UInt32.ofNat size)
        (s.after (env, .setattr ino (.ofSize size))).conn := by
  have hdates := hs.datetime_isSome hold
  obtain ⟨hreply, hset⟩ := setattr_succeeds hs.storable.1.readOnly (hcalls _) (hcalls _) hold
    (SetAttr.apply_ofSize size old) ⟨inChronoRange_of_datetime hdates.1,
      inChronoRange_of_datetime hdates.2.1, inChronoRange_of_datetime hdates.2.2⟩
  exact ⟨hreply, hset.updated⟩

/-- **What a change of the size does is right** if and only if the size fits, or the attributes of
the inode cannot be read. -/
theorem resizesExactly_iff (hs : s.Visited) (hcalls : ∀ c, env.fails c = false) (ino size : ℕ) :
    s.conn.ResizesExactly (asU32 ino) size (handle env (.setattr ino (.ofSize size)) s).2
      (s.after (env, .setattr ino (.ofSize size))).conn ↔
        size < 2 ^ 32 ∨ s.conn.shown (asU32 ino) = none := by
  cases hold : s.conn.shown (asU32 ino) with
  | none =>
    have hrefuses := setattr_refuses hs.storable.1.readOnly (hcalls _) hold (.ofSize size)
    have hout := outcome_of_ensures (P := fun s' out => out = .replied (.error .ENOENT) ∧ s' = s)
      (hrefuses.mono (fun _ _ h => h.elim) fun _ _ h => ⟨h.1 ▸ rfl, h.2⟩)
    refine iff_of_true (Or.inl ⟨⟨_, hout.1⟩, ?_⟩) (Or.inr rfl)
    rw [show s.after (env, .setattr ino (.ofSize size)) = s from hout.2]
    exact ⟨rfl, fun _ => rfl⟩
  | some old =>
    obtain ⟨hreply, hupdated⟩ := resize_succeeds hs hcalls hold size
    have hino := ino_of_inodeAttr (inodeAttr_eq_ok_some_iff.2 hold)
    have hsize := hupdated.fileSize (asU32 ino)
    rw [if_pos hino.symm, UInt32.toNat_ofNat'] at hsize
    unfold Db.ResizesExactly
    rw [hreply, hsize]
    constructor
    · rintro (⟨⟨e, he⟩, -⟩ | ⟨-, hmod⟩)
      · simp at he
      · exact Or.inl (by omega)
    · rintro (hlt | hnone)
      · exact Or.inr ⟨⟨_, _, rfl⟩, Nat.mod_eq_of_lt hlt⟩
      · simp at hnone

/-- **No position and no size wraps around**, if and only if the range of a write fits and the new
size of a file does. Where it does not fit the request should fail and leave the file alone. The
states are those of any writable mount in which no call fails, and the build may check overflow or
not. -/
theorem sizes_exact_iff (hs : s.Visited) (hext : s.db.extensions = true)
    (hcalls : ∀ c, env.fails c = false) {ino : ℕ}
    (hfile : (s.conn.metadata.find (asU32 ino)).isSome) :
    (∀ (fh : ℕ) (offset : ℤ) (data : Bytes), 0 ≤ offset →
      (s.conn.WritesExactly (asU32 ino) offset data (handle env (.write ino fh offset data) s).2
        (s.after (env, .write ino fh offset data)).conn ↔
          s.conn.WriteFits (asU32 ino) offset data)) ∧
    ∀ size, s.conn.ResizesExactly (asU32 ino) size
      (handle env (.setattr ino (.ofSize size)) s).2
      (s.after (env, .setattr ino (.ofSize size))).conn ↔
        size < 2 ^ 32 ∨ s.conn.shown (asU32 ino) = none :=
  ⟨fun fh _ _ hoffset => writesExactly_iff hcalls hs.storable.1.readOnly hext hfile fh hoffset,
    resizesExactly_iff hs hcalls ino⟩

/-- In a file with one byte. -/
theorem sizes_exact_iff_sample :
    let s := (sample.after (.sample, .create 1 [97] 0)).after (.sample, .write 2 0 0 [98])
    (∀ (fh : ℕ) (offset : ℤ) (data : Bytes), 0 ≤ offset →
      (s.conn.WritesExactly 2 offset data (handle .sample (.write 2 fh offset data) s).2
        (s.after (.sample, .write 2 fh offset data)).conn ↔ s.conn.WriteFits 2 offset data)) ∧
    ∀ size, s.conn.ResizesExactly 2 size (handle .sample (.setattr 2 (.ofSize size)) s).2
      (s.after (.sample, .setattr 2 (.ofSize size))).conn ↔
        size < 2 ^ 32 ∨ s.conn.shown 2 = none := by
  intro s
  have hvisited : s.Visited := (visited_sample.handled _).handled _
  exact sizes_exact_iff hvisited (by decide +kernel) (fun _ => rfl)
    (show (s.conn.metadata.find (asU32 2)).isSome by decide +kernel)

/-- A file is made, and a byte is written to it at the position `2 ^ 32`. -/
def farWrite : SqliteFs .sample × Request :=
  (sample.after (.sample, .create 1 [97] 0), .write 2 0 (2 ^ 32) [7])

/-- The byte is written at the start of the file. -/
theorem far_write_lands_at_the_start :
    farWrite.1.conn.fileSize 2 = 0 ∧
      (handle .sample farWrite.2 farWrite.1).2 = .replied (.written 1) ∧
      (farWrite.1.after (.sample, farWrite.2)).conn.fileSize 2 = 1 ∧
      ¬ farWrite.1.conn.WritesExactly 2 (2 ^ 32) [7] (handle .sample farWrite.2 farWrite.1).2
        (farWrite.1.after (.sample, farWrite.2)).conn := by
  have hvisited : farWrite.1.Visited := visited_sample.handled _
  have hro := hvisited.storable.1.readOnly
  have hempty : farWrite.1.conn.fileSize 2 = 0 := by decide
  have hcalls (c : Call) : Env.sample.fails c = false := rfl
  obtain ⟨hreply, hover⟩ := write_succeeds (s := farWrite.1) hcalls hro rfl
    (show (farWrite.1.conn.metadata.find (asU32 2)).isSome by decide) 0
    (show 1 ≤ i64AsU32 (2 ^ 32) + asU32 [(7 : UInt8)].length by decide) (by decide)
  refine ⟨hempty, hreply, (hover.size 2).trans ?_, fun h => ?_⟩
  · rw [show asU32 2 = 2 from rfl, hempty]
    rfl
  · rcases (writesExactly_iff hcalls hro rfl (by decide) 0 (by decide)).1 h with
      ⟨-, hlt⟩ | ⟨hnil, -⟩
    · exact absurd hlt (by decide)
    · exact absurd hnil (by simp)

end SqliteFs

end TemporalFs
