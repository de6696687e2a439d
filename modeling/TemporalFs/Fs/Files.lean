import Mathlib
import TemporalFs.Fs.BlockBounds
import TemporalFs.Fs.Reading
import TemporalFs.Fs.Sizes

/-!
# Files as strings of bytes

A file is a string of bytes. A write puts its data over the string, with zeros where the string did
not reach, a change of the size cuts the string or fills it up with zeros, and a read replies a part
of it and zeros past its end. The stored blocks hold the strings, in all runs of such requests.

## Main definitions

* `FileRequest`: a request on the contents of a file; `FileRequest.apply`, `FileRequest.Replies`:
  what it does to the strings and what it replies.
* `Db.Holds`: the stored sizes and blocks are those of the strings.
* `SqliteFs.ServesFiles`: every reply and every state of a run is that of the strings.

## Main results

* `SqliteFs.files_hold_their_contents`: it is so from every state on that ordinary requests lead to.
-/

namespace TemporalFs

variable {X : Externals}

/-- A request on the contents of a file. -/
inductive FileRequest
  | write (ino fh offset : ℕ) (data : Bytes)
  | resize (ino size : ℕ)
  | read (ino fh offset size : ℕ)

namespace FileRequest

/-- The request as the kernel sends it. -/
def request : FileRequest → Request
  | write ino fh offset data => .write ino fh offset data
  | resize ino size => .setattr ino (.ofSize size)
  | read ino fh offset size => .read ino fh offset size

/-- A request of a run. -/
def sent (r : Env × FileRequest) : Env × Request := (r.1, r.2.request)

/-- The file. -/
def file : FileRequest → ℕ
  | write ino _ _ _ => ino
  | resize ino _ => ino
  | read ino _ _ _ => ino

/-- The range ends below `2 ^ 32`, and so does the size. A write is not empty. -/
def Fits : FileRequest → Prop
  | write _ _ offset data => data ≠ [] ∧ offset + data.length < 2 ^ 32
  | resize _ size => size < 2 ^ 32
  | read _ _ offset size => offset + size < 2 ^ 32

/-- The strings after the request. -/
def apply : FileRequest → (ℕ → Bytes) → ℕ → Bytes
  | write ino _ offset data, c => Function.update c ino (overlay (c ino) offset data)
  | resize ino size, c => Function.update c ino (padTo size (c ino))
  | read _ _ _ _, c => c

/-- The reply to the request. -/
def Replies : FileRequest → (ℕ → Bytes) → Outcome → Prop
  | write _ _ _ data, _, out => out = .replied (.written data.length)
  | resize _ size, _, out => ∃ ttl fa, out = .replied (.attr ttl fa) ∧ fa.size = size
  | read ino _ offset size, c, out => out = .replied (.data (window (c ino) offset size))

/-- The request writes the position `p` of the file `i`. -/
def Writes : FileRequest → ℕ → ℕ → Prop
  | write ino _ offset data, i, p => ino = i ∧ offset ≤ p ∧ p < offset + data.length
  | resize _ _, _, _ => False
  | read _ _ _ _, _, _ => False

/-- A zero stays until its position is written. -/
theorem getD_apply {r : FileRequest} {i p : ℕ} (h : ¬ r.Writes i p) {c : ℕ → Bytes}
    (hzero : (c i).getD p 0 = 0) : (r.apply c i).getD p 0 = 0 := by
  cases r with
  | write ino fh offset data =>
    by_cases hi : i = ino
    · subst hi
      rw [apply, Function.update_self, getD_overlay, if_neg fun hp => h ⟨rfl, hp⟩, hzero]
    · rw [apply, Function.update_of_ne hi, hzero]
  | resize ino size =>
    by_cases hi : i = ino
    · subst hi
      rw [apply, Function.update_self, getD_padTo, hzero, ite_self]
    · rw [apply, Function.update_of_ne hi, hzero]
  | read => exact hzero

theorem getD_foldl_apply {rs : List (Env × FileRequest)} {i p : ℕ}
    (h : ∀ r ∈ rs, ¬ r.2.Writes i p) {c : ℕ → Bytes} (hzero : (c i).getD p 0 = 0) :
    (rs.foldl (fun c r => r.2.apply c) c i).getD p 0 = 0 := by
  induction rs generalizing c with
  | nil => exact hzero
  | cons r rs ih =>
    exact ih (fun r' hr' => h r' (List.mem_cons_of_mem r hr'))
      (getD_apply (h r List.mem_cons_self) hzero)

end FileRequest

/-- The sizes and the bytes of the files are those of the strings. -/
def Db.Holds (db : Db X) (c : ℕ → Bytes) : Prop :=
  ∀ i, db.fileSize i = (c i).length ∧ ∀ p, db.bytes i p = (c i).getD p 0

/-- The string of a file, from what is stored. -/
def Db.content (db : Db X) (i : ℕ) : Bytes := stretch (db.bytes i) 0 (db.fileSize i)

/-- The inode is a regular file that has a name. -/
def Db.NamedFile (db : Db X) (i : ℕ) : Prop :=
  ∃ e ∈ db.dentry.rows, e.childId = i ∧ e.fileType = .RegularFile

/-! ### What is stored -/

namespace Db

variable {db db' : Db X} {c : ℕ → Bytes}

theorem getD_stretch_zero (f : ℕ → UInt8) (n p : ℕ) :
    (stretch f 0 n).getD p 0 = if p < n then f p else 0 := by
  simp only [stretch, List.getD_eq_getElem?_getD, List.getElem?_map, Nat.zero_add]
  by_cases hp : p < n
  · rw [List.getElem?_range hp, if_pos hp]
    rfl
  · rw [List.getElem?_eq_none (by simpa using hp), if_neg hp]
    rfl

/-- Blocks that lie within the files hold the strings that are read from them. -/
theorem BlocksWithin.holds (h : db.BlocksWithin) : db.Holds db.content := fun i => by
  refine ⟨(length_stretch _ _ _).symm, fun p => ?_⟩
  rw [content, getD_stretch_zero]
  split_ifs with hp
  · rfl
  · exact h.zero i p (not_lt.1 hp)

theorem Holds.same (h : db.Holds c) (hs : db.SameUpTo .atimeless db') : db'.Holds c := fun i => by
  rw [fileSize_congr (hs.timeless.metadata.find i), bytes_congr (blocks_eq_of_data_eq hs.data i)]
  exact h i

/-- A write to the file `i`. -/
theorem Holds.overwritten (h : db.Holds c) {i offset : ℕ} {data : Bytes} (hdata : data ≠ [])
    (ho : db.Overwritten i offset data.length data db') :
    db'.Holds (Function.update c i (overlay (c i) offset data)) := fun j => by
  have hlen : data.length ≠ 0 := fun h => hdata (List.length_eq_zero_iff.1 h)
  by_cases hj : j = i
  · subst hj
    rw [Function.update_self, ho.size, if_pos ⟨rfl, Or.inl hlen⟩, length_overlay, (h j).1]
    refine ⟨rfl, fun p => ?_⟩
    rw [ho.bytes, getD_overlay, (h j).2]
  · rw [Function.update_of_ne hj, ho.size, if_neg fun hc => hj hc.1,
      bytes_congr (funext (ho.others j hj))]
    exact h j

/-- A change of the size of the file `i`, which cuts it if it is to be smaller. -/
theorem Holds.updated (h : db.Holds c) {attr : DBFileAttr} {truncate : Bool}
    (hu : db.Updated attr truncate db')
    (htruncate : truncate = false → db.fileSize attr.ino ≤ attr.size.toNat) :
    db'.Holds (Function.update c attr.ino (padTo attr.size.toNat (c attr.ino))) := fun j => by
  rw [hu.fileSize]
  by_cases hj : j = attr.ino
  · subst hj
    rw [Function.update_self, if_pos rfl, length_padTo]
    refine ⟨rfl, fun p => ?_⟩
    rw [hu.bytes, getD_padTo, (h _).2 p]
    cases htr : truncate with
    | true => rw [if_pos rfl]
    | false =>
      rw [if_neg (by simp)]
      split_ifs with hp
      · rfl
      · -- the string is no longer than the new size
        have hle := htruncate htr
        rw [(h _).1] at hle
        exact List.getD_eq_default _ _ (hle.trans (not_lt.1 hp))
  · have hblocks : db'.blocks j = db.blocks j := by
      funext b
      rw [hu.blocks, if_neg fun hc => hj hc.1]
    rw [Function.update_of_ne hj, if_neg hj, bytes_congr hblocks]
    exact h j

end Db

/-! ### Ordinary requests -/

/-- The times that the request names are kept by `datetime()`. -/
def SqliteFs.SetAttr.Datable (req : SqliteFs.SetAttr) : Prop :=
  ∀ ts t, req.atime = some ts ∨ req.mtime = some ts ∨ req.crtime = some ts →
    datetimeFrom ts = some t → (datetime t.sec).isSome

/-- The request stays within a `u32`, stores no empty target and names no time that is lost. -/
def Request.Ordinary : Request → Prop
  | .setattr _ req => req.Datable
  | r => r.Bounded

theorem Request.Ordinary.bounded {r : Request} (h : r.Ordinary) : r.Bounded := by
  cases r with
  | setattr => trivial
  | _ => exact h

/-- The stored time can be read. -/
def TimeColumn.Legible (c : TimeColumn) : Prop := c.text.isSome

theorem readingsIn_legible : ReadingsIn TimeColumn.Legible where
  formatted _ := rfl
  clockIn now := now.datetime_isSome

namespace SqliteFs

open Proc

variable {s s' : SqliteFs X} {env : Env} {r : Request} {out : Outcome}

/-- The states of writable mounts of a database made by `init`, where the requests are ordinary. -/
inductive OrdinaryVisit : SqliteFs X → Prop
  | mounted {s : SqliteFs X} {db : Sqlite} {now : Now} (clock : ℕ → ℕ)
      (h : mount db now (Db.empty X clock) false false = some s) : OrdinaryVisit s
  | handled {s : SqliteFs X} (h : OrdinaryVisit s) (r : Env × Request) (hr : r.2.Ordinary) :
      OrdinaryVisit (s.after r)
  | remounted {s s' : SqliteFs X} {db : Sqlite} {now : Now} (h : OrdinaryVisit s)
      (hs : mount db now s.conn false false = some s') : OrdinaryVisit s'

theorem OrdinaryVisit.bounded (h : s.OrdinaryVisit) : s.BoundedVisit := by
  induction h with
  | mounted clock h => exact .mounted clock h
  | handled _ r hr ih => exact ih.handled r hr.bounded
  | remounted _ hs ih => exact ih.remounted hs

/-- The times that a `setattr` of such a request stores are kept. -/
theorem SetAttr.Applied.datetime_isSome {req : SetAttr} {old attr : DBFileAttr}
    (h : req.Applied old attr) (hreq : req.Datable) (hs : s.Visited) {i : ℕ}
    (hold : s.conn.shown i = some old) : (datetime attr.atime.sec).isSome ∧
      (datetime attr.mtime.sec).isSome ∧ (datetime attr.crtime.sec).isSome := by
  obtain ⟨hat, hmt, hcrt⟩ := hs.datetime_isSome hold
  refine ⟨?_, ?_, ?_⟩
  · rcases h.atime with heq | ⟨ts, hts, ht⟩
    · exact heq ▸ hat
    · exact hreq ts _ (Or.inl hts) ht
  · rcases h.mtime with heq | ⟨ts, hts, ht⟩
    · exact heq ▸ hmt
    · exact hreq ts _ (Or.inr (Or.inl hts)) ht
  · rcases h.crtime with heq | ⟨ts, hts, ht⟩
    · exact heq ▸ hcrt
    · exact hreq ts _ (Or.inr (Or.inr hts)) ht

theorem OrdinaryVisit.legible (h : s.OrdinaryVisit) :
    AllTimes TimeColumn.Legible s.conn.metadata := by
  induction h with
  | mounted clock h =>
    exact (allTimes_of_mount readingsIn_legible h (show 0 < 2 ^ 32 by decide)
      (allTimes_empty _ clock)).2
  | handled h r hr ih =>
    have hs := h.bounded.visited
    refine (hs.storable.1.handle_effect r).allTimes_of readingsIn_legible
      (fun ino req old attr heq hold hattr => ?_) ih
    rw [heq] at hr
    exact hattr.datetime_isSome hr hs (inodeAttr_eq_ok_some_iff.1 hold)
  | remounted h hs ih =>
    exact (allTimes_of_mount readingsIn_legible hs h.bounded.visited.storable.1.sequence_lt ih).2

/-- **Files that have a name are shown** in these states. -/
theorem OrdinaryVisit.shown (h : s.OrdinaryVisit) {i : ℕ} (hi : s.conn.NamedFile i) :
    asU32 i = i ∧ ∃ a, s.conn.shown i = some a := by
  obtain ⟨e, he, rfl, -⟩ := hi
  have hrow := (s.conn.dentry_fk _ e (s.conn.dentry.find_key he)).2
  have hlt := (s.conn.sequence_bound _ hrow).trans_lt h.bounded.visited.storable.1.sequence_lt
  obtain ⟨m, hm⟩ := Option.isSome_iff_exists.1 hrow
  exact ⟨Nat.mod_eq_of_lt hlt, s.conn.shown_of_readable hm (h.legible _ m hm) he⟩

/-! ### Runs -/

section Requests

variable (h : s.OrdinaryVisit) (hcalls : ∀ c, env.fails c = false) {ino : ℕ}
  (hfile : s.conn.NamedFile ino) {c : ℕ → Bytes} (hc : s.conn.Holds c)

include h hcalls hfile hc

theorem OrdinaryVisit.serves_write (hext : s.db.extensions = true) (fh : ℕ) {offset : ℕ}
    {data : Bytes} (hdata : data ≠ []) (hfits : offset + data.length < 2 ^ 32) :
    (handle env (.write ino fh offset data) s).2 = .replied (.written data.length) ∧
      (s.after (env, .write ino fh offset data)).conn.Holds
        (Function.update c ino (overlay (c ino) offset data)) ∧
      (s.after (env, .write ino fh offset data)).conn.dentry = s.conn.dentry := by
  obtain ⟨hino, old, hold⟩ := h.shown hfile
  obtain ⟨m, hm, -⟩ := Db.shown_eq_some_iff.1 hold
  have hrow : (s.conn.metadata.find (asU32 ino)).isSome := by rw [hino, hm, Option.isSome_some]
  have hlen : asU32 data.length = data.length := Nat.mod_eq_of_lt (by omega)
  have hoff : i64AsU32 offset = offset := by
    unfold i64AsU32
    omega
  have hpos := List.length_pos_iff.2 hdata
  have hstart : 1 ≤ i64AsU32 offset + asU32 data.length := by omega
  have hend : i64AsU32 offset + asU32 data.length < 2 ^ 32 := by omega
  obtain ⟨hreply, hover⟩ := write_succeeds hcalls h.bounded.visited.storable.1.readOnly hext hrow
    fh hstart hend
  rw [hlen] at hreply hover
  rw [hoff, hino] at hover
  exact ⟨hreply, hc.overwritten hdata hover, hover.dentry⟩

theorem OrdinaryVisit.serves_resize {size : ℕ} (hfits : size < 2 ^ 32) :
    (∃ ttl fa, (handle env (.setattr ino (.ofSize size)) s).2 = .replied (.attr ttl fa) ∧
        fa.size = size) ∧
      (s.after (env, .setattr ino (.ofSize size))).conn.Holds
        (Function.update c ino (padTo size (c ino))) ∧
      (s.after (env, .setattr ino (.ofSize size))).conn.dentry = s.conn.dentry := by
  obtain ⟨hino, old, hold⟩ := h.shown hfile
  have hread := inodeAttr_eq_ok_some_iff.2 hold
  obtain rfl := ino_of_inodeAttr hread
  obtain ⟨hreply, hupdated⟩ := resize_succeeds h.bounded.visited hcalls (hino.symm ▸ hold) size
  have hheld := hc.updated hupdated fun htruncate => by
    rw [fileSize_of_inodeAttr hread, ← UInt32.le_iff_toNat_le]
    exact UInt32.not_lt.1 (of_decide_eq_false htruncate)
  have hsize : (UInt32.ofNat size).toNat = size := UInt32.toNat_ofNat_of_lt' hfits
  rw [hsize] at hheld
  exact ⟨⟨_, _, hreply, hsize⟩, hheld, hupdated.dentry⟩

theorem OrdinaryVisit.serves_read (fh : ℕ) {offset size : ℕ} (hfits : offset + size < 2 ^ 32) :
    (handle env (.read ino fh offset size) s).2 =
        .replied (.data (window (c ino) offset size)) ∧
      (s.after (env, .read ino fh offset size)).conn.Holds c ∧
      (s.after (env, .read ino fh offset size)).conn.dentry = s.conn.dentry := by
  obtain ⟨hino, -⟩ := h.shown hfile
  obtain ⟨hreply, hsame⟩ := read_replies h.bounded.visited.storable.1.rewind hcalls ino fh
    (Int.natCast_nonneg offset) (show (offset : ℤ) + size < 2 ^ 32 by exact_mod_cast hfits)
  have hwindow : stretch (s.conn.bytes ino) offset size = window (c ino) offset size :=
    List.map_congr_left fun k _ => (hc ino).2 (offset + k)
  rw [hino, Int.toNat_natCast, hwindow] at hreply
  exact ⟨hreply, hc.same hsame, hsame.dentry⟩

end Requests

/-- The replies and the states of a run of requests on files are those of the strings. -/
def ServesFiles : SqliteFs X → (ℕ → Bytes) → List (Env × FileRequest) → Prop
  | s, c, [] => s.conn.Holds c
  | s, c, r :: rs => s.conn.Holds c ∧ r.2.Replies c (handle r.1 r.2.request s).2 ∧
      ServesFiles (s.after (FileRequest.sent r)) (r.2.apply c) rs

/-- **A request on a file** does to the stored blocks what it does to the strings. -/
theorem OrdinaryVisit.serves (h : s.OrdinaryVisit) (hext : s.db.extensions = true)
    (hcalls : ∀ c, env.fails c = false) {r : FileRequest} (hr : r.Fits)
    (hfile : s.conn.NamedFile r.file) {c : ℕ → Bytes} (hc : s.conn.Holds c) :
    r.Replies c (handle env r.request s).2 ∧ (s.after (env, r.request)).conn.Holds (r.apply c) ∧
      (s.after (env, r.request)).conn.dentry = s.conn.dentry := by
  cases r with
  | write ino fh offset data => exact h.serves_write hcalls hfile hc hext fh hr.1 hr.2
  | resize ino size => exact h.serves_resize hcalls hfile hc hr
  | read ino fh offset size => exact h.serves_read hcalls hfile hc fh hr

theorem OrdinaryVisit.sent (h : s.OrdinaryVisit) {r : FileRequest} (hr : r.Fits) :
    (s.after (env, r.request)).OrdinaryVisit := by
  refine h.handled (env, r.request) ?_
  cases r with
  | write ino fh offset data =>
    exact ⟨hr.1, Int.natCast_nonneg offset, by exact_mod_cast hr.2⟩
  | resize ino size =>
    rintro ts t (hts | hts | hts) <;> simp [SetAttr.ofSize] at hts
  | read => trivial

theorem OrdinaryVisit.servesFiles (h : s.OrdinaryVisit) (hext : s.db.extensions = true)
    {rs : List (Env × FileRequest)} (hrs : ∀ r ∈ rs, (∀ c, r.1.fails c = false) ∧
      s.conn.NamedFile r.2.file ∧ r.2.Fits) {c : ℕ → Bytes} (hc : s.conn.Holds c) :
    s.ServesFiles c rs := by
  induction rs generalizing s c with
  | nil => exact hc
  | cons r rs ih =>
    obtain ⟨hcalls, hfile, hfits⟩ := hrs r List.mem_cons_self
    obtain ⟨hreply, hholds, hdentry⟩ := h.serves hext hcalls hfits hfile hc
    have hdb := (h.bounded.visited.storable.1.handle_effect (FileRequest.sent r)).sameMount.db
    refine ⟨hc, hreply, ih (h.sent hfits) (hdb ▸ hext) (fun r' hr' => ?_) hholds⟩
    obtain ⟨hcalls', hfile', hfits'⟩ := hrs r' (List.mem_cons_of_mem r hr')
    refine ⟨hcalls', ?_, hfits'⟩
    rw [Db.NamedFile, hdentry]
    exact hfile'

theorem ServesFiles.run {rs : List (Env × FileRequest)} {c : ℕ → Bytes} (h : s.ServesFiles c rs) :
    (s.run (rs.map FileRequest.sent)).conn.Holds (rs.foldl (fun c r => r.2.apply c) c) := by
  induction rs generalizing s c with
  | nil => exact h
  | cons r rs ih => exact ih h.2.2

/-- **The files hold their strings**: in every run of requests on files that have a name, with any
offsets and sizes that fit, every reply and every state is that of one string for each file. What
lies past the end of a file is zero until it is written, also where a file was cut and grows
again. -/
theorem files_hold_their_contents (h : s.OrdinaryVisit) (hext : s.db.extensions = true)
    {rs : List (Env × FileRequest)} (hrs : ∀ r ∈ rs, (∀ c, r.1.fails c = false) ∧
      s.conn.NamedFile r.2.file ∧ r.2.Fits) :
    s.ServesFiles s.conn.content rs ∧ ∀ i p, s.conn.fileSize i ≤ p →
      (∀ r ∈ rs, ¬ r.2.Writes i p) → (s.run (rs.map FileRequest.sent)).conn.bytes i p = 0 := by
  have hholds := h.bounded.blocksWithin.holds
  have hserves := h.servesFiles hext hrs hholds
  refine ⟨hserves, fun i p hp hwrites => ?_⟩
  rw [(hserves.run i).2 p]
  refine FileRequest.getD_foldl_apply hwrites ?_
  rw [← (hholds i).2, h.bounded.blocksWithin.zero i p hp]

/-- Data is written behind a hole, cut off, and read. -/
def cutAndRead : List (Env × FileRequest) :=
  [(.sample, .write 2 0 5000 [1, 2, 3]), (.sample, .resize 2 100), (.sample, .read 2 0 0 6000)]

/-- In a new file. -/
theorem files_hold_their_contents_sample :
    (sample.after (.sample, .create 1 [97] 0)).ServesFiles
        (sample.after (.sample, .create 1 [97] 0)).conn.content cutAndRead ∧
      ∀ i p, (sample.after (.sample, .create 1 [97] 0)).conn.fileSize i ≤ p →
        (∀ r ∈ cutAndRead, ¬ r.2.Writes i p) → ((sample.after (.sample, .create 1 [97] 0)).run
          (cutAndRead.map FileRequest.sent)).conn.bytes i p = 0 := by
  have hmount : mount .new epoch (Db.empty .sample id) false false = some sample := rfl
  have hnamed : (sample.after (.sample, .create 1 [97] 0)).conn.NamedFile 2 := by
    unfold Db.NamedFile
    decide
  refine files_hold_their_contents
    ((OrdinaryVisit.mounted id hmount).handled (.sample, .create 1 [97] 0) trivial) rfl
    fun r hr => ?_
  simp only [cutAndRead, List.mem_cons, List.not_mem_nil, or_false] at hr
  rcases hr with rfl | rfl | rfl
  · exact ⟨fun _ => rfl, hnamed, by simp, by decide⟩
  · exact ⟨fun _ => rfl, hnamed, show 100 < 2 ^ 32 by decide⟩
  · exact ⟨fun _ => rfl, hnamed, show 0 + 6000 < 2 ^ 32 by decide⟩

end SqliteFs

end TemporalFs
