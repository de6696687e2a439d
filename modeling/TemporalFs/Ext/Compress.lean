import Mathlib
import TemporalFs.Ext.Fossildelta

/-!
# The extension `compress`

The functions of `ext/compress.c`. What `compress(X)` returns is the size of `X` in base 128, the
most significant digit first and the last one with its high bit set, followed by what zlib makes of
`X`. The functions of zlib are parameters. Both functions ask for memory with an `int` and do not
look whether they got it.

## Main definitions

* `Zlib`: the functions of zlib.
* `compressFunc`, `uncompressFunc`: the SQL functions.

## Main results

* `uncompressFunc_compressFunc`: the round trip, for all blobs that SQLite allows.
* `length_compressFunc_le`: the buffer is large enough.
-/

namespace TemporalFs

/-- The functions of zlib that are called, with the size of the buffer for the output; `none` stands
for any other return value than `Z_OK`. -/
structure Zlib where
  compressBound : ℕ → ℕ
  compress : ℕ → Bytes → Option Bytes
  uncompress : ℕ → Bytes → Option Bytes

/-- What is documented of zlib: a buffer of the size `compressBound` is enough, which is at most
0.1% and 13 bytes more than the input, and the input comes back if there is room for it. -/
structure Zlib.Lawful (Z : Zlib) : Prop where
  compressBound_le : ∀ n, Z.compressBound n ≤ n + n / 1000 + 13
  compress_isSome : ∀ size x, Z.compressBound x.length ≤ size → (Z.compress size x).isSome
  length_compress_le : ∀ size x z, Z.compress size x = some z → z.length ≤ size
  uncompress_compress : ∀ size size' x z, Z.compress size x = some z → x.length ≤ size' →
    Z.uncompress size' z = some x

/-- Functions with the documented laws. They agree with zlib on the text `1 1:b1Y0000;` with a line
feed for the blank, and put a zero in front of everything else. -/
def Zlib.sample : Zlib where
  compressBound n := n + n / 2 ^ 12 + n / 2 ^ 14 + n / 2 ^ 25 + 13
  compress size x :=
    let z := if x = [49, 10, 49, 58, 98, 49, 89, 48, 48, 48, 48, 59] then
      [120, 156, 51, 228, 50, 180, 74, 50, 140, 52, 0, 2, 107, 0, 16, 18, 2, 142] else 0 :: x
    if z.length ≤ size then some z else none
  uncompress size z :=
    if z = [120, 156, 51, 228, 50, 180, 74, 50, 140, 52, 0, 2, 107, 0, 16, 18, 2, 142] then
      if 12 ≤ size then some [49, 10, 49, 58, 98, 49, 89, 48, 48, 48, 48, 59] else none
    else if z.head? = some 0 ∧ z.tail.length ≤ size then some z.tail else none

theorem Zlib.sample_lawful : Zlib.sample.Lawful where
  compressBound_le n := by
    change n + n / 2 ^ 12 + n / 2 ^ 14 + n / 2 ^ 25 + 13 ≤ _
    omega
  compress_isSome size x h := by
    have hsize : x.length + 13 ≤ size := by
      change x.length + x.length / 2 ^ 12 + x.length / 2 ^ 14 + x.length / 2 ^ 25 + 13 ≤ size at h
      omega
    by_cases hx : x = [49, 10, 49, 58, 98, 49, 89, 48, 48, 48, 48, 59]
    · rw [hx] at hsize
      simp only [List.length_cons, List.length_nil] at hsize
      simp only [sample, hx, ↓reduceIte, List.length_cons, List.length_nil]
      rw [if_pos (by omega)]
      rfl
    · simp only [sample, if_neg hx, List.length_cons]
      rw [if_pos (by omega)]
      rfl
  length_compress_le size x z h := by
    simp only [sample] at h
    split_ifs at h with hx hsize hsize
    · exact Option.some.inj h ▸ hsize
    · exact Option.some.inj h ▸ hsize
  uncompress_compress size size' x z h hx := by
    simp only [sample] at h
    split_ifs at h with heq hsize hsize
    · obtain rfl := Option.some.inj h
      subst heq
      exact if_pos hx
    · obtain rfl := Option.some.inj h
      simp [sample, hx]

/-! ### The size -/

/-- The digits `x[0]` to `x[4]`. -/
def sizeDigits (nIn : ℕ) : List ℕ := (List.range 5).map fun i => nIn / 2 ^ (7 * (4 - i)) % 128

/-- The digits without zeros in front, and the mark on the last one. -/
def sizeHeader (nIn : ℕ) : Bytes :=
  (((sizeDigits nIn).take 4).dropWhile (· = 0)).map UInt8.ofNat ++
    [UInt8.ofNat (nIn % 128) ||| 0x80]

/-- The loop of `uncompressFunc`, which ends after the byte with the mark. -/
def readSize : ℕ → ℕ → Bytes → ℕ × Bytes
  | 0, nOut, pIn => (nOut, pIn)
  | _, nOut, [] => (nOut, [])
  | fuel + 1, nOut, c :: pIn =>
    let nOut := nOut * 128 + c.toNat % 128
    if 128 ≤ c.toNat then (nOut, pIn) else readSize fuel nOut pIn

/-! ### The SQL functions -/

/-- How many bytes `sqlite3_malloc` gives memory for: its argument is an `int`, and it returns NULL
unless that is positive and not too large. -/
def sqlite3Malloc (n : ℕ) : Option ℕ :=
  if 0 < n % 2 ^ 32 ∧ n % 2 ^ 32 ≤ Fossil.maxAllocation then some (n % 2 ^ 32) else none

/-- How an SQL function ends: with access to memory that it did not get, or with NULL or a blob as
its value. -/
inductive SqlResult where
  | fault
  | null
  | blob (z : Bytes)
  deriving DecidableEq

/-- `compress(X)` on a blob. The size is written to the memory whether there is any or not. -/
def compressFunc (Z : Zlib) (pIn : Bytes) : SqlResult :=
  let nIn := pIn.length
  let nOut := (13 + nIn + (nIn + 999) % 2 ^ 32 / 1000) % 2 ^ 32
  if sqlite3Malloc (nOut + 5) ≠ some (nOut + 5) then .fault
  else
    match Z.compress nOut pIn with
    | some z => .blob (sizeHeader nIn ++ z)
    | none => .null

/-- `uncompress(X)` on a blob. Without memory zlib returns an error. -/
def uncompressFunc (Z : Zlib) (pIn : Bytes) : SqlResult :=
  let size := readSize 5 0 pIn
  match sqlite3Malloc (size.1 + 1) with
  | none => .null
  | some n =>
    if n < size.1 then .fault
    else
      match Z.uncompress size.1 size.2 with
      | some x => .blob x
      | none => .null

/-! ### The round trip -/

theorem sizeDigits_lt {nIn d : ℕ} (h : d ∈ sizeDigits nIn) : d < 128 := by
  obtain ⟨i, -, rfl⟩ := List.mem_map.1 h
  exact Nat.mod_lt _ (by decide)

/-- The digits are those of the size. -/
theorem foldl_sizeDigits {nIn : ℕ} (h : nIn < 2 ^ 32) :
    ((sizeDigits nIn).take 4).foldl (fun v d => v * 128 + d) 0 * 128 + nIn % 128 = nIn := by
  simp only [sizeDigits, List.range, List.range.loop, List.map_cons, List.map_nil,
    List.take_succ_cons,
    List.take_zero, List.foldl_cons, List.foldl_nil]
  omega

/-- Zeros in front do not count. -/
theorem foldl_dropWhile_zero (l : List ℕ) :
    (l.dropWhile (· = 0)).foldl (fun v d => v * 128 + d) 0 =
      l.foldl (fun v d => v * 128 + d) 0 := by
  induction l with
  | nil => rfl
  | cons d l ih =>
    by_cases hd : d = 0
    · rw [List.dropWhile_cons_of_pos (by simpa using hd), ih, List.foldl_cons, hd]
    · rw [List.dropWhile_cons_of_neg (by simpa using hd)]

/-- The digits and the byte with the mark are read back. -/
theorem readSize_digits {c : UInt8} (hc : 128 ≤ c.toNat) (z : Bytes) (l : List ℕ) (fuel v : ℕ)
    (hl : ∀ d ∈ l, d < 128) (hfuel : l.length < fuel) :
    readSize fuel v (l.map UInt8.ofNat ++ c :: z) =
      (l.foldl (fun v d => v * 128 + d) v * 128 + c.toNat % 128, z) := by
  induction l generalizing fuel v with
  | nil =>
    obtain ⟨fuel, rfl⟩ := Nat.exists_eq_succ_of_ne_zero (Nat.pos_of_lt_add_left hfuel).ne'
    exact if_pos hc
  | cons d l ih =>
    obtain ⟨fuel, rfl⟩ := Nat.exists_eq_succ_of_ne_zero (Nat.zero_lt_of_lt hfuel).ne'
    have hd := hl d List.mem_cons_self
    have hbyte : (UInt8.ofNat d).toNat = d := UInt8.toNat_ofNat_of_lt' (hd.trans (by decide))
    rw [List.map_cons, List.cons_append, readSize, hbyte, if_neg (not_le.2 hd),
      Nat.mod_eq_of_lt hd]
    exact ih fuel _ (fun d' hd' => hl d' (List.mem_cons_of_mem _ hd'))
      (Nat.lt_of_succ_lt_succ hfuel)

/-- The last digit with its mark. -/
theorem toNat_mark {d : ℕ} (hd : d < 128) : (UInt8.ofNat d ||| 0x80).toNat = d + 128 := by
  revert d
  decide

theorem length_dropWhile_digits_le (nIn : ℕ) :
    (((sizeDigits nIn).take 4).dropWhile (· = 0)).length ≤ 4 :=
  (List.dropWhile_sublist _).length_le

/-- **The size is read back.** -/
theorem readSize_header {nIn : ℕ} (h : nIn < 2 ^ 32) (z : Bytes) :
    readSize 5 0 (sizeHeader nIn ++ z) = (nIn, z) := by
  have hmark := toNat_mark (Nat.mod_lt nIn (show 0 < 128 by decide))
  have hlt : ∀ d ∈ ((sizeDigits nIn).take 4).dropWhile (· = 0), d < 128 := fun d hd =>
    sizeDigits_lt (List.take_subset _ _ ((List.dropWhile_sublist _).subset hd))
  rw [sizeHeader, List.append_assoc, List.singleton_append, readSize_digits (by omega) z _ 5 0 hlt
    (Nat.lt_succ_of_le (length_dropWhile_digits_le nIn)), hmark, foldl_dropWhile_zero,
    Nat.add_mod_right, Nat.mod_mod, foldl_sizeDigits h]

theorem sqlite3Malloc_eq {n : ℕ} (hpos : 0 < n) (hn : n ≤ Fossil.maxAllocation) :
    sqlite3Malloc n = some n := by
  have hmod : n % 2 ^ 32 = n := Nat.mod_eq_of_lt (hn.trans_lt (by decide))
  rw [sqlite3Malloc, hmod]
  exact if_pos ⟨hpos, hn⟩

/-- Below `2 ^ 30` bytes there is memory, and zlib is given the documented room. -/
theorem compressFunc_eq (Z : Zlib) {x : Bytes} (hx : x.length < 2 ^ 30) :
    compressFunc Z x =
      match Z.compress (13 + x.length + (x.length + 999) / 1000) x with
      | some z => .blob (sizeHeader x.length ++ z)
      | none => .null := by
  have hmod : (x.length + 999) % 2 ^ 32 = x.length + 999 := Nat.mod_eq_of_lt (by omega)
  have hout : (13 + x.length + (x.length + 999) / 1000) % 2 ^ 32 =
      13 + x.length + (x.length + 999) / 1000 := Nat.mod_eq_of_lt (by omega)
  have hmem := sqlite3Malloc_eq
    (show 0 < 13 + x.length + (x.length + 999) / 1000 + 5 by omega)
    (show 13 + x.length + (x.length + 999) / 1000 + 5 ≤ Fossil.maxAllocation by
      unfold Fossil.maxAllocation; omega)
  unfold compressFunc
  dsimp only
  rw [hmod, hout, if_neg (not_not.2 hmem)]

/-- **The buffer that is given to zlib is large enough.** -/
theorem compressFunc_spec {Z : Zlib} (hZ : Z.Lawful) {x : Bytes} (hx : x.length < 2 ^ 30) :
    ∃ y, Z.compress (13 + x.length + (x.length + 999) / 1000) x = some y ∧
      compressFunc Z x = .blob (sizeHeader x.length ++ y) := by
  have hbound := hZ.compressBound_le x.length
  obtain ⟨y, hy⟩ := Option.isSome_iff_exists.1
    (hZ.compress_isSome (13 + x.length + (x.length + 999) / 1000) x (by omega))
  refine ⟨y, hy, ?_⟩
  rw [compressFunc_eq Z hx, hy]

/-- The size that stands in front of a compressed blob gives zlib the room for it. -/
theorem uncompressFunc_sizeHeader {Z : Zlib} (hZ : Z.Lawful) {x y : Bytes} {size : ℕ}
    (hx : x.length < 2 ^ 30) (hy : Z.compress size x = some y) :
    uncompressFunc Z (sizeHeader x.length ++ y) = .blob x := by
  have hmem := sqlite3Malloc_eq (Nat.succ_pos x.length)
    (show x.length + 1 ≤ Fossil.maxAllocation by unfold Fossil.maxAllocation; omega)
  unfold uncompressFunc
  dsimp only
  rw [readSize_header (by omega), hmem]
  dsimp only
  rw [if_neg (by omega), hZ.uncompress_compress _ _ _ _ hy le_rfl]

/-- **What was compressed comes back**, for every blob below `2 ^ 30` bytes and whatever zlib does
within its laws. -/
theorem uncompressFunc_compressFunc {Z : Zlib} (hZ : Z.Lawful) {x : Bytes}
    (hx : x.length < 2 ^ 30) :
    ∃ z, compressFunc Z x = .blob z ∧ uncompressFunc Z z = .blob x := by
  obtain ⟨y, hy, hblob⟩ := compressFunc_spec hZ hx
  exact ⟨_, hblob, uncompressFunc_sizeHeader hZ hx hy⟩

/-- The difference of two blocks of one letter. -/
theorem uncompressFunc_compressFunc_sample :
    ∃ z, compressFunc .sample [49, 10, 49, 58, 98, 49, 89, 48, 48, 48, 48, 59] = .blob z ∧
      uncompressFunc .sample z = .blob [49, 10, 49, 58, 98, 49, 89, 48, 48, 48, 48, 59] :=
  uncompressFunc_compressFunc Zlib.sample_lawful (by decide)

/-- **The buffer of `nOut+5` bytes is large enough** for the size and for what zlib writes. -/
theorem length_compressFunc_le {Z : Zlib} (hZ : Z.Lawful) {x z : Bytes} (hx : x.length < 2 ^ 30)
    (h : compressFunc Z x = .blob z) :
    z.length ≤ (13 + x.length + (x.length + 999) / 1000) + 5 := by
  obtain ⟨y, hy, hblob⟩ := compressFunc_spec hZ hx
  obtain rfl := SqlResult.blob.inj (hblob.symm.trans h)
  have hdigits := length_dropWhile_digits_le x.length
  have hlength := hZ.length_compress_le _ _ _ hy
  rw [List.length_append, sizeHeader, List.length_append, List.length_map, List.length_singleton]
  omega

end TemporalFs
