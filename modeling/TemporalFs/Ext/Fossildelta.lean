import Mathlib
import TemporalFs.Db.Schema
import TemporalFs.Lib.Edits
import TemporalFs.Lib.Numerals

/-!
# The extension `fossildelta`

The functions of `ext/fossildelta.c` that the program calls through SQL. Blobs are lists of bytes,
`int` and `unsigned` are natural numbers, reduced modulo `2 ^ 32` where the code can overflow, and
the hash is computed with `u16` as in the code. A loop that need not end has fuel, and `none` means
that it does not return. The decoder gets the bytes that stand behind a delta in memory, since it
can read there.

## Main definitions

* `putInt`: numbers in a delta.
* `deltaCreate`: the encoder, with its hash table and its rolling hash.
* `deltaGetInt`, `deltaOutputSize`, `deltaApply`: the decoder.
* `deltaCreateFunc`, `deltaApplyFunc`: the SQL functions.
-/

namespace TemporalFs.Fossil

/-- The width of a hash window in bytes. -/
def NHASH : ℕ := 16

/-! ### Numbers -/

/-- `"0123456789ABCDEFGHIJKLMNOPQRSTUVWXYZ_abcdefghijklmnopqrstuvwxyz~"` -/
def zDigits (d : ℕ) : UInt8 :=
  UInt8.ofNat (if d < 10 then d + 48 else if d < 36 then d + 55 else if d = 36 then 95
    else if d < 63 then d + 60 else 126)

/-- The table `zValue`, which the code indexes with `0x7f & c`; `none` is -1. -/
def zValue (c : UInt8) : Option ℕ :=
  let c := c.toNat % 128
  if 48 ≤ c ∧ c ≤ 57 then some (c - 48)
  else if 65 ≤ c ∧ c ≤ 90 then some (c - 55)
  else if c = 95 then some 36
  else if 97 ≤ c ∧ c ≤ 122 then some (c - 60)
  else if c = 126 then some 63
  else none

/-- The digits of delta numbers. -/
def digits : Digits UInt8 64 := ⟨zDigits, zValue, by decide⟩

/-- The loop that fills `zBuf` gives the digits from the least significant on. -/
def putInt (v : ℕ) : Bytes :=
  if v = 0 then [zDigits 0] else ((Nat.digits 64 v).map zDigits).reverse

/-- The loop of `digitCount`. The shift of `x` overflows at the sixth step, and from then on the
loop does not end. -/
def digitCountLoop (v : ℕ) : ℕ → ℕ → ℕ → Option ℕ
  | 0, _, _ => none
  | fuel + 1, i, x => if v ≥ x then digitCountLoop v fuel (i + 1) (x * 64 % 2 ^ 32) else some i

/-- The number of digits of a number in base 64, at least one; `none` where the loop does not
end. -/
def digitCount (v : ℕ) : Option ℕ := digitCountLoop v 6 1 64

/-- The sum of the big-endian words. -/
def checksum : Bytes → UInt32
  | a :: b :: c :: d :: z =>
    (a.toUInt32 <<< 24) + (b.toUInt32 <<< 16) + (c.toUInt32 <<< 8) + d.toUInt32 + checksum z
  | [a, b, c] => (c.toUInt32 <<< 8) + (b.toUInt32 <<< 16) + (a.toUInt32 <<< 24)
  | [a, b] => (b.toUInt32 <<< 16) + (a.toUInt32 <<< 24)
  | [a] => a.toUInt32 <<< 24
  | [] => 0

/-! ### The rolling hash -/

/-- `z` is a circular buffer that starts at `i`. -/
structure Hash where
  a : UInt16
  b : UInt16
  i : ℕ
  z : Bytes

section Hashing

-- whether `char` is signed depends on the machine
variable (signed : Bool)

/-- A `char` as a `u16`. -/
def charValue (c : UInt8) : UInt16 :=
  if signed = true ∧ 128 ≤ c then c.toUInt16 + 0xff00 else c.toUInt16

/-- One round of the loops of `hashInit` and `hashOnce`. -/
def hashAdd (ab : UInt16 × UInt16) (c : UInt8) : UInt16 × UInt16 :=
  (ab.1 + charValue signed c, ab.2 + (ab.1 + charValue signed c))

/-- The sums over the first `NHASH` bytes. -/
def hashSums (z : Bytes) : UInt16 × UInt16 :=
  ((z.take NHASH).drop 1).foldl (hashAdd signed)
    (charValue signed (z.headD 0), charValue signed (z.headD 0))

/-- The state for the window at the start of `z`. -/
def hashInit (z : Bytes) : Hash :=
  ⟨(hashSums signed z).1, (hashSums signed z).2, 0, z.take NHASH⟩

/-- The window moves on by the byte `c`, which takes the place of the oldest one. -/
def hashNext (h : Hash) (c : UInt8) : Hash :=
  let old := charValue signed (h.z.getD h.i 0)
  let a := h.a - old + charValue signed c
  ⟨a, h.b - 16 * old + a, (h.i + 1) % NHASH, h.z.set h.i c⟩

/-- The two sums in one number of 32 bits. -/
def hashOf (a b : UInt16) : ℕ := (a.toUInt32 ||| (b.toUInt32 <<< 16)).toNat

/-- The hash of the window. -/
def hash32bit (h : Hash) : ℕ := hashOf h.a h.b

/-- The hash of the first `NHASH` bytes of `z`, computed without a state. -/
def hashOnce (z : Bytes) : ℕ := hashOf (hashSums signed z).1 (hashSums signed z).2

/-! ### The encoder -/

/-- The hash table: for each hash the last block of the source with it, and for each block the one
before it with the same hash. `none` is -1. -/
structure Landmarks where
  landmark : List (Option ℕ)
  collide : List (Option ℕ)

/-- The block `n` of the source is entered. -/
def enterBlock (zSrc : Bytes) (t : Landmarks) (n : ℕ) : Landmarks :=
  let hv := hashOnce signed (zSrc.drop (n * NHASH)) % (zSrc.length / NHASH)
  ⟨t.landmark.set hv (some n), t.collide.set n (t.landmark.getD hv none)⟩

/-- The loop `for(i=0; i<lenSrc-NHASH; i+=NHASH)`, with `i = n * NHASH`. -/
def landmarks (zSrc : Bytes) : Landmarks :=
  ((List.range (zSrc.length / NHASH)).takeWhile fun n => n * NHASH < zSrc.length - NHASH).foldl
    (enterBlock signed zSrc)
    ⟨List.replicate (zSrc.length / NHASH) none, List.replicate (zSrc.length / NHASH) none⟩

/-- `bestCnt`, `bestOfst` and `bestLitsz`. -/
structure Match where
  cnt : ℕ
  ofst : ℕ
  litsz : ℕ

variable (zSrc zOut : Bytes)

/-- The number of bytes that agree from `zSrc[x]` and `zOut[y]` on, at most the given one. -/
def matchForwards : ℕ → ℕ → ℕ → ℕ
  | 0, _, _ => 0
  | n + 1, x, y =>
    if zSrc.getD x 0 ≠ zOut.getD y 0 then 0 else matchForwards n (x + 1) (y + 1) + 1

/-- The number of bytes that agree before `zSrc[x]` and `zOut[y]`, at most the given one. -/
def matchBackwards : ℕ → ℕ → ℕ → ℕ
  | 0, _, _ => 0
  | n + 1, x, y =>
    if zSrc.getD (x - 1) 0 ≠ zOut.getD (y - 1) 0 then 0
    else matchBackwards n (x - 1) (y - 1) + 1

/-- The body of the loop over blocks: the match that contains the start of the block `iBlock` and
`zOut[base+i]` is remembered if it is the best so far and does not increase the size. -/
def tryBlock (base i iBlock : ℕ) (best : Match) : Option Match := do
  let iSrc := iBlock * NHASH
  let y := base + i
  let limitX :=
    if zSrc.length - iSrc ≤ zOut.length - y then zSrc.length else iSrc + zOut.length - y
  let forwards := matchForwards zSrc zOut (limitX - iSrc) iSrc y
  -- `for(k=1; k<iSrc && k<=i; k++)`
  let k := matchBackwards zSrc zOut (min (iSrc - 1) i) iSrc y
  let ofst := iSrc - k
  let cnt := forwards + k
  let litsz := i - k
  let sz := (← digitCount litsz) + (← digitCount cnt) + (← digitCount ofst) + 3
  pure (if cnt ≥ sz ∧ cnt > best.cnt then ⟨cnt, ofst, litsz⟩ else best)

/-- The loop over the blocks with the same hash, at most `limit` of them. -/
def tryBlocks (t : Landmarks) (base i : ℕ) : ℕ → Option ℕ → Match → Option Match
  | _, none, best => some best
  | 0, some _, best => some best
  | limit + 1, some iBlock, best => do
    let best ← tryBlock zSrc zOut base i iBlock best
    tryBlocks t base i limit (t.collide.getD iBlock none) best

/-- The loop that advances the window from `zOut[base]`. It ends with a match or, without one, at
the end of the target. -/
def findMatch (t : Landmarks) (base : ℕ) : ℕ → ℕ → Hash → Option (Option Match)
  | 0, _, _ => none
  | fuel + 1, i, h => do
    let hv := hash32bit h % (zSrc.length / NHASH)
    let best ← tryBlocks zSrc zOut t base i 250 (t.landmark.getD hv none) ⟨0, 0, 0⟩
    if best.cnt > 0 then pure (some best)
    else if base + i + NHASH ≥ zOut.length then pure none
    else findMatch t base fuel (i + 1) (hashNext signed h (zOut.getD (base + i + NHASH) 0))

/-- `NNN:TTTTT` -/
def putInsert (text : Bytes) : Bytes := putInt text.length ++ 58 :: text

/-- `NNN@MMM,` -/
def putCopy (cnt ofst : ℕ) : Bytes := putInt cnt ++ 64 :: putInt ofst ++ [44]

/-- The scan of the target from `zOut[base]` on, and the final insertion. -/
def putSegments (t : Landmarks) : ℕ → ℕ → Option Bytes
  | 0, _ => none
  | fuel + 1, base =>
    if base + NHASH < zOut.length then do
      match ← findMatch signed zSrc zOut t base zOut.length 0
        (hashInit signed (zOut.drop base)) with
      | some m =>
        let rest ← putSegments t fuel (base + m.litsz + m.cnt)
        pure ((if m.litsz > 0 then putInsert ((zOut.drop base).take m.litsz) else []) ++
          putCopy m.cnt m.ofst ++ rest)
      | none => pure (putInsert (zOut.drop base))
    else pure (if base < zOut.length then putInsert (zOut.drop base) else [])

/-- The delta that carries `zSrc` into `zOut`: the size of the target, the segments, and the
checksum of the target. A source no longer than a window is not searched. `none` where `digit_count`
does not return. -/
def deltaCreate : Option Bytes := do
  let segments ←
    if zSrc.length ≤ NHASH then some (putInsert zOut)
    else putSegments signed zSrc zOut (landmarks signed zSrc) (zOut.length + 1) 0
  pure (putInt zOut.length ++ 10 :: segments ++ putInt (checksum zOut).toNat ++ [59])

end Hashing

/-! ### The decoder -/

/-- What can be read from the pointer on that `sqlite3_value_blob` returns: the blob, and the bytes
that happen to stand behind it in memory. The pointer to an empty blob is NULL. -/
def sqlite3ValueBlob (x behind : Bytes) : Bytes := if x = [] then [] else x ++ behind

/-- The number at the start of a text, what follows it, and how much of the delta is left then.
`none` stands for an access to memory that is not there: the byte that ends the number is read. -/
def deltaGetInt (pz : Bytes) (pLen : ℤ) : Option (ℕ × Bytes × ℤ) :=
  let number := digits.read (2 ^ 32) pz
  if number.2 = [] then none
  else some (number.1, number.2, pLen - (pz.length - number.2.length))

/-- The size as an `int`, or -1; `none` as for `deltaGetInt`. -/
def deltaOutputSize (zDelta : Bytes) (lenDelta : ℤ) : Option ℤ :=
  match deltaGetInt zDelta lenDelta with
  | none => none
  | some (size, zDelta, _) =>
    if zDelta.headD 0 ≠ 10 then some (-1)
    else some (if size < 2 ^ 31 then size else size - 2 ^ 32)

/-- How an application ends: with an access outside of the source, of the buffer for the output or
of the memory behind the delta, with an error, or with the output. -/
inductive Applied where
  | fault
  | error
  | done (zOut : Bytes)
  deriving DecidableEq

/-- The loop of `deltaApply`. Each round takes at least one byte. `lenDelta` gets negative where
the bytes behind the delta continue its last number, and the insertion compares it as `unsigned`. -/
def applyLoop (zSrc : Bytes) (limit : ℕ) : ℕ → Bytes → ℤ → ℕ → Bytes → Applied
  | 0, _, _, _, _ => .error
  | fuel + 1, zDelta, lenDelta, total, zOut =>
    if zDelta = [] then .fault
    else if zDelta.headD 0 = 0 ∨ lenDelta ≤ 0 then .error
    else
      match deltaGetInt zDelta lenDelta with
      | none => .fault
      | some (cnt, 64 :: zDelta, lenDelta) =>
        match deltaGetInt zDelta (lenDelta - 1) with
        | none => .fault
        | some (ofst, zDelta, lenDelta) =>
          if lenDelta > 0 ∧ zDelta.headD 0 ≠ 44 then .error
          else
            let total := (total + cnt) % 2 ^ 32
            if total > limit then .error
            else if (ofst + cnt) % 2 ^ 32 > zSrc.length then .error
            else if ofst + cnt ≤ zSrc.length ∧ zOut.length + cnt ≤ limit then
              applyLoop zSrc limit fuel zDelta.tail (lenDelta - 1) total
                (zOut ++ (zSrc.drop ofst).take cnt)
            else .fault
      | some (cnt, 58 :: zDelta, lenDelta) =>
        let lenDelta := lenDelta - 1
        let total := (total + cnt) % 2 ^ 32
        if total > limit then .error
        else if cnt > lenDelta % 2 ^ 32 then .error
        else if cnt ≤ zDelta.length ∧ zOut.length + cnt ≤ limit then
          applyLoop zSrc limit fuel (zDelta.drop cnt) (lenDelta - cnt) total
            (zOut ++ zDelta.take cnt)
        else .fault
      | some (_, 59 :: _, _) => if total ≠ limit then .error else .done zOut
      | some _ => .error

/-- The decoder on the memory from the start of the delta on. -/
def deltaApply (zSrc zDelta : Bytes) (lenDelta : ℤ) : Applied :=
  match deltaGetInt zDelta lenDelta with
  | none => .fault
  | some (limit, 10 :: zDelta, lenDelta) =>
    applyLoop zSrc limit (zDelta.length + 1) zDelta (lenDelta - 1) 0 []
  | some _ => .error

/-! ### The SQL functions -/

/-- `delta_create(X,Y)` on blobs, with memory for the delta; `none` where it does not return. -/
def deltaCreateFunc (signed : Bool) (aOrig aNew : Bytes) : Option Bytes :=
  deltaCreate signed aOrig aNew

/-- `SQLITE_MAX_ALLOCATION_SIZE`. Smaller allocations succeed. -/
def maxAllocation : ℕ := 2147483391

/-- `delta_apply(X,D)` on blobs, with the bytes that stand behind `D` in memory. -/
def deltaApplyFunc (aOrig aDelta behind : Bytes) : Applied :=
  let zDelta := sqlite3ValueBlob aDelta behind
  match deltaOutputSize zDelta aDelta.length with
  | none => .fault
  | some nOut =>
    if nOut < 0 then .error
    else if nOut + 1 > maxAllocation then .error
    else
      match deltaApply aOrig zDelta aDelta.length with
      | .done aOut => if aOut.length ≠ nOut then .error else .done aOut
      | r => r

end TemporalFs.Fossil
