import Mathlib
import TemporalFs.Ext.Fossildelta

/-!
# The delta format

A delta is the size of the target, a script of copies and insertions, and a checksum. Applying it to
the source gives what the script produces, if that has the size that was announced.

The numbers of a delta are written in base 64, the most significant digit first, and read until
something comes that is not a digit; their round trip is an instance of `Lib.Numerals`. A copy is
`count@offset,` and an insertion `count:` with the text behind it. The decoder goes through the
commands of a script in turn (`Lib.Edits`), and the induction is on the script.

## Main definitions

* `encode`: the text of a script.
* `delta`: the text of a delta.

## Main results

* `deltaGetInt_putInt`: numbers are read back.
* `deltaApply_delta`: the application of a well-formed delta.
* `deltaApplyFunc_delta`: the same for the SQL function.
-/

namespace TemporalFs.Fossil

/-! ### Numbers -/

theorem putInt_eq_write (v : ℕ) : putInt v = digits.write v := rfl

/-- The byte ends a number. -/
def IsOperator (c : UInt8) : Prop := zValue c = none

instance (c : UInt8) : Decidable (IsOperator c) := inferInstanceAs (Decidable (_ = _))

theorem stops_cons {c : UInt8} (hc : IsOperator c) (z : Bytes) : digits.Stops (c :: z) := by
  intro c' hc'
  obtain rfl : c = c' := Option.some.inj hc'
  exact hc

/-- A number that is followed by an operator is read back. -/
theorem deltaGetInt_putInt {v : ℕ} (hv : v < 2 ^ 32) {c : UInt8} (hc : IsOperator c) (z : Bytes)
    (len : ℤ) :
    deltaGetInt (putInt v ++ c :: z) (len + (putInt v).length) = some (v, c :: z, len) := by
  have hread : digits.read (2 ^ 32) (putInt v ++ c :: z) = (v, c :: z) :=
    digits.read_write (by decide) hv (stops_cons hc z)
  unfold deltaGetInt
  rw [hread]
  simp only [reduceCtorEq, ↓reduceIte, Option.some.injEq, Prod.mk.injEq, true_and]
  rw [List.length_append]
  omega

theorem putInt_append_ne_nil (v : ℕ) (z : Bytes) : putInt v ++ z ≠ [] :=
  List.append_ne_nil_of_left_ne_nil (digits.write_ne_nil v) z

/-- A number does not start with NUL. -/
theorem headD_putInt_append (v : ℕ) (z : Bytes) : (putInt v ++ z).headD 0 ≠ 0 := by
  obtain ⟨d, hd, l, hl⟩ := digits.head_write (by decide) v
  rw [putInt_eq_write, hl]
  change zDigits d ≠ 0
  interval_cases d <;> decide

theorem length_putInt_pos (v : ℕ) : 0 < (putInt v).length :=
  List.length_pos_iff.2 (digits.write_ne_nil v)

/-- A `u32` has at most six digits. -/
theorem length_putInt_le {v : ℕ} (hv : v < 2 ^ 32) : (putInt v).length ≤ 6 :=
  (digits.length_write_le_iff (by decide) (by decide) v).2 (hv.trans (by decide))

/-- Below `2 ^ 30` the digits are counted right. -/
theorem digitCount_eq {v : ℕ} (hv : v < 2 ^ 30) : digitCount v = some (putInt v).length := by
  have hle : ∀ k, 0 < k → ((putInt v).length ≤ k ↔ v < 64 ^ k) := fun k hk =>
    digits.length_write_le_iff (by decide) hk v
  have hpos := length_putInt_pos v
  have h₁ := hle 1 (by decide)
  have h₂ := hle 2 (by decide)
  have h₃ := hle 3 (by decide)
  have h₄ := hle 4 (by decide)
  have h₅ := hle 5 (by decide)
  norm_num at h₁ h₂ h₃ h₄ h₅
  simp only [digitCount, digitCountLoop, ge_iff_le, Nat.reduceMul, Nat.reducePow, Nat.reduceMod,
    Nat.reduceAdd]
  split_ifs <;> first | omega | (congr 1; omega)

/-! ### Scripts -/

/-- The text of a command. -/
def encodeEdit : Edit UInt8 → Bytes
  | .copy ofst cnt => putCopy cnt ofst
  | .insert text => putInsert text

/-- The text of a script. -/
def encode (es : List (Edit UInt8)) : Bytes := (es.map encodeEdit).flatten

/-- The text of a delta for a target of `n` bytes. -/
def delta (n : ℕ) (es : List (Edit UInt8)) (sum : ℕ) : Bytes :=
  putInt n ++ 10 :: encode es ++ putInt sum ++ [59]

@[simp] theorem encode_nil : encode [] = [] := rfl

@[simp] theorem encode_cons (e : Edit UInt8) (es : List (Edit UInt8)) :
    encode (e :: es) = encodeEdit e ++ encode es := rfl

@[simp] theorem encode_append (es es' : List (Edit UInt8)) :
    encode (es ++ es') = encode es ++ encode es' := by
  simp [encode]

section Application

variable {zSrc : Bytes} {limit : ℕ}

/-- A copy that lies in the source and in the buffer is carried out. -/
theorem applyLoop_copy {fuel total ofst cnt : ℕ} {len : ℤ} {zOut : Bytes}
    (hsrc : zSrc.length < 2 ^ 31) (hlimit : limit < 2 ^ 31) (hcopy : ofst + cnt ≤ zSrc.length)
    (htotal : zOut.length = total) (hfits : total + cnt ≤ limit) (hlen : 0 ≤ len) (z : Bytes) :
    applyLoop zSrc limit (fuel + 1) (putCopy cnt ofst ++ z) (len + (putCopy cnt ofst).length)
        total zOut =
      applyLoop zSrc limit fuel z len (total + cnt) (zOut ++ (zSrc.drop ofst).take cnt) := by
  have hsplit : len + ((putCopy cnt ofst).length : ℤ) =
      len + 1 + (putInt ofst).length + 1 + (putInt cnt).length := by
    simp only [putCopy, List.length_append, List.length_cons, List.length_nil]
    omega
  have htext : putCopy cnt ofst ++ z = putInt cnt ++ 64 :: (putInt ofst ++ 44 :: z) := by
    simp only [putCopy, List.append_assoc, List.cons_append, List.nil_append]
  have hcnt := deltaGetInt_putInt (show cnt < 2 ^ 32 by omega) (by decide : IsOperator 64)
    (putInt ofst ++ 44 :: z) (len + 1 + (putInt ofst).length + 1)
  have hofst := deltaGetInt_putInt (show ofst < 2 ^ 32 by omega) (by decide : IsOperator 44) z
    (len + 1)
  rw [htext, hsplit, applyLoop, if_neg (putInt_append_ne_nil _ _),
    if_neg (not_or.2 ⟨headD_putInt_append _ _, by omega⟩), hcnt]
  simp only [Int.add_sub_cancel, hofst, List.headD_cons, ne_eq, not_true_eq_false, and_false,
    ↓reduceIte, List.tail_cons]
  rw [Nat.mod_eq_of_lt (show total + cnt < 2 ^ 32 by omega),
    Nat.mod_eq_of_lt (show ofst + cnt < 2 ^ 32 by omega), if_neg (by omega), if_neg (by omega),
    if_pos ⟨hcopy, by omega⟩]

/-- An insertion that fits into the buffer is carried out. -/
theorem applyLoop_insert {fuel total : ℕ} {len : ℤ} {zOut text : Bytes} (hlimit : limit < 2 ^ 31)
    (htotal : zOut.length = total) (hfits : total + text.length ≤ limit) (hlen : 0 ≤ len)
    (hint : len + (putInsert text).length < 2 ^ 31) (z : Bytes) :
    applyLoop zSrc limit (fuel + 1) (putInsert text ++ z) (len + (putInsert text).length) total
        zOut =
      applyLoop zSrc limit fuel z len (total + text.length) (zOut ++ text) := by
  have hsplit : len + ((putInsert text).length : ℤ) =
      len + text.length + 1 + (putInt text.length).length := by
    simp only [putInsert, List.length_append, List.length_cons]
    omega
  have htext : putInsert text ++ z = putInt text.length ++ 58 :: (text ++ z) := by
    rw [putInsert, List.append_assoc, List.cons_append]
  have hcnt := deltaGetInt_putInt (show text.length < 2 ^ 32 by omega) (by decide : IsOperator 58)
    (text ++ z) (len + text.length + 1)
  rw [htext, hsplit, applyLoop, if_neg (putInt_append_ne_nil _ _),
    if_neg (not_or.2 ⟨headD_putInt_append _ _, by omega⟩), hcnt]
  simp only [Int.add_sub_cancel, List.length_append, List.drop_left, List.take_left]
  rw [Nat.mod_eq_of_lt (show total + text.length < 2 ^ 32 by omega),
    Int.emod_eq_of_lt (by omega) (by omega), if_neg (by omega), if_neg (by omega),
    if_pos ⟨by omega, by omega⟩]

/-- The checksum, which is not checked, ends the delta. -/
theorem applyLoop_end {fuel total sum : ℕ} {len : ℤ} {zOut : Bytes} (hsum : sum < 2 ^ 32)
    (hlen : 0 ≤ len) (z : Bytes) :
    applyLoop zSrc limit (fuel + 1) (putInt sum ++ 59 :: z) (len + 1 + (putInt sum).length) total
        zOut = if total ≠ limit then .error else .done zOut := by
  rw [applyLoop, if_neg (putInt_append_ne_nil _ _),
    if_neg (not_or.2 ⟨headD_putInt_append _ _, by omega⟩),
    deltaGetInt_putInt hsum (by decide : IsOperator 59)]
  rfl

/-- **The loop carries out a script**, whatever stands behind it in memory. -/
theorem applyLoop_encode (hsrc : zSrc.length < 2 ^ 31) (hlimit : limit < 2 ^ 31) {sum : ℕ}
    (hsum : sum < 2 ^ 32) (behind : Bytes) (es : List (Edit UInt8)) {x : Bytes}
    (hx : patch zSrc es = some x) (fuel total : ℕ) (zOut : Bytes) (hfuel : es.length < fuel)
    (htotal : zOut.length = total) (hfits : total + x.length = limit)
    (hint : (encode es ++ (putInt sum ++ [59])).length < 2 ^ 31) :
    applyLoop zSrc limit fuel (encode es ++ (putInt sum ++ 59 :: behind))
        (encode es ++ (putInt sum ++ [59])).length total zOut = .done (zOut ++ x) := by
  induction es generalizing x fuel total zOut with
  | nil =>
    obtain rfl := Option.some.inj hx
    obtain ⟨fuel, rfl⟩ := Nat.exists_eq_succ_of_ne_zero (Nat.pos_of_lt_add_left hfuel).ne'
    have hlen : (((encode [] ++ (putInt sum ++ [59])).length : ℕ) : ℤ) =
        0 + 1 + (putInt sum).length := by
      simp only [encode_nil, List.nil_append, List.length_append, List.length_singleton]
      omega
    rw [hlen, encode_nil, List.nil_append, applyLoop_end hsum le_rfl, List.append_nil,
      if_neg (by simpa using hfits)]
  | cons e es ih =>
    obtain ⟨y, z, hy, hz, rfl⟩ := patch_eq_some_cons.1 hx
    have hsize := Edit.length_output hy
    have hlen : (((encode (e :: es) ++ (putInt sum ++ [59])).length : ℕ) : ℤ) =
        (encode es ++ (putInt sum ++ [59])).length + (encodeEdit e).length := by
      simp only [encode_cons, List.length_append]
      omega
    rw [List.length_append] at hfits
    rw [List.length_cons] at hfuel
    obtain ⟨fuel, rfl⟩ := Nat.exists_eq_succ_of_ne_zero (show fuel ≠ 0 by omega)
    have hrest := ih hz fuel (total + y.length) (zOut ++ y) (by omega)
      (by rw [List.length_append, htotal]) (by omega) (by omega)
    rw [hlen, encode_cons, List.append_assoc, ← List.append_assoc zOut, ← hrest, hsize]
    cases e with
    | copy ofst cnt =>
      rw [Edit.output] at hy
      split_ifs at hy with hcopy
      obtain rfl := Option.some.inj hy
      rw [Edit.size] at hsize ⊢
      exact applyLoop_copy hsrc hlimit hcopy htotal (by omega) (Int.natCast_nonneg _) _
    | insert text =>
      obtain rfl := Option.some.inj hy
      exact applyLoop_insert hlimit htotal (by omega) (Int.natCast_nonneg _)
        (by change _ + (((encodeEdit (.insert _)).length : ℕ) : ℤ) < _; omega) _

/-- Each command has a text. -/
theorem length_le_encode (es : List (Edit UInt8)) : es.length ≤ (encode es).length := by
  induction es with
  | nil => exact le_rfl
  | cons e es ih =>
    have hpos : 0 < (encodeEdit e).length := by
      cases e with
      | copy ofst cnt => simp [encodeEdit, putCopy]
      | insert text => simp [encodeEdit, putInsert]
    rw [encode_cons, List.length_append, List.length_cons]
    omega

/-- The memory from the start of a delta on. -/
theorem delta_append (n : ℕ) (es : List (Edit UInt8)) (sum : ℕ) (behind : Bytes) :
    delta n es sum ++ behind = putInt n ++ 10 :: (encode es ++ (putInt sum ++ 59 :: behind)) := by
  simp only [delta, List.append_assoc, List.cons_append, List.nil_append]

/-- The size at the start of a delta is read back. -/
theorem deltaGetInt_delta {n : ℕ} (hn : n < 2 ^ 32) (es : List (Edit UInt8)) (sum : ℕ)
    (behind : Bytes) :
    deltaGetInt (delta n es sum ++ behind) (delta n es sum).length =
      some (n, 10 :: (encode es ++ (putInt sum ++ 59 :: behind)),
        ((encode es ++ (putInt sum ++ [59])).length : ℤ) + 1) := by
  have hlen : ((delta n es sum).length : ℤ) =
      ((encode es ++ (putInt sum ++ [59])).length : ℤ) + 1 + (putInt n).length := by
    simp only [delta, List.length_append, List.length_cons, List.length_nil]
    omega
  rw [delta_append, hlen]
  exact deltaGetInt_putInt hn (by decide : IsOperator 10) _ _

/-- **A well-formed delta is applied**: the output is what its script produces. -/
theorem deltaApply_delta (hsrc : zSrc.length < 2 ^ 31) {sum : ℕ} (hsum : sum < 2 ^ 32)
    {es : List (Edit UInt8)} {x : Bytes} (hx : patch zSrc es = some x) (hlen : x.length < 2 ^ 31)
    (hint : (delta x.length es sum).length < 2 ^ 31) (behind : Bytes) :
    deltaApply zSrc (delta x.length es sum ++ behind) (delta x.length es sum).length =
      .done x := by
  have hes := length_le_encode es
  rw [deltaApply, deltaGetInt_delta (by omega)]
  simp only [Int.add_sub_cancel]
  refine applyLoop_encode hsrc hlen hsum behind es hx _ 0 [] ?_ rfl (Nat.zero_add _) ?_
  · simp only [List.length_append]
    omega
  · simp only [delta, List.length_append, List.length_cons, List.length_nil] at hint ⊢
    omega

/-- The size of the target is read from a well-formed delta. -/
theorem deltaOutputSize_delta {n : ℕ} (hn : n < 2 ^ 31) (es : List (Edit UInt8)) (sum : ℕ)
    (behind : Bytes) :
    deltaOutputSize (delta n es sum ++ behind) (delta n es sum).length = some (n : ℤ) := by
  rw [deltaOutputSize, deltaGetInt_delta (by omega)]
  simp only [List.headD_cons, ne_eq, not_true_eq_false, ↓reduceIte, hn]

/-- A delta is not empty, so that there is a pointer to it. -/
theorem sqlite3ValueBlob_delta (n : ℕ) (es : List (Edit UInt8)) (sum : ℕ) (behind : Bytes) :
    sqlite3ValueBlob (delta n es sum) behind = delta n es sum ++ behind :=
  if_neg (by simp [delta])

/-- The SQL function applies a well-formed delta. -/
theorem deltaApplyFunc_delta (hsrc : zSrc.length < 2 ^ 31) {sum : ℕ} (hsum : sum < 2 ^ 32)
    {es : List (Edit UInt8)} {x : Bytes} (hx : patch zSrc es = some x)
    (hlen : x.length < maxAllocation) (hint : (delta x.length es sum).length < 2 ^ 31)
    (behind : Bytes) : deltaApplyFunc zSrc (delta x.length es sum) behind = .done x := by
  have hlimit : x.length < 2 ^ 31 := hlen.trans (by decide)
  unfold deltaApplyFunc
  dsimp only
  rw [sqlite3ValueBlob_delta, deltaOutputSize_delta hlimit, deltaApply_delta hsrc hsum hx hlimit
    hint]
  dsimp only
  rw [if_neg (by omega), if_neg (by omega), if_neg (not_not.2 rfl)]

end Application

end TemporalFs.Fossil
