import Mathlib
import TemporalFs.Ext.DeltaFormat

/-!
# The delta encoder

Whatever the hash table proposes, the encoder only records pieces of the source that agree with the
target, and only where that is shorter than an insertion. So its delta carries the source into the
target and is never much longer than the target. The sizes of blobs are below `2 ^ 30`, as from
there on `digitCount` does not return; SQLite allows no blob of that size.

## Main definitions

* `Good`: a match that may be recorded.
* `Within`: a hash table that names blocks of the source.

## Main results

* `tryBlock_spec`, `findMatch_spec`: the search finds only good matches.
* `putSegments_spec`: the scan covers the target.
* `deltaApply_deltaCreate`: the round trip.
* `length_deltaCreate_le`: the buffer is large enough.
-/

namespace TemporalFs.Fossil

variable {signed : Bool} {zSrc zOut : Bytes}

theorem getElem?_eq_of_getD_eq {x y : ℕ} (hx : x < zSrc.length) (hy : y < zOut.length)
    (h : zSrc.getD x 0 = zOut.getD y 0) : zSrc[x]? = zOut[y]? := by
  rw [List.getD_eq_getElem _ _ hx, List.getD_eq_getElem _ _ hy] at h
  rw [List.getElem?_eq_getElem hx, List.getElem?_eq_getElem hy, h]

/-! ### Matching -/

theorem matchForwards_agree {n x y : ℕ} (hx : x + n ≤ zSrc.length) (hy : y + n ≤ zOut.length) :
    Agree zSrc zOut x y (matchForwards zSrc zOut n x y) := by
  induction n generalizing x y with
  | zero => exact .zero (by omega) (by omega)
  | succ n ih =>
    rw [matchForwards]
    split_ifs with hne
    · exact .zero (by omega) (by omega)
    · rw [Nat.add_comm]
      exact (Agree.one (by omega) (by omega)
        (getElem?_eq_of_getD_eq (by omega) (by omega) (not_not.1 hne))).add
          (ih (by omega) (by omega))

variable (zSrc zOut) in
theorem matchBackwards_le (n x y : ℕ) : matchBackwards zSrc zOut n x y ≤ n := by
  induction n generalizing x y with
  | zero => exact le_rfl
  | succ n ih =>
    rw [matchBackwards]
    split_ifs
    · exact Nat.zero_le _
    · exact Nat.succ_le_succ (ih _ _)

variable (zSrc zOut) in
theorem matchBackwards_agree {n x y : ℕ} (hnx : n ≤ x) (hny : n ≤ y) (hx : x ≤ zSrc.length)
    (hy : y ≤ zOut.length) :
    Agree zSrc zOut (x - matchBackwards zSrc zOut n x y) (y - matchBackwards zSrc zOut n x y)
      (matchBackwards zSrc zOut n x y) := by
  induction n generalizing x y with
  | zero => exact .zero hx hy
  | succ n ih =>
    rw [matchBackwards]
    split_ifs with hne
    · exact .zero hx hy
    · have hrest := ih (x := x - 1) (y := y - 1) (by omega) (by omega) (by omega) (by omega)
      have hle := matchBackwards_le zSrc zOut n (x - 1) (y - 1)
      generalize matchBackwards zSrc zOut n (x - 1) (y - 1) = k at hrest hle ⊢
      rw [show x - 1 - k = x - (k + 1) by omega, show y - 1 - k = y - (k + 1) by omega] at hrest
      refine hrest.add (Agree.one (by omega) (by omega) ?_)
      rw [show x - (k + 1) + k = x - 1 by omega, show y - (k + 1) + k = y - 1 by omega]
      exact getElem?_eq_of_getD_eq (by omega) (by omega) (not_not.1 hne)

/-- The match is a piece of the source that is found in the target, and it takes less space than
the text. -/
structure Good (zSrc zOut : Bytes) (base : ℕ) (m : Match) : Prop where
  agree : Agree zSrc zOut m.ofst (base + m.litsz) m.cnt
  cheap : (putInt m.litsz).length + (putInt m.cnt).length + (putInt m.ofst).length + 3 ≤ m.cnt

/-- Both blobs are small enough for `digitCount`. -/
structure Small (zSrc zOut : Bytes) : Prop where
  source : zSrc.length < 2 ^ 30
  target : zOut.length < 2 ^ 30

/-- A block of the source gives a good match or none. -/
theorem tryBlock_spec (h : Small zSrc zOut) {base i iBlock : ℕ} (best : Match)
    (hblock : iBlock * NHASH ≤ zSrc.length) (hi : base + i ≤ zOut.length) :
    ∃ m, tryBlock zSrc zOut base i iBlock best = some m ∧ (m = best ∨ Good zSrc zOut base m) := by
  have hforwards : Agree zSrc zOut (iBlock * NHASH) (base + i) (matchForwards zSrc zOut
      ((if zSrc.length - iBlock * NHASH ≤ zOut.length - (base + i) then zSrc.length
        else iBlock * NHASH + zOut.length - (base + i)) - iBlock * NHASH) (iBlock * NHASH)
        (base + i)) := by
    apply matchForwards_agree <;> split_ifs <;> omega
  have hbackwards := matchBackwards_agree zSrc zOut
    (n := min (iBlock * NHASH - 1) i) (x := iBlock * NHASH) (y := base + i) (by omega) (by omega)
    hblock hi
  have hle := matchBackwards_le zSrc zOut (min (iBlock * NHASH - 1) i)
    (iBlock * NHASH) (base + i)
  unfold tryBlock
  dsimp only
  generalize matchBackwards zSrc zOut (min (iBlock * NHASH - 1) i) (iBlock * NHASH) (base + i) = k
    at hbackwards hle ⊢
  generalize matchForwards zSrc zOut _ (iBlock * NHASH) (base + i) = f at hforwards ⊢
  have hagree : Agree zSrc zOut (iBlock * NHASH - k) (base + (i - k)) (f + k) := by
    have hback : Agree zSrc zOut (iBlock * NHASH - k) (base + (i - k)) k := by
      rw [show base + (i - k) = base + i - k by omega]
      exact hbackwards
    rw [Nat.add_comm f k]
    refine hback.add ?_
    rwa [show iBlock * NHASH - k + k = iBlock * NHASH by omega,
      show base + (i - k) + k = base + i by omega]
  have hsource := hagree.source
  have htarget := hagree.target
  have hsmall := h.source
  have hsmall' := h.target
  rw [digitCount_eq (show i - k < 2 ^ 30 by omega), digitCount_eq (show f + k < 2 ^ 30 by omega),
    digitCount_eq (show iBlock * NHASH - k < 2 ^ 30 by omega)]
  refine ⟨_, rfl, ?_⟩
  split_ifs with hbetter
  · exact Or.inr ⟨hagree, hbetter.1⟩
  · exact Or.inl rfl

/-! ### The hash table -/

/-- All blocks in the table are blocks of the source. -/
def Within (zSrc : Bytes) (t : Landmarks) : Prop :=
  ∀ n, some n ∈ t.landmark ∨ some n ∈ t.collide → n * NHASH < zSrc.length - NHASH

theorem mem_getD {l : List (Option ℕ)} {k n : ℕ} (h : l.getD k none = some n) : some n ∈ l := by
  rw [List.getD_eq_getElem?_getD] at h
  cases hk : l[k]? with
  | none => simp [hk] at h
  | some o =>
    rw [hk, Option.getD_some] at h
    exact h ▸ List.mem_of_getElem? hk

theorem Within.enterBlock {t : Landmarks} (h : Within zSrc t) {n : ℕ}
    (hn : n * NHASH < zSrc.length - NHASH) : Within zSrc (enterBlock signed zSrc t n) := by
  intro m hm
  rcases hm with hm | hm
  · rcases List.mem_or_eq_of_mem_set hm with hm | hm
    · exact h m (Or.inl hm)
    · exact Option.some.inj hm ▸ hn
  · rcases List.mem_or_eq_of_mem_set hm with hm | hm
    · exact h m (Or.inr hm)
    · exact h m (Or.inl (mem_getD hm.symm))

theorem within_landmarks : Within zSrc (landmarks signed zSrc) := by
  unfold landmarks
  have hfold : ∀ (l : List ℕ) (t : Landmarks), (∀ n ∈ l, n * NHASH < zSrc.length - NHASH) →
      Within zSrc t → Within zSrc (l.foldl (enterBlock signed zSrc) t) := by
    intro l
    induction l with
    | nil => exact fun t _ h => h
    | cons n l ih =>
      exact fun t hl h => ih _ (fun m hm => hl m (List.mem_cons_of_mem _ hm))
        (h.enterBlock (hl n List.mem_cons_self))
  refine hfold _ _ (fun n hn => ?_) fun n hn => ?_
  · simpa using List.mem_takeWhile_imp hn
  · rcases hn with hn | hn <;> exact absurd (List.eq_of_mem_replicate hn) (by simp)

/-! ### The search -/

/-- The blocks with the same hash give a good match or none. -/
theorem tryBlocks_spec (h : Small zSrc zOut) {t : Landmarks} (ht : Within zSrc t) {base i : ℕ}
    (hi : base + i ≤ zOut.length) (limit : ℕ) (iBlock : Option ℕ) (best : Match)
    (hblock : ∀ n, iBlock = some n → n * NHASH < zSrc.length - NHASH) :
    ∃ m, tryBlocks zSrc zOut t base i limit iBlock best = some m ∧
      (m = best ∨ Good zSrc zOut base m) := by
  induction limit generalizing iBlock best with
  | zero => cases iBlock <;> exact ⟨best, rfl, Or.inl rfl⟩
  | succ limit ih =>
    cases iBlock with
    | none => exact ⟨best, rfl, Or.inl rfl⟩
    | some n =>
      have hn := hblock n rfl
      obtain ⟨m, hm, hgood⟩ := tryBlock_spec h best (show n * NHASH ≤ zSrc.length by omega) hi
      obtain ⟨m', hm', hgood'⟩ := ih (t.collide.getD n none) m
        fun n' hn' => ht n' (Or.inr (mem_getD hn'))
      refine ⟨m', ?_, ?_⟩
      · rw [tryBlocks, hm]
        exact hm'
      · rcases hgood' with rfl | hgood'
        · exact hgood
        · exact Or.inr hgood'

variable (signed) in
/-- The search returns, with a good match or at the end of the target. -/
theorem findMatch_spec (h : Small zSrc zOut) {t : Landmarks} (ht : Within zSrc t) {base : ℕ}
    (fuel i : ℕ) (hash : Hash) (hi : base + i + NHASH ≤ zOut.length)
    (hfuel : zOut.length < base + i + NHASH + fuel) :
    ∃ o, findMatch signed zSrc zOut t base fuel i hash = some o ∧
      ∀ m, o = some m → Good zSrc zOut base m := by
  induction fuel generalizing i hash with
  | zero => omega
  | succ fuel ih =>
    obtain ⟨m, hm, hgood⟩ := tryBlocks_spec h ht (show base + i ≤ zOut.length by omega) 250
      (t.landmark.getD (hash32bit hash % (zSrc.length / NHASH)) none) ⟨0, 0, 0⟩
      fun n hn => ht n (Or.inl (mem_getD hn))
    rw [findMatch, hm]
    simp only [Option.bind_eq_bind, Option.bind_some]
    split_ifs with hpos hend
    · refine ⟨some m, rfl, fun m' hm' => ?_⟩
      obtain rfl := Option.some.inj hm'
      refine hgood.resolve_left ?_
      rintro rfl
      exact absurd hpos (by decide)
    · exact ⟨none, rfl, fun m' hm' => absurd hm' (by simp)⟩
    · exact ih (i + 1) _ (by omega) (by omega)

/-! ### The scan -/

theorem length_putInsert (text : Bytes) :
    (putInsert text).length = (putInt text.length).length + 1 + text.length := by
  rw [putInsert, List.length_append, List.length_cons]
  omega

theorem length_putCopy (cnt ofst : ℕ) :
    (putCopy cnt ofst).length = (putInt cnt).length + (putInt ofst).length + 2 := by
  rw [putCopy]
  simp only [List.length_append, List.length_cons, List.length_nil]
  omega

/-- The commands for a match: the text before it, and the copy. -/
def matchEdits (zOut : Bytes) (base : ℕ) (m : Match) : List (Edit UInt8) :=
  (if m.litsz > 0 then [.insert ((zOut.drop base).take m.litsz)] else []) ++ [.copy m.ofst m.cnt]

theorem encode_matchEdits (base : ℕ) (m : Match) :
    encode (matchEdits zOut base m) =
      (if m.litsz > 0 then putInsert ((zOut.drop base).take m.litsz) else []) ++
        putCopy m.cnt m.ofst := by
  unfold matchEdits
  split_ifs
  · rw [encode_append, encode_cons, encode_nil, encode_cons, encode_nil, List.append_nil,
      List.append_nil]
    rfl
  · rw [List.nil_append, encode_cons, encode_nil, List.append_nil, List.nil_append]
    rfl

/-- A good match does not make the delta longer. -/
theorem Good.length_encode_le {base : ℕ} {m : Match} (h : Good zSrc zOut base m) :
    (encode (matchEdits zOut base m)).length ≤ m.litsz + m.cnt := by
  have htarget := h.agree.target
  have hcheap := h.cheap
  rw [encode_matchEdits, List.length_append, length_putCopy]
  split_ifs with hlit
  · have hlen : ((zOut.drop base).take m.litsz).length = m.litsz := by
      rw [List.length_take, List.length_drop]
      omega
    rw [length_putInsert, hlen]
    omega
  · rw [List.length_nil]
    omega

/-- The commands for a good match in front of a script for the rest. -/
theorem Good.patch {base : ℕ} {m : Match} (h : Good zSrc zOut base m) {es : List (Edit UInt8)}
    (hes : patch zSrc es = some (zOut.drop (base + m.litsz + m.cnt))) :
    patch zSrc (matchEdits zOut base m ++ es) = some (zOut.drop base) := by
  have hcopy := patch_copy_drop h.agree hes
  unfold matchEdits
  split_ifs with hlit
  · exact patch_insert_drop hcopy
  · have hzero : m.litsz = 0 := by omega
    rw [hzero, Nat.add_zero] at hcopy
    exact hcopy

/-- All that is left is inserted. -/
theorem encode_insert_rest (text : Bytes) : encode [.insert text] = putInsert text := by
  rw [encode_cons, encode_nil, List.append_nil]
  rfl

theorem length_putInsert_le {text : Bytes} (h : text.length < 2 ^ 32) :
    (putInsert text).length ≤ text.length + 7 := by
  have hsize := length_putInt_le h
  rw [length_putInsert]
  omega

variable (signed) in
/-- **The scan covers the target**: it returns the text of a script for what is left, which is at
most seven bytes longer than that. -/
theorem putSegments_spec (h : Small zSrc zOut) {t : Landmarks} (ht : Within zSrc t) (fuel : ℕ)
    (base : ℕ) (hbase : base ≤ zOut.length) (hfuel : zOut.length < base + fuel) :
    ∃ es, putSegments signed zSrc zOut t fuel base = some (encode es) ∧
      patch zSrc es = some (zOut.drop base) ∧ (encode es).length ≤ zOut.length - base + 7 := by
  have htarget := h.target
  have hrest : (putInsert (zOut.drop base)).length ≤ zOut.length - base + 7 := by
    rw [← List.length_drop]
    exact length_putInsert_le (by rw [List.length_drop]; omega)
  induction fuel generalizing base with
  | zero => omega
  | succ fuel ih =>
    rw [putSegments]
    split_ifs with hwindow hmore
    · obtain ⟨o, ho, hgood⟩ := findMatch_spec signed h ht zOut.length 0
        (hashInit signed (zOut.drop base)) (show base + 0 + NHASH ≤ zOut.length by omega)
        (by simp only [NHASH]; omega)
      rw [ho]
      cases o with
      | none => exact ⟨[.insert (zOut.drop base)], by rw [encode_insert_rest]; rfl,
          patch_insert_rest base, by rwa [encode_insert_rest]⟩
      | some m =>
        have hm := hgood m rfl
        have hcover := hm.agree.target
        have hcheap := hm.cheap
        obtain ⟨es, hes, hpatch, hlen⟩ := ih (base + m.litsz + m.cnt) hcover (by omega)
          (by
            rw [← List.length_drop]
            exact length_putInsert_le (by rw [List.length_drop]; omega))
        have hcmds := hm.length_encode_le
        refine ⟨matchEdits zOut base m ++ es, ?_, hm.patch hpatch, ?_⟩
        · simp only [Option.bind_eq_bind, Option.bind_some, hes, encode_append, encode_matchEdits]
          rfl
        · rw [encode_append, List.length_append]
          omega
    · exact ⟨[.insert (zOut.drop base)], by rw [encode_insert_rest]; rfl,
        patch_insert_rest base, by rwa [encode_insert_rest]⟩
    · refine ⟨[], rfl, ?_, Nat.zero_le _⟩
      rw [patch_nil, List.drop_eq_nil_of_le (by omega)]

/-! ### The delta -/

variable (signed) in
/-- **The encoder returns the text of a delta for the target.** Its commands have at most seven
bytes more than the target. -/
theorem deltaCreate_spec (h : Small zSrc zOut) :
    ∃ es, deltaCreate signed zSrc zOut = some (delta zOut.length es (checksum zOut).toNat) ∧
      patch zSrc es = some zOut ∧ (encode es).length ≤ zOut.length + 7 := by
  have htarget := h.target
  unfold deltaCreate
  split_ifs with hshort
  · refine ⟨[.insert zOut], ?_, patch_insert_all zOut, ?_⟩
    · rw [delta, encode_insert_rest]
      rfl
    · rw [encode_insert_rest]
      exact length_putInsert_le (by omega)
  · obtain ⟨es, hes, hpatch, hlen⟩ := putSegments_spec signed h within_landmarks
      (zOut.length + 1) 0 (Nat.zero_le _) (by omega)
    refine ⟨es, ?_, hpatch, hlen⟩
    rw [hes]
    rfl

theorem length_delta_le {n : ℕ} (hn : n < 2 ^ 32) (es : List (Edit UInt8)) (sum : UInt32) :
    (delta n es sum.toNat).length ≤ (encode es).length + 14 := by
  have hsize := length_putInt_le hn
  have hsum := length_putInt_le sum.toNat_lt
  simp only [delta, List.length_append, List.length_cons, List.length_nil]
  omega

variable (signed) in
/-- **What the encoder returns**, and what the decoder makes of it. -/
theorem deltaCreateFunc_spec (hsrc : zSrc.length < 2 ^ 30) (hout : zOut.length < 2 ^ 30) :
    ∃ zDelta, deltaCreateFunc signed zSrc zOut = some zDelta ∧
      zDelta.length ≤ zOut.length + 21 ∧ ∀ behind,
        deltaApplyFunc zSrc zDelta behind = .done zOut ∧
          deltaOutputSize (sqlite3ValueBlob zDelta behind) zDelta.length =
            some (zOut.length : ℤ) := by
  obtain ⟨es, hes, hpatch, hlen⟩ := deltaCreate_spec signed ⟨hsrc, hout⟩
  have hdelta := length_delta_le (show zOut.length < 2 ^ 32 by omega) es (checksum zOut)
  refine ⟨_, hes, by omega, fun behind => ⟨?_, ?_⟩⟩
  · exact deltaApplyFunc_delta (by omega) (checksum zOut).toNat_lt hpatch
      (hout.trans (by decide)) (by omega) behind
  · rw [sqlite3ValueBlob_delta]
    exact deltaOutputSize_delta (by omega) es _ behind

variable (signed) in
/-- **A delta carries the source into the target**: `deltaCreate` returns on all blobs below
`2 ^ 30` bytes, `deltaApply` gives the target back, and the size of the target can be read from
the delta, whatever stands behind it in memory. -/
theorem deltaApply_deltaCreate (hsrc : zSrc.length < 2 ^ 30) (hout : zOut.length < 2 ^ 30) :
    ∃ zDelta, deltaCreateFunc signed zSrc zOut = some zDelta ∧ ∀ behind,
      deltaApplyFunc zSrc zDelta behind = .done zOut ∧
        deltaOutputSize (sqlite3ValueBlob zDelta behind) zDelta.length =
          some (zOut.length : ℤ) := by
  obtain ⟨zDelta, hcreate, -, happly⟩ := deltaCreateFunc_spec signed hsrc hout
  exact ⟨zDelta, hcreate, happly⟩

/-- A source of 34 letters, where all but the first comes back after two new ones. -/
theorem deltaApply_deltaCreate_sample :
    let zSrc : Bytes := (List.range 34).map fun n => UInt8.ofNat (65 + n)
    let zOut : Bytes := 120 :: 121 :: zSrc.tail
    ∃ zDelta, deltaCreateFunc true zSrc zOut = some zDelta ∧ ∀ behind,
      deltaApplyFunc zSrc zDelta behind = .done zOut ∧
        deltaOutputSize (sqlite3ValueBlob zDelta behind) zDelta.length =
          some (zOut.length : ℤ) :=
  deltaApply_deltaCreate true (by decide) (by decide)

/-- **The buffer of `deltaCreate` is large enough**: the delta and its terminator have at most 60
bytes more than the target. -/
theorem length_deltaCreate_le (hsrc : zSrc.length < 2 ^ 30) (hout : zOut.length < 2 ^ 30)
    {zDelta : Bytes} (h : deltaCreateFunc signed zSrc zOut = some zDelta) :
    zDelta.length + 1 ≤ zOut.length + 60 := by
  obtain ⟨d, hd, hlen, -⟩ := deltaCreateFunc_spec signed hsrc hout
  obtain rfl := Option.some.inj (hd.symm.trans h)
  omega

/-- Two letters and a copy of 33: after the line with the size, the delta is `2:xyX@1,B4zI8;`. -/
theorem length_deltaCreate_le_sample :
    ([90, 10, 50, 58, 120, 121, 88, 64, 49, 44, 66, 52, 122, 73, 56, 59] : Bytes).length + 1 ≤
      35 + 60 :=
  length_deltaCreate_le
    (by decide : ((List.range 34).map fun n => UInt8.ofNat (65 + n)).length < 2 ^ 30)
    (by decide : (120 :: 121 :: (List.range 33).map fun n => UInt8.ofNat (66 + n)).length < 2 ^ 30)
    (by decide +kernel : deltaCreateFunc true _ _ = _)

end TemporalFs.Fossil
