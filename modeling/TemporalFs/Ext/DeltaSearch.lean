import Mathlib
import TemporalFs.Ext.Fossildelta
import TemporalFs.Lib.RollingHash

/-!
# The search of the encoder

The encoder looks for blocks of the source that have the hash of the window, at each position of the
window. It keeps the hash while the window moves, and finds the blocks in a hash table. This is the
same as to compute the hash of each window anew and to go through all blocks of the source.

## Main definitions

* `Hash.Tracks`: the state of the hash for a window.
* `sameHash`, `plainSearch`: the search without the table and without the state.

## Main results

* `Hash.Tracks.hashNext`: the state follows the window.
* `chainTable_landmarks`: the table holds the blocks of the source.
* `findMatch_eq_plainSearch`: the two searches agree.
-/

namespace TemporalFs.Fossil

open scoped UInt16.CommRing

variable {signed : Bool} {zSrc zOut : Bytes}

/-! ### The rolling hash -/

/-- The characters of a window. -/
def charValues (signed : Bool) (w : Bytes) : List UInt16 := w.map (charValue signed)

/-- The sums of a window in one pass. -/
theorem hashSums_eq {z : Bytes} (hz : NHASH ≤ z.length) : hashSums signed z =
    ((charValues signed (z.take NHASH)).sum, weightedSum (charValues signed (z.take NHASH))) := by
  cases z with
  | nil => exact absurd hz (by decide)
  | cons c z =>
    have hfold := foldl_sums [charValue signed c] (charValues signed (z.take 15))
    rw [charValues, List.foldl_map] at hfold
    have hsum : [charValue signed c].sum = charValue signed c := List.sum_singleton
    have hweighted : weightedSum [charValue signed c] = charValue signed c := by
      rw [weightedSum_cons, weightedSum_nil, List.length_nil, Nat.zero_add, Nat.cast_one, one_mul,
        add_zero]
    rw [hsum, hweighted] at hfold
    exact hfold

namespace Hash

/-- The buffer holds the window from `i` on, and the sums are those of the window. -/
structure Tracks (signed : Bool) (h : Hash) (w : Bytes) : Prop where
  length : w.length = NHASH
  start : h.i < NHASH
  window : h.z.rotate h.i = w
  a : h.a = (charValues signed w).sum
  b : h.b = weightedSum (charValues signed w)

theorem tracks_hashInit {z : Bytes} (hz : NHASH ≤ z.length) :
    (hashInit signed z).Tracks signed (z.take NHASH) := by
  refine ⟨?_, Nat.zero_lt_succ _, List.rotate_zero _, ?_, ?_⟩
  · rw [List.length_take]
    omega
  · exact congrArg Prod.fst (hashSums_eq hz)
  · exact congrArg Prod.snd (hashSums_eq hz)

/-- The oldest character of a circular buffer is replaced. -/
theorem rotate_set {z l : Bytes} {i : ℕ} {x : UInt8} (hi : i < z.length)
    (h : z.rotate i = x :: l) (c : UInt8) : z.getD i 0 = x ∧
      (z.set i c).rotate ((i + 1) % z.length) = l ++ [c] := by
  obtain ⟨p, y, q, rfl, rfl⟩ : ∃ p y q, z = p ++ y :: q ∧ p.length = i :=
    ⟨z.take i, z[i], z.drop (i + 1), by rw [List.getElem_cons_drop, List.take_append_drop],
      List.length_take_of_le hi.le⟩
  rw [List.rotate_append_length_eq, List.cons_append, List.cons.injEq] at h
  obtain ⟨rfl, rfl⟩ := h
  refine ⟨by simp, ?_⟩
  have hset : (p ++ y :: q).set p.length c = p ++ [c] ++ q := by simp
  have hlen : (p ++ y :: q).length = (p ++ [c] ++ q).length := by simp
  have hrotate := List.rotate_append_length_eq (p ++ [c]) q
  rw [List.length_append, List.length_singleton] at hrotate
  rw [hset, hlen, List.rotate_mod, hrotate, List.append_assoc]

/-- **The hash follows the window.** -/
theorem Tracks.hashNext {h : Hash} {x : UInt8} {l : Bytes} (ht : h.Tracks signed (x :: l))
    (c : UInt8) : (Fossil.hashNext signed h c).Tracks signed (l ++ [c]) := by
  have hl : l.length + 1 = NHASH := ht.length
  have hz : h.z.length = NHASH := by
    rw [← List.length_rotate h.z h.i, ht.window, ht.length]
  obtain ⟨hold, hwindow⟩ := rotate_set (hz ▸ ht.start) ht.window c
  have hvalues : charValues signed (l ++ [c]) = charValues signed l ++ [charValue signed c] :=
    List.map_append
  have ha : (Fossil.hashNext signed h c).a = (charValues signed (l ++ [c])).sum := by
    rw [hvalues, sum_slide (charValue signed x)]
    change h.a - charValue signed (h.z.getD h.i 0) + charValue signed c = _
    rw [hold, ht.a]
    rfl
  refine ⟨?_, Nat.mod_lt _ (by decide), ?_, ha, ?_⟩
  · rw [List.length_append, List.length_singleton, hl]
  · rw [hz] at hwindow
    exact hwindow
  · have hweight : ((charValues signed l).length + 1 : ℕ) = NHASH :=
      (congrArg (· + 1) (List.length_map _)).trans hl
    change h.b - 16 * charValue signed (h.z.getD h.i 0) + (Fossil.hashNext signed h c).a = _
    rw [ha, hvalues, weightedSum_slide (charValue signed x), hweight, hold, ht.b]
    rfl

/-- Equal windows have equal hashes. -/
theorem Tracks.hash32bit {h : Hash} {z : Bytes} (hz : NHASH ≤ z.length)
    (ht : h.Tracks signed (z.take NHASH)) : Fossil.hash32bit h = hashOnce signed z := by
  rw [Fossil.hash32bit, hashOnce, hashSums_eq hz, ht.a, ht.b]

end Hash

/-! ### The hash table -/

/-- The place of a block in the table. -/
def blockHash (signed : Bool) (zSrc : Bytes) (n : ℕ) : ℕ :=
  hashOnce signed (zSrc.drop (n * NHASH)) % (zSrc.length / NHASH)

/-- The blocks that are entered. -/
def entered (zSrc : Bytes) : List ℕ :=
  (List.range (zSrc.length / NHASH)).takeWhile fun n => n * NHASH < zSrc.length - NHASH

/-- The table holds these blocks, and there is a place for each hash and each block. -/
structure Landmarks.Holds (signed : Bool) (zSrc : Bytes) (t : Landmarks) (blocks : List ℕ) :
    Prop where
  table : ChainTable (blockHash signed zSrc) blocks t.landmark t.collide
  landmark : t.landmark.length = zSrc.length / NHASH
  collide : t.collide.length = zSrc.length / NHASH

theorem Landmarks.Holds.enterBlock {t : Landmarks} {blocks : List ℕ}
    (h : t.Holds signed zSrc blocks) {n : ℕ} (hfresh : n ∉ blocks) (hn : n < zSrc.length / NHASH) :
    (enterBlock signed zSrc t n).Holds signed zSrc (blocks ++ [n]) :=
  ⟨h.table.enter hfresh (h.collide ▸ hn), List.length_set.trans h.landmark,
    List.length_set.trans h.collide⟩

/-- **The table holds the blocks of the source.** -/
theorem chainTable_landmarks : (landmarks signed zSrc).Holds signed zSrc (entered zSrc) := by
  have hfold : ∀ (l blocks : List ℕ) (t : Landmarks), (blocks ++ l).Nodup →
      (∀ n ∈ l, n < zSrc.length / NHASH) → t.Holds signed zSrc blocks →
        (l.foldl (enterBlock signed zSrc) t).Holds signed zSrc (blocks ++ l) := by
    intro l
    induction l with
    | nil =>
      intro blocks t _ _ ht
      rwa [List.append_nil]
    | cons n l ih =>
      intro blocks t hnd hl ht
      have hfresh : n ∉ blocks := fun hmem =>
        (List.nodup_append.1 hnd).2.2 n hmem n List.mem_cons_self rfl
      rw [List.append_cons] at hnd ⊢
      exact ih (blocks ++ [n]) _ hnd (fun m hm => hl m (List.mem_cons_of_mem _ hm))
        (ht.enterBlock hfresh (hl n List.mem_cons_self))
  have hsub := List.takeWhile_sublist (l := List.range (zSrc.length / NHASH))
    fun n => decide (n * NHASH < zSrc.length - NHASH)
  refine hfold (entered zSrc) [] _ (List.nodup_range.sublist hsub)
    (fun n hn => List.mem_range.1 (hsub.subset hn)) ⟨ChainTable.empty _, ?_, ?_⟩ <;>
  exact List.length_replicate

/-! ### The plain search -/

/-- The blocks of the source with a hash, the last one first. -/
def sameHash (signed : Bool) (zSrc : Bytes) (hv : ℕ) : List ℕ :=
  ((entered zSrc).filter fun n => blockHash signed zSrc n = hv).reverse

/-- The blocks of a list are tried one after the other. -/
def tryAll (zSrc zOut : Bytes) (base i : ℕ) (blocks : List ℕ) (best : Match) : Option Match :=
  blocks.foldlM (fun best n => tryBlock zSrc zOut base i n best) best

/-- The search without the table and without the state of the hash. -/
def plainSearch (signed : Bool) (zSrc zOut : Bytes) (base : ℕ) : ℕ → ℕ → Option (Option Match)
  | 0, _ => none
  | fuel + 1, i => do
    let hv := hashOnce signed (zOut.drop (base + i)) % (zSrc.length / NHASH)
    let best ← tryAll zSrc zOut base i ((sameHash signed zSrc hv).take 250) ⟨0, 0, 0⟩
    if best.cnt > 0 then pure (some best)
    else if base + i + NHASH ≥ zOut.length then pure none
    else plainSearch signed zSrc zOut base fuel (i + 1)

theorem tryBlocks_eq {t : Landmarks} (base i limit : ℕ) {iBlock : Option ℕ} {blocks : List ℕ}
    (h : Chained t.collide iBlock blocks) (best : Match) :
    tryBlocks zSrc zOut t base i limit iBlock best =
      tryAll zSrc zOut base i (blocks.take limit) best := by
  induction limit generalizing iBlock blocks best with
  | zero => cases iBlock <;> rfl
  | succ limit ih =>
    cases blocks with
    | nil =>
      obtain rfl := h
      rfl
    | cons n blocks =>
      obtain ⟨rfl, htail⟩ := h
      rw [tryBlocks, List.take_succ_cons, tryAll, List.foldlM_cons]
      exact congrArg _ (funext fun best => ih htail best)

/-- The window moves by one character. -/
theorem take_drop_succ {z : Bytes} {k : ℕ} (h : k + NHASH < z.length) :
    ∃ x l, (z.drop k).take NHASH = x :: l ∧
      (z.drop (k + 1)).take NHASH = l ++ [z.getD (k + NHASH) 0] := by
  refine ⟨z[k], (z.drop (k + 1)).take 15, ?_, ?_⟩
  · rw [List.drop_eq_getElem_cons (by omega)]
    rfl
  · have hlast : (z.drop (k + 1))[15]? = some (z.getD (k + NHASH) 0) := by
      rw [List.getElem?_drop, List.getD_eq_getElem _ _ h]
      exact List.getElem?_eq_getElem _
    rw [show NHASH = 15 + 1 from rfl, List.take_add_one, hlast]
    rfl

theorem findMatch_of_tracks {t : Landmarks} (ht : t.Holds signed zSrc (entered zSrc)) {base : ℕ}
    (hsrc : NHASH ≤ zSrc.length) (fuel i : ℕ) {h : Hash} (hout : base + i + NHASH ≤ zOut.length)
    (hh : h.Tracks signed ((zOut.drop (base + i)).take NHASH)) :
    findMatch signed zSrc zOut t base fuel i h = plainSearch signed zSrc zOut base fuel i := by
  induction fuel generalizing i h with
  | zero => rfl
  | succ fuel ih =>
    have hhash : hash32bit h = hashOnce signed (zOut.drop (base + i)) :=
      hh.hash32bit (by rw [List.length_drop]; omega)
    have hplace : hashOnce signed (zOut.drop (base + i)) % (zSrc.length / NHASH) <
        t.landmark.length := by
      rw [ht.landmark]
      exact Nat.mod_lt _ (Nat.div_pos hsrc (by decide))
    rw [findMatch, plainSearch, hhash, tryBlocks_eq base i 250 (ht.table _ hplace)]
    refine congrArg _ (funext fun best => ?_)
    by_cases hbest : best.cnt > 0
    · rw [if_pos hbest, if_pos hbest]
    · rw [if_neg hbest, if_neg hbest]
      by_cases hend : base + i + NHASH ≥ zOut.length
      · rw [if_pos hend, if_pos hend]
      · rw [if_neg hend, if_neg hend]
        obtain ⟨x, l, hwindow, hwindow'⟩ := take_drop_succ (not_le.1 hend)
        rw [hwindow] at hh
        refine ih (i + 1) (by omega) ?_
        rw [← Nat.add_assoc, hwindow']
        exact hh.hashNext _

/-- **The search with the table and the rolling hash is the plain one**, which compares the hashes
of the window with those of the blocks one by one, for both signs of `char`. -/
theorem findMatch_eq_plainSearch {base : ℕ} (hsrc : NHASH ≤ zSrc.length)
    (hout : base + NHASH ≤ zOut.length) (fuel : ℕ) :
    findMatch signed zSrc zOut (landmarks signed zSrc) base fuel 0
      (hashInit signed (zOut.drop base)) = plainSearch signed zSrc zOut base fuel 0 :=
  findMatch_of_tracks chainTable_landmarks hsrc fuel 0 hout
    (Hash.tracks_hashInit (by rw [List.length_drop]; omega))

/-- The target has one byte before the letters of the source. -/
theorem findMatch_eq_plainSearch_sample :
    findMatch true (List.replicate 20 97) (98 :: List.replicate 20 97)
      (landmarks true (List.replicate 20 97)) 0 9 0
        (hashInit true (98 :: List.replicate 20 97)) =
      plainSearch true (List.replicate 20 97) (98 :: List.replicate 20 97) 0 9 0 :=
  findMatch_eq_plainSearch (by decide) (by decide) 9

end TemporalFs.Fossil
