import Mathlib

/-!
# Strings stored in blocks

A string is stored in blocks of a fixed length, numbered from 1. A block may be missing or shorter
than that, and what is not stored is zero. Positions are read through `byteAt`, and the operations
on the string are described by what they do to each position.

## Main definitions

* `byteAt`: the element at a position.
* `padTo`: the first elements of a list, filled up with zeros.
* `overlay`: a string with another one written over it.
* `window`, `stretch`: the elements of a string from a position on.

## Main results

* `getD_overlay`, `getD_padTo`: the elements after writing and after a change of length.
* `byteAt_update`: the elements after a block was stored.
* `stretch_add`: reading a range in two parts.
-/

variable {α : Type} [Zero α]

/-- The first `n` elements, filled up with zeros. -/
def padTo (n : ℕ) (l : List α) : List α := l.take n ++ List.replicate (n - l.length) 0

@[simp] theorem length_padTo (n : ℕ) (l : List α) : (padTo n l).length = n := by
  simp [padTo]
  omega

theorem getD_padTo (n : ℕ) (l : List α) (q : ℕ) :
    (padTo n l).getD q 0 = if q < n then l.getD q 0 else 0 := by
  unfold padTo
  simp only [List.getD_eq_getElem?_getD, List.getElem?_append, List.length_take,
    List.getElem?_take, List.getElem?_replicate]
  by_cases hq : q < n
  · by_cases hl : q < l.length
    · simp [hq, hl]
    · simp [hq, hl]
      split_ifs <;> rfl
  · rw [if_neg hq]
    split_ifs <;> first | omega | rfl

/-- The string `content` with `data` written over it from `off` on. -/
def overlay (content : List α) (off : ℕ) (data : List α) : List α :=
  padTo off content ++ (data ++ content.drop (off + data.length))

theorem length_overlay (content : List α) (off : ℕ) (data : List α) :
    (overlay content off data).length = max content.length (off + data.length) := by
  simp [overlay]
  omega

theorem getD_overlay (content : List α) (off : ℕ) (data : List α) (p : ℕ) :
    (overlay content off data).getD p 0 =
      if off ≤ p ∧ p < off + data.length then data.getD (p - off) 0 else content.getD p 0 := by
  unfold overlay
  by_cases hoff : p < off
  · rw [List.getD_append _ _ _ _ (by simpa using hoff), getD_padTo, if_pos hoff,
      if_neg fun h => by omega]
  · rw [List.getD_append_right _ _ _ _ (by simpa using hoff), length_padTo]
    by_cases hlt : p < off + data.length
    · rw [List.getD_append _ _ _ _ (by omega), if_pos ⟨by omega, hlt⟩]
    · rw [List.getD_append_right _ _ _ _ (by omega), if_neg fun h => hlt h.2]
      simp only [List.getD_eq_getElem?_getD, List.getElem?_drop]
      congr 2
      omega

/-- The `n` elements from `off` on. -/
def window (content : List α) (off n : ℕ) : List α :=
  (List.range n).map fun k => content.getD (off + k) 0

@[simp] theorem length_window (content : List α) (off n : ℕ) :
    (window content off n).length = n := by
  rw [window, List.length_map, List.length_range]

section Stretches

variable {β : Type}

/-- The `n` elements of a string without end from `off` on. -/
def stretch (f : ℕ → β) (off n : ℕ) : List β := (List.range n).map fun k => f (off + k)

@[simp] theorem stretch_zero (f : ℕ → β) (off : ℕ) : stretch f off 0 = [] := rfl

@[simp] theorem length_stretch (f : ℕ → β) (off n : ℕ) : (stretch f off n).length = n := by
  rw [stretch, List.length_map, List.length_range]

theorem stretch_add (f : ℕ → β) (off m n : ℕ) :
    stretch f off (m + n) = stretch f off m ++ stretch f (off + m) n := by
  unfold stretch
  rw [List.range_add, List.map_append, List.map_map]
  refine congrArg _ (List.map_congr_left fun k _ => ?_)
  rw [Function.comp_apply, Nat.add_assoc]

theorem stretch_congr {f g : ℕ → β} {off off' n : ℕ} (h : ∀ k < n, f (off + k) = g (off' + k)) :
    stretch f off n = stretch g off' n :=
  List.map_congr_left fun k hk => h k (List.mem_range.1 hk)

end Stretches

theorem drop_take_eq_stretch {l : List α} {lo hi : ℕ} (hhi : hi ≤ l.length) :
    (l.take hi).drop lo = stretch (fun q => l.getD q 0) lo (hi - lo) := by
  refine List.ext_getElem ?_ fun k hk _ => ?_
  · rw [List.length_drop, List.length_take, min_eq_left hhi, length_stretch]
  · rw [List.length_drop, List.length_take] at hk
    have hin : lo + k < l.length := by omega
    simp only [stretch, List.getElem_drop, List.getElem_take, List.getElem_map,
      List.getElem_range, List.getD_eq_getElem?_getD, List.getElem?_eq_getElem hin,
      Option.getD_some]

section Blocks

variable {B : ℕ} (hB : 0 < B) (blocks : ℕ → Option (List α))

/-- The element at the position `p`. -/
def byteAt (B : ℕ) (blocks : ℕ → Option (List α)) (p : ℕ) : α :=
  ((blocks (p / B + 1)).getD []).getD (p % B) 0

theorem byteAt_update {blocks' : ℕ → Option (List α)} {k : ℕ} {bytes : List α}
    (h : ∀ b, blocks' b = if b = k then some bytes else blocks b) (p : ℕ) :
    byteAt B blocks' p =
      if p / B + 1 = k then bytes.getD (p % B) 0 else byteAt B blocks p := by
  unfold byteAt
  rw [h]
  split_ifs <;> rfl

/-- A block with its elements from `lo` to `hi` replaced. -/
theorem getD_splice {l data : List α} {lo hi n q : ℕ} (hlo : lo ≤ hi) (hhi : hi ≤ n)
    (hl : n ≤ l.length) (hdata : data.length = hi - lo) (hq : q < n) :
    (l.take lo ++ data ++ (l.take n).drop hi).getD q 0 =
      if lo ≤ q ∧ q < hi then data.getD (q - lo) 0 else l.getD q 0 := by
  have hlen : (l.take lo ++ data).length = hi := by simp; omega
  by_cases hqhi : q < hi
  · rw [List.getD_append _ _ _ _ (by omega)]
    by_cases hqlo : q < lo
    · rw [List.getD_append _ _ _ _ (by simp; omega), if_neg fun h => by omega]
      simp [List.getD_eq_getElem?_getD, hqlo]
    · rw [List.getD_append_right _ _ _ _ (by simp; omega), if_pos ⟨by omega, hqhi⟩]
      congr 1
      simp
      omega
  · rw [List.getD_append_right _ _ _ _ (by omega), if_neg fun h => hqhi h.2, hlen]
    simp only [List.getD_eq_getElem?_getD, List.getElem?_drop, List.getElem?_take]
    rw [show hi + (q - hi) = q by omega, if_pos hq]

end Blocks
