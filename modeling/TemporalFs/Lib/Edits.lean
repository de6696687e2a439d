import Mathlib

/-!
# Edit scripts

A target is described by commands that copy a piece of a source or insert new text. A script covers
the target from a position on if its commands produce what is there. An encoder that only records
agreeing pieces of source and target always produces such a script.

## Main definitions

* `Edit`, `Edit.output`: a command, and what it produces from a source.
* `patch`: what a script produces.
* `Agree`: a piece of the source that is found in the target.

## Main results

* `patch_copy_drop`, `patch_insert_drop`: a command in front of a script for the rest.
* `Agree.add`: two adjacent pieces are one.
-/

/-- A command of a script. -/
inductive Edit (α : Type) where
  | copy (ofst cnt : ℕ)
  | insert (text : List α)
  deriving DecidableEq

variable {α : Type}

/-- What a command produces; a copy must lie within the source. -/
def Edit.output (src : List α) : Edit α → Option (List α)
  | .copy ofst cnt => if ofst + cnt ≤ src.length then some ((src.drop ofst).take cnt) else none
  | .insert text => some text

/-- The number of elements that a command produces. -/
def Edit.size : Edit α → ℕ
  | .copy _ cnt => cnt
  | .insert text => text.length

/-- What a script produces. -/
def patch (src : List α) : List (Edit α) → Option (List α)
  | [] => some []
  | e :: es => (e.output src).bind fun x => (patch src es).map (x ++ ·)

variable {src out : List α}

@[simp] theorem patch_nil : patch src [] = some [] := rfl

theorem patch_cons (e : Edit α) (es : List (Edit α)) :
    patch src (e :: es) = (e.output src).bind fun x => (patch src es).map (x ++ ·) := rfl

theorem Edit.length_output {e : Edit α} {x : List α} (h : e.output src = some x) :
    x.length = e.size := by
  cases e with
  | copy ofst cnt =>
    rw [Edit.output] at h
    split_ifs at h with hle
    obtain rfl := Option.some.inj h
    rw [List.length_take, List.length_drop, Edit.size]
    omega
  | insert text => exact Option.some.inj h ▸ rfl

theorem patch_eq_some_cons {e : Edit α} {es : List (Edit α)} {x : List α} :
    patch src (e :: es) = some x ↔
      ∃ y z, e.output src = some y ∧ patch src es = some z ∧ y ++ z = x := by
  simp only [patch_cons, Option.bind_eq_some_iff, Option.map_eq_some_iff]
  exact exists_congr fun y => ⟨fun ⟨hy, z, hz, hx⟩ => ⟨z, hy, hz, hx⟩,
    fun ⟨z, hy, hz, hx⟩ => ⟨hy, z, hz, hx⟩⟩

/-! ### Pieces of the source in the target -/

/-- The `cnt` elements of `src` from `ofst` on are those of `out` from `pos` on. -/
structure Agree (src out : List α) (ofst pos cnt : ℕ) : Prop where
  source : ofst + cnt ≤ src.length
  target : pos + cnt ≤ out.length
  eq : ∀ q < cnt, src[ofst + q]? = out[pos + q]?

namespace Agree

variable {ofst pos cnt : ℕ}

theorem zero (hs : ofst ≤ src.length) (ht : pos ≤ out.length) : Agree src out ofst pos 0 :=
  ⟨hs, ht, fun q hq => absurd hq (Nat.not_lt_zero q)⟩

/-- Two adjacent pieces are one. -/
theorem add {m : ℕ} (h : Agree src out ofst pos cnt)
    (h' : Agree src out (ofst + cnt) (pos + cnt) m) : Agree src out ofst pos (cnt + m) := by
  refine ⟨by have := h'.source; omega, by have := h'.target; omega, fun q hq => ?_⟩
  by_cases hlt : q < cnt
  · exact h.eq q hlt
  · have heq := h'.eq (q - cnt) (by omega)
    rwa [show ofst + cnt + (q - cnt) = ofst + q by omega,
      show pos + cnt + (q - cnt) = pos + q by omega] at heq

theorem one (hs : ofst < src.length) (ht : pos < out.length) (heq : src[ofst]? = out[pos]?) :
    Agree src out ofst pos 1 := by
  refine ⟨hs, ht, fun q hq => ?_⟩
  obtain rfl : q = 0 := by omega
  exact heq

theorem take_drop (h : Agree src out ofst pos cnt) :
    (src.drop ofst).take cnt = (out.drop pos).take cnt := by
  ext q x
  simp only [List.getElem?_take, List.getElem?_drop]
  by_cases hq : q < cnt
  · rw [if_pos hq, if_pos hq, h.eq q hq]
  · rw [if_neg hq, if_neg hq]

end Agree

/-- A copy of an agreeing piece in front of a script for the rest. -/
theorem patch_copy_drop {ofst pos cnt : ℕ} {es : List (Edit α)} (h : Agree src out ofst pos cnt)
    (hes : patch src es = some (out.drop (pos + cnt))) :
    patch src (.copy ofst cnt :: es) = some (out.drop pos) := by
  refine patch_eq_some_cons.2 ⟨_, _, if_pos h.source, hes, ?_⟩
  rw [h.take_drop, ← List.drop_drop, List.take_append_drop]

/-- An insertion in front of a script for the rest. -/
theorem patch_insert_drop {pos n : ℕ} {es : List (Edit α)}
    (hes : patch src es = some (out.drop (pos + n))) :
    patch src (.insert ((out.drop pos).take n) :: es) = some (out.drop pos) := by
  refine patch_eq_some_cons.2 ⟨_, _, rfl, hes, ?_⟩
  rw [← List.drop_drop, List.take_append_drop]

/-- One insertion of all that is left. -/
theorem patch_insert_rest (pos : ℕ) :
    patch src [.insert (out.drop pos)] = some (out.drop pos) :=
  patch_eq_some_cons.2 ⟨_, _, rfl, rfl, List.append_nil _⟩

/-- One insertion of everything. -/
theorem patch_insert_all (out : List α) : patch src [.insert out] = some out :=
  patch_insert_rest 0
