import Mathlib

/-!
# Numerals in a stream

A number is written with the digits of some alphabet, the most significant one first, and read back
digit by digit until something comes that is not a digit. The reader may compute modulo a number, as
machine integers do.

The alphabet need not be in order, nor need the reader and the writer be of the same program. A
stream may hold anything behind the numeral, as long as it does not begin with a digit. Where the
reader wraps, the number read is the remainder; where it does not, it is the number that was
written.

## Main definitions

* `Digits`: an alphabet of digits for a base.
* `Digits.write`: the numeral of a number.
* `Digits.read`: the number at the start of a stream, and the rest of the stream.

## Main results

* `Digits.read_write`: what was written is read back.
* `Digits.length_write_le_iff`: the length of a numeral.
-/

/-- Digits of the base `b`, told apart from everything else by `value`. -/
structure Digits (α : Type) (b : ℕ) where
  char : ℕ → α
  value : α → Option ℕ
  value_char : ∀ d < b, value (char d) = some d

namespace Digits

variable {α : Type} {b : ℕ} (A : Digits α b)

/-- The numeral of `v`; zero has one digit. -/
def write (v : ℕ) : List α :=
  if v = 0 then [A.char 0] else ((b.digits v).map A.char).reverse

/-- The digits at the start of a stream continue the number `v`, modulo `m`. -/
def readFrom (m : ℕ) : ℕ → List α → ℕ × List α
  | v, [] => (v, [])
  | v, c :: l =>
    match A.value c with
    | some d => readFrom m ((v * b + d) % m) l
    | none => (v, c :: l)

/-- The number at the start of a stream, modulo `m`, and what comes after it. -/
def read (m : ℕ) (l : List α) : ℕ × List α := A.readFrom m 0 l

/-- No digit comes next. -/
def Stops (l : List α) : Prop := ∀ c, l.head? = some c → A.value c = none

theorem readFrom_of_stops {l : List α} (h : A.Stops l) (m v : ℕ) : A.readFrom m v l = (v, l) := by
  cases l with
  | nil => rfl
  | cons c l => rw [readFrom, h c rfl]

theorem readFrom_chars {ds : List ℕ} (hds : ∀ d ∈ ds, d < b) (m v : ℕ) (l : List α) :
    A.readFrom m v (ds.map A.char ++ l) =
      A.readFrom m (ds.foldl (fun v d => (v * b + d) % m) v) l := by
  induction ds generalizing v with
  | nil => rfl
  | cons d ds ih =>
    rw [List.map_cons, List.cons_append, readFrom, A.value_char d (hds d List.mem_cons_self)]
    exact ih (fun d' hd' => hds d' (List.mem_cons_of_mem _ hd')) _

theorem foldl_reverse_eq_ofDigits (ds : List ℕ) :
    ds.reverse.foldl (fun v d => v * b + d) 0 = Nat.ofDigits b ds := by
  induction ds with
  | nil => rfl
  | cons d ds ih =>
    rw [List.reverse_cons, List.foldl_append, ih, Nat.ofDigits_cons]
    simp only [List.foldl_cons, List.foldl_nil]
    ring

theorem foldl_mod (m : ℕ) (ds : List ℕ) (v : ℕ) :
    ds.foldl (fun v d => (v * b + d) % m) v % m = ds.foldl (fun v d => v * b + d) v % m := by
  induction ds using List.reverseRecOn with
  | nil => rfl
  | append_singleton ds d ih =>
    simp only [List.foldl_append, List.foldl_cons, List.foldl_nil, Nat.mod_mod]
    rw [Nat.add_mod, Nat.mul_mod, ih, ← Nat.mul_mod, ← Nat.add_mod]

/-- A fold that starts below `m` stays below. -/
theorem foldl_mod_lt {m : ℕ} (ds : List ℕ) {v : ℕ} (hv : v < m) :
    ds.foldl (fun v d => (v * b + d) % m) v < m := by
  induction ds generalizing v with
  | nil => exact hv
  | cons d ds ih => exact ih (Nat.mod_lt _ (Nat.zero_lt_of_lt hv))

/-- **What was written is read back.** -/
theorem read_write (hb : 1 < b) {m v : ℕ} (hv : v < m) {l : List α} (hl : A.Stops l) :
    A.read m (A.write v ++ l) = (v, l) := by
  rcases Nat.eq_zero_or_pos v with rfl | hpos
  · rw [read, write, if_pos rfl, List.singleton_append, readFrom,
      A.value_char 0 (Nat.zero_lt_of_lt hb)]
    simp only [Nat.zero_mul, Nat.add_zero, Nat.zero_mod]
    exact A.readFrom_of_stops hl m 0
  · have hlt : ∀ d ∈ (b.digits v).reverse, d < b := fun d hd =>
      Nat.digits_lt_base hb (List.mem_reverse.1 hd)
    rw [read, write, if_neg hpos.ne', ← List.map_reverse, A.readFrom_chars hlt,
      A.readFrom_of_stops hl]
    have hmod := foldl_mod (b := b) m (b.digits v).reverse 0
    rw [foldl_reverse_eq_ofDigits, Nat.ofDigits_digits, Nat.mod_eq_of_lt hv,
      Nat.mod_eq_of_lt (foldl_mod_lt _ (Nat.zero_lt_of_lt hv))] at hmod
    rw [hmod]

theorem length_write (v : ℕ) : (A.write v).length = max 1 (b.digits v).length := by
  rcases Nat.eq_zero_or_pos v with rfl | hpos
  · simp [write]
  · rw [write, if_neg hpos.ne', List.length_reverse, List.length_map, eq_comm, max_eq_right_iff]
    exact List.length_pos_iff.2 (Nat.digits_ne_nil_iff_ne_zero.2 hpos.ne')

/-- The numerals of at most `k` digits are those of the numbers below `b ^ k`. -/
theorem length_write_le_iff (hb : 1 < b) {k : ℕ} (hk : 0 < k) (v : ℕ) :
    (A.write v).length ≤ k ↔ v < b ^ k := by
  rw [length_write, max_le_iff, Nat.digits_length_le_iff hb]
  exact and_iff_right hk

theorem write_ne_nil (v : ℕ) : A.write v ≠ [] := by
  intro h
  have hlen := A.length_write v
  rw [h, List.length_nil] at hlen
  omega

/-- A numeral starts with a digit. -/
theorem head_write (hb : 1 < b) (v : ℕ) :
    ∃ d < b, ∃ l, A.write v = A.char d :: l := by
  rcases Nat.eq_zero_or_pos v with rfl | hpos
  · exact ⟨0, Nat.zero_lt_of_lt hb, [], rfl⟩
  · obtain ⟨c, l, hl⟩ := List.exists_cons_of_ne_nil (A.write_ne_nil v)
    have hmem : c ∈ A.write v := hl ▸ List.mem_cons_self
    rw [write, if_neg hpos.ne', List.mem_reverse] at hmem
    obtain ⟨d, hd, rfl⟩ := List.mem_map.1 hmem
    exact ⟨d, Nat.digits_lt_base hb hd, l, hl⟩

/-- The reader takes nothing from a stream but digits. -/
theorem readFrom_suffix (m v : ℕ) (l : List α) : (A.readFrom m v l).2 <:+ l := by
  induction l generalizing v with
  | nil => exact List.suffix_rfl
  | cons c l ih =>
    rw [readFrom]
    cases A.value c with
    | none => exact List.suffix_rfl
    | some d => exact (ih _).trans (List.suffix_cons c l)

/-- A character that is no digit ends the number, whatever follows it. -/
theorem readFrom_append_cons {c : α} (hc : A.value c = none) (m v : ℕ) (l rest : List α) :
    A.readFrom m v (l ++ c :: rest) =
      ((A.readFrom m v l).1, (A.readFrom m v l).2 ++ c :: rest) := by
  induction l generalizing v with
  | nil =>
    change A.readFrom m v (c :: rest) = (v, c :: rest)
    rw [readFrom, hc]
  | cons d l ih =>
    rw [List.cons_append, readFrom, readFrom]
    cases A.value d with
    | none => rfl
    | some n => exact ih _

theorem readFrom_lt {m v : ℕ} (hv : v < m) (l : List α) : (A.readFrom m v l).1 < m := by
  induction l generalizing v with
  | nil => exact hv
  | cons c l ih =>
    rw [readFrom]
    cases A.value c with
    | none => exact hv
    | some d => exact ih (Nat.mod_lt _ (Nat.zero_lt_of_lt hv))

end Digits
