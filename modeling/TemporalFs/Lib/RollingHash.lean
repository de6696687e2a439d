import Mathlib

/-!
# Rolling hashes and chained tables

A window is hashed to the sum of its entries and to their sum with the weights `n, ..., 2, 1`. Both
can be computed in one pass, and both can be kept while the window moves by one entry.

A hash table of numbers is two arrays: for each hash the number that was entered last, and for each
number the one with the same hash before it.

## Main definitions

* `weightedSum`: the weighted sum of a window.
* `Chained`: the numbers that are reached along an array of links.
* `ChainTable`: the chain of each hash holds the numbers with that hash.

## Main results

* `weightedSum_slide`, `sum_slide`: a window moves.
* `foldl_sums`: both sums in one pass.
* `ChainTable.enter`: a number is entered.
-/

section Sums

variable {R : Type*} [CommRing R]

/-- The sum with the weights `n, ..., 2, 1`. -/
def weightedSum : List R → R
  | [] => 0
  | x :: l => (l.length + 1 : ℕ) * x + weightedSum l

@[simp] theorem weightedSum_nil : weightedSum ([] : List R) = 0 := rfl

@[simp] theorem weightedSum_cons (x : R) (l : List R) :
    weightedSum (x :: l) = (l.length + 1 : ℕ) * x + weightedSum l := rfl

/-- A new entry adds one to all weights. -/
theorem weightedSum_snoc (l : List R) (c : R) :
    weightedSum (l ++ [c]) = weightedSum l + (l.sum + c) := by
  induction l with
  | nil => simp
  | cons x l ih =>
    rw [List.cons_append, weightedSum_cons, weightedSum_cons, ih, List.length_append,
      List.length_singleton, List.sum_cons]
    push_cast
    ring

theorem sum_slide (x c : R) (l : List R) : (l ++ [c]).sum = (x :: l).sum - x + c := by
  rw [List.sum_append, List.sum_singleton, List.sum_cons, add_sub_cancel_left]

/-- The weighted sum of the window that has lost `x` and got `c`. -/
theorem weightedSum_slide (x c : R) (l : List R) : weightedSum (l ++ [c]) =
    weightedSum (x :: l) - (l.length + 1 : ℕ) * x + (l ++ [c]).sum := by
  rw [weightedSum_snoc, weightedSum_cons, add_sub_cancel_left, List.sum_append, List.sum_singleton]

/-- Both sums are computed in one pass. -/
theorem foldl_sums (l₀ l : List R) :
    l.foldl (fun ab c => (ab.1 + c, ab.2 + (ab.1 + c))) (l₀.sum, weightedSum l₀) =
      ((l₀ ++ l).sum, weightedSum (l₀ ++ l)) := by
  induction l generalizing l₀ with
  | nil => rw [List.append_nil, List.foldl_nil]
  | cons c l ih =>
    have hsnoc := ih (l₀ ++ [c])
    rw [List.append_assoc, List.singleton_append, weightedSum_snoc, List.sum_append,
      List.sum_singleton] at hsnoc
    exact hsnoc

end Sums

/-! ### Chains -/

/-- `l` is what is reached from `head` along the links. -/
def Chained (next : List (Option ℕ)) : Option ℕ → List ℕ → Prop
  | head, [] => head = none
  | head, n :: l => head = some n ∧ Chained next (next.getD n none) l

theorem getD_set_self {l : List (Option ℕ)} {n : ℕ} (hn : n < l.length) (o : Option ℕ) :
    (l.set n o).getD n none = o := by
  rw [List.getD_eq_getElem?_getD, List.getElem?_set_self hn, Option.getD_some]

theorem getD_set_ne (l : List (Option ℕ)) {m n : ℕ} (h : n ≠ m) (o : Option ℕ) :
    (l.set n o).getD m none = l.getD m none := by
  rw [List.getD_eq_getElem?_getD, List.getD_eq_getElem?_getD, List.getElem?_set_ne h]

/-- A link that is not on the chain is set. -/
theorem Chained.set {next : List (Option ℕ)} {head : Option ℕ} {l : List ℕ}
    (h : Chained next head l) {n : ℕ} (hn : n ∉ l) (o : Option ℕ) :
    Chained (next.set n o) head l := by
  induction l generalizing head with
  | nil => exact h
  | cons m l ih =>
    obtain ⟨hhead, htail⟩ := h
    rw [List.mem_cons, not_or] at hn
    refine ⟨hhead, ?_⟩
    rw [getD_set_ne next hn.1]
    exact ih htail hn.2

/-- The chain from each head holds the numbers with that hash, the last one first. -/
def ChainTable (hash : ℕ → ℕ) (entered : List ℕ) (heads next : List (Option ℕ)) : Prop :=
  ∀ hv < heads.length, Chained next (heads.getD hv none)
    (entered.filter fun n => hash n = hv).reverse

namespace ChainTable

variable {hash : ℕ → ℕ} {entered : List ℕ} {heads next : List (Option ℕ)}

theorem empty (k : ℕ) : ChainTable hash [] (List.replicate k none) next := by
  intro hv hhv
  rw [List.length_replicate] at hhv
  exact List.getD_replicate _ hhv

/-- A new number becomes the head of its chain. -/
theorem enter (h : ChainTable hash entered heads next) {n : ℕ} (hfresh : n ∉ entered)
    (hn : n < next.length) : ChainTable hash (entered ++ [n]) (heads.set (hash n) (some n))
      (next.set n (heads.getD (hash n) none)) := by
  intro hv hhv
  rw [List.length_set] at hhv
  have hchain := (h hv hhv).set (n := n) (fun hmem => hfresh
    (List.mem_filter.1 (List.mem_reverse.1 hmem)).1) (heads.getD (hash n) none)
  rw [List.filter_append, List.reverse_append]
  by_cases heq : hash n = hv
  · obtain rfl := heq
    rw [getD_set_self hhv, List.filter_cons_of_pos (by simp)]
    refine ⟨rfl, ?_⟩
    rw [getD_set_self hn]
    exact hchain
  · rw [getD_set_ne heads heq, List.filter_cons_of_neg (by simpa using heq)]
    exact hchain

end ChainTable
