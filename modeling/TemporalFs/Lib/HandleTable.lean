import Mathlib

/-!
# Numbered handles

A table of handles hands out numbers for each key from a counter, and keeps a record under each
number until it is released. Numbers are never handed out twice, so that the handles that are not
yet released are told apart, and each has the record that it was given.

The counter of a key stands beside its records and is never set back, so that a number that has been
released is not handed out again. The invariants are stated on the table and on the list of handles
that were handed out, and each of the two operations keeps them.

## Main definitions

* `HandleTable`, its operations `HandleTable.opened` and `HandleTable.released`.
* `HandleTable.Fresh`: the counter is ahead of all numbers in use.
* `HandleTable.Issued`: the handles that were handed out and not yet released.

## Main results

* `HandleTable.Issued.opened`, `HandleTable.Issued.released`: they stay distinct.
-/

/-- The records of handles, by key and number, and the next number of each key. -/
@[ext]
structure HandleTable (κ τ : Type) where
  find : κ → ℕ → Option τ
  next : κ → ℕ

namespace HandleTable

variable {κ τ : Type} [DecidableEq κ]

/-- A handle of `k` with the record `x` is handed out. -/
def opened (t : HandleTable κ τ) (k : κ) (x : τ) : HandleTable κ τ where
  find k' f := if k' = k ∧ f = t.next k then some x else t.find k' f
  next k' := if k' = k then t.next k + 1 else t.next k'

/-- The handle `f` of `k` is given back. -/
def released (t : HandleTable κ τ) (k : κ) (f : ℕ) : HandleTable κ τ where
  find k' f' := if k' = k ∧ f' = f then none else t.find k' f'
  next := t.next

/-- The next number is above all numbers in use. -/
def Fresh (t : HandleTable κ τ) : Prop := ∀ k f, (t.find k f).isSome → f < t.next k

variable {t : HandleTable κ τ}

theorem Fresh.opened (h : t.Fresh) (k : κ) (x : τ) : (t.opened k x).Fresh := by
  intro k' f hf
  simp only [HandleTable.opened] at hf ⊢
  by_cases hk : k' = k
  · subst hk
    rw [if_pos rfl]
    by_cases hn : f = t.next k'
    · exact hn ▸ Nat.lt_succ_self _
    · rw [if_neg fun hc => hn hc.2] at hf
      exact (h k' f hf).trans (Nat.lt_succ_self _)
  · rw [if_neg fun hc => hk hc.1] at hf
    rw [if_neg hk]
    exact h k' f hf

theorem Fresh.released (h : t.Fresh) (k : κ) (f : ℕ) : (t.released k f).Fresh := by
  intro k' f' hf
  simp only [HandleTable.released] at hf ⊢
  split_ifs at hf
  · simp at hf
  · exact h k' f' hf

/-- A record in use stays when a handle is handed out. -/
theorem Fresh.find_opened (h : t.Fresh) {k k' : κ} {f : ℕ} {x y : τ} (hy : t.find k' f = some y) :
    (t.opened k x).find k' f = some y := by
  simp only [HandleTable.opened]
  rw [if_neg, hy]
  rintro ⟨rfl, rfl⟩
  exact absurd (h k' _ (by rw [hy]; rfl)) (lt_irrefl _)

theorem find_opened_self (t : HandleTable κ τ) (k : κ) (x : τ) :
    (t.opened k x).find k (t.next k) = some x :=
  if_pos ⟨rfl, rfl⟩

/-- A record stays when another handle is given back. -/
theorem find_released_of_ne {k k' : κ} {f f' : ℕ} (hne : ¬ (k' = k ∧ f' = f)) :
    (t.released k f).find k' f' = t.find k' f' :=
  if_neg hne

/-- The handles in the list have been handed out: no two of them are alike, and each has its
record. -/
structure Issued (t : HandleTable κ τ) (l : List (κ × ℕ × τ)) : Prop where
  distinct : (l.map fun h => (h.1, h.2.1)).Nodup
  find : ∀ h ∈ l, t.find h.1 h.2.1 = some h.2.2

variable {l : List (κ × ℕ × τ)}

theorem Issued.opened (h : t.Issued l) (ht : t.Fresh) (k : κ) (x : τ) :
    (t.opened k x).Issued ((k, t.next k, x) :: l) where
  distinct := by
    rw [List.map_cons, List.nodup_cons]
    refine ⟨fun hmem => ?_, h.distinct⟩
    obtain ⟨y, hy, heq⟩ := List.mem_map.1 hmem
    have hfind := h.find y hy
    obtain ⟨hk, hf⟩ := Prod.mk.inj heq
    rw [hk, hf] at hfind
    exact lt_irrefl _ (ht k _ (by rw [hfind]; rfl))
  find y hy := by
    rcases List.mem_cons.1 hy with rfl | hy
    · exact t.find_opened_self k x
    · exact ht.find_opened (h.find y hy)

theorem Issued.released (h : t.Issued l) (k : κ) (f : ℕ) :
    (t.released k f).Issued (l.filter fun y => ¬ (y.1 = k ∧ y.2.1 = f)) where
  distinct := h.distinct.sublist (List.filter_sublist.map _)
  find y hy := by
    obtain ⟨hy, hne⟩ := List.mem_filter.1 hy
    rw [find_released_of_ne (of_decide_eq_true hne)]
    exact h.find y hy

omit [DecidableEq κ] in
/-- With distinct keys, erasing the first element with a key erases all of them. -/
theorem eraseP_eq_filter {α β : Type} [DecidableEq β] (key : α → β) (b : β) :
    (l : List α) → (l.map key).Nodup →
      l.eraseP (fun a => key a = b) = l.filter fun a => ¬ key a = b
  | [], _ => rfl
  | a :: l, h => by
    rw [List.map_cons, List.nodup_cons] at h
    by_cases ha : key a = b
    · rw [List.eraseP_cons_of_pos (by simpa using ha), List.filter_cons_of_neg (by simpa using ha)]
      refine (List.filter_eq_self.2 fun x hx => ?_).symm
      simpa using fun hx' : key x = b => h.1 (ha.trans hx'.symm ▸ List.mem_map_of_mem hx)
    · rw [List.eraseP_cons_of_neg (by simpa using ha), List.filter_cons_of_pos (by simpa using ha),
        eraseP_eq_filter key b l h.2]

/-! ### Tables kept as lists of records -/

section OfLists

variable {ρ : Type} (count : ρ → ℕ) (list : ρ → AList fun _ : ℕ => τ)

/-- The table that is kept as one record for each key, with a counter and a list. -/
def ofLists (m : AList fun _ : κ => ρ) : HandleTable κ τ where
  find k f := (m.lookup k).bind fun r => (list r).lookup f
  next k := ((m.lookup k).map count).getD 0

/-- The record of `k`, or an empty one. -/
def RecordOf (m : AList fun _ : κ => ρ) (k : κ) (r : ρ) : Prop :=
  m.lookup k = some r ∨ m.lookup k = none ∧ count r = 0 ∧ list r = ∅

variable {count list} {m : AList fun _ : κ => ρ} {k : κ} {r r' : ρ}

variable (count list) in
theorem recordOf_getD (m : AList fun _ : κ => ρ) (k : κ) {r₀ : ρ} (hcount : count r₀ = 0)
    (hlist : list r₀ = ∅) : RecordOf count list m k ((m.lookup k).getD r₀) := by
  rcases hm : m.lookup k with _ | r
  · exact Or.inr ⟨hm, hcount, hlist⟩
  · exact Or.inl hm

theorem RecordOf.next (h : RecordOf count list m k r) :
    (ofLists count list m).next k = count r := by
  rcases h with h | ⟨h, hc, -⟩
  · simp only [ofLists, h, Option.map_some, Option.getD_some]
  · simp only [ofLists, h, Option.map_none, Option.getD_none, hc]

theorem RecordOf.find (h : RecordOf count list m k r) (f : ℕ) :
    (ofLists count list m).find k f = (list r).lookup f := by
  rcases h with h | ⟨h, -, hl⟩
  · simp only [ofLists, h, Option.bind_some]
  · simp only [ofLists, h, Option.bind_none, hl, AList.lookup_empty]

theorem find_insert (k' : κ) (f : ℕ) : (ofLists count list (m.insert k r')).find k' f =
    if k' = k then (list r').lookup f else (ofLists count list m).find k' f := by
  by_cases hk : k' = k
  · subst hk
    rw [if_pos rfl]
    simp only [ofLists, AList.lookup_insert, Option.bind_some]
  · rw [if_neg hk]
    simp only [ofLists, AList.lookup_insert_ne hk]

theorem next_insert (k' : κ) : (ofLists count list (m.insert k r')).next k' =
    if k' = k then count r' else (ofLists count list m).next k' := by
  by_cases hk : k' = k
  · subst hk
    rw [if_pos rfl]
    simp only [ofLists, AList.lookup_insert, Option.map_some, Option.getD_some]
  · rw [if_neg hk]
    simp only [ofLists, AList.lookup_insert_ne hk]

/-- A handle is handed out by counting up and adding to the list. -/
theorem RecordOf.opened (h : RecordOf count list m k r) {x : τ} (hcount : count r' = count r + 1)
    (hlist : list r' = (list r).insert (count r) x) :
    ofLists count list (m.insert k r') = (ofLists count list m).opened k x := by
  refine HandleTable.ext (funext fun k' => funext fun f => ?_) (funext fun k' => ?_)
  · rw [find_insert, HandleTable.opened]
    dsimp only
    by_cases hk : k' = k
    · subst hk
      rw [if_pos rfl, h.next, h.find, hlist]
      by_cases hf : f = count r
      · rw [if_pos ⟨rfl, hf⟩, hf, AList.lookup_insert]
      · rw [if_neg fun hc => hf hc.2, AList.lookup_insert_ne hf]
    · rw [if_neg hk, if_neg fun hc => hk hc.1]
  · rw [next_insert, HandleTable.opened]
    dsimp only
    rw [hcount, h.next]

/-- A handle is given back by erasing it from the list. -/
theorem RecordOf.released (h : RecordOf count list m k r) {f : ℕ} (hcount : count r' = count r)
    (hlist : list r' = (list r).erase f) :
    ofLists count list (m.insert k r') = (ofLists count list m).released k f := by
  refine HandleTable.ext (funext fun k' => funext fun f' => ?_) (funext fun k' => ?_)
  · rw [find_insert, HandleTable.released]
    dsimp only
    by_cases hk : k' = k
    · subst hk
      rw [if_pos rfl, h.find, hlist]
      by_cases hf : f' = f
      · rw [if_pos ⟨rfl, hf⟩, hf, AList.lookup_erase]
      · rw [if_neg fun hc => hf hc.2, AList.lookup_erase_ne hf]
    · rw [if_neg hk, if_neg fun hc => hk hc.1]
  · rw [next_insert, HandleTable.released]
    dsimp only
    split_ifs with hk
    · rw [hcount, hk, h.next]
    · rfl

/-- Where no handle was ever handed out, the record can be dropped. -/
theorem RecordOf.dropped (h : RecordOf count list m k r) (hfresh : (ofLists count list m).Fresh)
    (hcount : count r = 0) (f : ℕ) :
    ofLists count list (m.erase k) = (ofLists count list m).released k f := by
  have hnone : ∀ f', (ofLists count list m).find k f' = none := by
    intro f'
    by_contra hf
    have hlt := hfresh k f' (Option.ne_none_iff_isSome.1 hf)
    rw [h.next, hcount] at hlt
    exact Nat.not_lt_zero _ hlt
  refine HandleTable.ext (funext fun k' => funext fun f' => ?_) (funext fun k' => ?_)
  · by_cases hk : k' = k
    · subst hk
      simp only [HandleTable.released, hnone, ite_self]
      simp only [ofLists, AList.lookup_erase, Option.bind_none]
    · simp only [HandleTable.released, hk, false_and, if_false]
      simp only [ofLists, AList.lookup_erase_ne hk]
  · by_cases hk : k' = k
    · subst hk
      simp only [HandleTable.released, h.next, hcount]
      simp only [ofLists, AList.lookup_erase, Option.map_none, Option.getD_none]
    · simp only [HandleTable.released]
      simp only [ofLists, AList.lookup_erase_ne hk]

end OfLists

end HandleTable
