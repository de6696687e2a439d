import Mathlib
import TemporalFs.Lib.Proc
import TemporalFs.Lib.AuditedTable

/-!
# Two runs side by side

Two programs are *alike* where runs of them from related states end alike: both return related
values or both stop for related reasons, and the states that they reach are related again. Programs
that are built alike from such parts are alike. A part that only one of the programs has does no
harm where it returns and changes nothing that the relation sees.

The tables of two databases are alike where their rows are related one by one. Statements keep them
so, where the rows that they store are related.

## Main definitions

* `Proc.Matches`, `Proc.Alike`: runs that end alike.
* `Proc.Touches`: a program that returns, and what it changes.
* `AuditedTable.Alike`: tables with related rows.

## Main results

* `Proc.alike_bind`, `Proc.alike_each`: sequences and loops of programs that are alike.
* `Proc.alike_of_touches`: programs that change nothing that the relation sees.
* `AuditedTable.Alike.find`, `AuditedTable.Alike.put`, `AuditedTable.Alike.update`,
  `AuditedTable.Alike.erase`: what is found, and what statements do.
-/

namespace Proc

variable {σ τ ε ζ α β γ δ ι : Type}

theorem bind_of_ok {x : Proc σ ε α} {f : α → Proc σ ε γ} {s s' : σ} {a : α}
    (h : x s = (s', .ok a)) : (x >>= f) s = f a s' := by
  simp only [bind, h]

theorem bind_of_error {x : Proc σ ε α} {f : α → Proc σ ε γ} {s s' : σ} {e : ε}
    (h : x s = (s', .error e)) : (x >>= f) s = (s', .error e) := by
  simp only [bind, h]

/-- Both results are values that `V` relates, or both are reasons that `W` relates. -/
inductive Matches (V : α → β → Prop) (W : ε → ζ → Prop) : Except ε α → Except ζ β → Prop
  | ok {a : α} {b : β} (h : V a b) : Matches V W (.ok a) (.ok b)
  | error {e : ε} {f : ζ} (h : W e f) : Matches V W (.error e) (.error f)

/-- From states that `R` relates, runs of the programs reach related states and end alike. -/
def Alike (R : σ → τ → Prop) (V : α → β → Prop) (W : ε → ζ → Prop) (x : Proc σ ε α)
    (y : Proc τ ζ β) : Prop :=
  ∀ s t, R s t → R (x s).1 (y t).1 ∧ Matches V W (x s).2 (y t).2

variable {R : σ → τ → Prop} {V : α → β → Prop} {W : ε → ζ → Prop}

theorem Alike.mono {x : Proc σ ε α} {y : Proc τ ζ β} {V' : α → β → Prop} (h : Alike R V W x y)
    (hV : ∀ a b, V a b → V' a b) : Alike R V' W x y := by
  intro s t hR
  obtain ⟨hR', hres⟩ := h s t hR
  refine ⟨hR', ?_⟩
  generalize (x s).2 = r at hres ⊢
  generalize (y t).2 = r' at hres ⊢
  cases hres with
  | ok hab => exact .ok (hV _ _ hab)
  | error he => exact .error he

theorem alike_pure {a : α} {b : β} (h : V a b) :
    Alike R V W (pure a : Proc σ ε α) (pure b : Proc τ ζ β) := fun _ _ hR => ⟨hR, .ok h⟩

theorem alike_stop {e : ε} {f : ζ} (h : W e f) :
    Alike R V W (stop e : Proc σ ε α) (stop f : Proc τ ζ β) := fun _ _ hR => ⟨hR, .error h⟩

/-- The states that are read are related. -/
theorem alike_get : Alike R R W (get : Proc σ ε σ) (get : Proc τ ζ τ) := fun _ _ hR => ⟨hR, .ok hR⟩

theorem alike_modify {f : σ → σ} {g : τ → τ} (h : ∀ s t, R s t → R (f s) (g t)) :
    Alike R Eq W (modify f : Proc σ ε Unit) (modify g : Proc τ ζ Unit) :=
  fun s t hR => ⟨h s t hR, .ok rfl⟩

theorem alike_step {f : σ → Option σ} {g : τ → Option τ} {e : ε} {e' : ζ} (he : W e e')
    (h : ∀ s t, R s t → Option.Rel R (f s) (g t)) :
    Alike R Eq W (step f e : Proc σ ε Unit) (step g e' : Proc τ ζ Unit) := by
  intro s t hR
  have hfg := h s t hR
  unfold step
  generalize f s = o at hfg ⊢
  generalize g t = o' at hfg ⊢
  cases hfg with
  | some hR' => exact ⟨hR', .ok rfl⟩
  | none => exact ⟨hR, .error he⟩

theorem alike_bind {x : Proc σ ε α} {y : Proc τ ζ β} {f : α → Proc σ ε γ} {g : β → Proc τ ζ δ}
    {U : γ → δ → Prop} (hxy : Alike R V W x y) (hfg : ∀ a b, V a b → Alike R U W (f a) (g b)) :
    Alike R U W (x >>= f) (y >>= g) := by
  intro s t hR
  obtain ⟨hR', hres⟩ := hxy s t hR
  rcases hxs : x s with ⟨s', e | a⟩ <;> rcases hyt : y t with ⟨t', e' | b⟩ <;>
    rw [hxs, hyt] at hR' hres <;> cases hres
  · rw [bind_of_error hxs, bind_of_error hyt]
    exact ⟨hR', .error ‹_›⟩
  · rw [bind_of_ok hxs, bind_of_ok hyt]
    exact hfg a b ‹_› s' t' hR'

/-- After the same value, the rest is compared for each value. -/
theorem alike_bind_eq {x : Proc σ ε α} {y : Proc τ ζ α} {f : α → Proc σ ε γ} {g : α → Proc τ ζ δ}
    {U : γ → δ → Prop} (hxy : Alike R Eq W x y) (hfg : ∀ a, Alike R U W (f a) (g a)) :
    Alike R U W (x >>= f) (y >>= g) :=
  alike_bind hxy fun a _ h => h ▸ hfg a

/-- Both programs take the same branch. -/
theorem alike_ite {c c' : Prop} [Decidable c] [Decidable c'] (hc : c ↔ c') {x x' : Proc σ ε α}
    {y y' : Proc τ ζ β} (hx : Alike R V W x y) (hy : Alike R V W x' y') :
    Alike R V W (if c then x else x') (if c' then y else y') := by
  by_cases h : c
  · rwa [if_pos h, if_pos (hc.1 h)]
  · rwa [if_neg h, if_neg fun h' => h (hc.2 h')]

theorem alike_require {c c' : Prop} [Decidable c] [Decidable c'] (hc : c ↔ c') {e : ε} {f : ζ}
    (h : W e f) : Alike R Eq W (require c e : Proc σ ε Unit) (require c' f : Proc τ ζ Unit) :=
  alike_ite hc (alike_pure rfl) (alike_stop h)

theorem alike_when {c c' : Prop} [Decidable c] [Decidable c'] (hc : c ↔ c') {x : Proc σ ε Unit}
    {y : Proc τ ζ Unit} (h : Alike R Eq W x y) : Alike R Eq W (when c x) (when c' y) :=
  alike_ite hc h (alike_pure rfl)

theorem alike_ofOption {o : Option α} {o' : Option β} (h : Option.Rel V o o') {e : ε} {f : ζ}
    (he : W e f) : Alike R V W (ofOption o e : Proc σ ε α) (ofOption o' f : Proc τ ζ β) := by
  cases h with
  | some h => exact alike_pure h
  | none => exact alike_stop he

theorem alike_ofOption_eq {o : Option α} {e : ε} {f : ζ} (he : W e f) :
    Alike R Eq W (ofOption o e : Proc σ ε α) (ofOption o f : Proc τ ζ α) := by
  cases o with
  | some a => exact alike_pure rfl
  | none => exact alike_stop he

/-- Programs that roll back are alike where they are. -/
theorem alike_atomically {x : Proc σ ε α} {y : Proc τ ζ β} (h : Alike R V W x y) :
    Alike R V W (atomically x) (atomically y) := by
  intro s t hR
  obtain ⟨hR', hres⟩ := h s t hR
  unfold atomically
  rcases hxs : x s with ⟨s', e | a⟩ <;> rcases hyt : y t with ⟨t', e' | b⟩ <;>
    rw [hxs, hyt] at hR' hres <;> cases hres
  · exact ⟨hR, .error ‹_›⟩
  · exact ⟨hR', .ok ‹_›⟩

/-- **Loops over the same list** are alike where their rounds are. -/
theorem alike_each {f : ι → Proc σ ε Unit} {g : ι → Proc τ ζ Unit}
    (h : ∀ i, Alike R Eq W (f i) (g i)) : (l : List ι) → Alike R Eq W (each f l) (each g l)
  | [] => alike_pure rfl
  | i :: l => alike_bind_eq (h i) fun _ => alike_each h l

/-! ### Programs that the relation does not see -/

/-- The program returns, and `T` relates the state before to the state after it. -/
def Touches (T : σ → σ → Prop) (x : Proc σ ε Unit) : Prop := ∀ s, ∃ s', x s = (s', .ok ()) ∧ T s s'

variable {T : σ → σ → Prop}

theorem touches_modify {f : σ → σ} (h : ∀ s, T s (f s)) :
    Touches T (modify f : Proc σ ε Unit) := fun s => ⟨f s, rfl, h s⟩

theorem touches_bind (htrans : ∀ {s s' s''}, T s s' → T s' s'' → T s s'') {x : Proc σ ε Unit}
    {f : Unit → Proc σ ε Unit} (hx : x.Touches T) (hf : (f ()).Touches T) :
    (x >>= f).Touches T := by
  intro s
  obtain ⟨s', hs', hT⟩ := hx s
  obtain ⟨s'', hs'', hT'⟩ := hf s'
  exact ⟨s'', (bind_of_ok hs').trans hs'', htrans hT hT'⟩

theorem touches_when (hrefl : ∀ s, T s s) {c : Prop} [Decidable c] {x : Proc σ ε Unit}
    (hx : x.Touches T) : (when c x).Touches T := by
  unfold when
  split_ifs
  · exact hx
  · exact fun s => ⟨s, rfl, hrefl s⟩

/-- **Parts that one of the programs has alone** do no harm, where the relation does not see what
they change. -/
theorem alike_of_touches {T' : τ → τ → Prop} (h : ∀ {s s' t t'}, R s t → T s s' → T' t t' → R s' t')
    {x : Proc σ ε Unit} {y : Proc τ ζ Unit} (hx : x.Touches T) (hy : y.Touches T') :
    Alike R Eq W x y := by
  intro s t hR
  obtain ⟨s', hs', hT⟩ := hx s
  obtain ⟨t', ht', hT'⟩ := hy t
  rw [hs', ht']
  exact ⟨h hR hT hT', .ok rfl⟩

end Proc

/-! ### Tables with related rows -/

namespace AuditedTable

variable {ρ κ α : Type} [DecidableEq κ] {S : TableSpec ρ κ α}

theorem rows_update (t : AuditedTable S) (now : ℕ) (k : κ) (f : ρ → ρ)
    (hf : ∀ r, S.key (f r) = S.key r) :
    (t.update now k f hf).rows = t.rows.map fun x => if S.key x = k then f x else x := by
  cases h : t.find k with
  | none =>
    have hne := (t.find_eq_none_iff k).1 h
    rw [update_of_find_none h]
    exact ((List.map_congr_left fun x hx => if_neg (hne x hx)).trans t.rows.map_id).symm
  | some r =>
    rw [rows_update_of_find_some h, key_of_find h]
    refine List.map_congr_left fun x hx => ?_
    split_ifs with hk
    · rw [t.eq_of_key_eq hx (mem_of_find h) (hk.trans (key_of_find h).symm)]
    · rfl

theorem rows_rekey_of_find_some {t : AuditedTable S} {k : κ} {r : ρ} (h : t.find k = some r)
    (hS : S.rekeys = true) (now : ℕ) (f : ρ → ρ) : (t.rekey hS now k f).map AuditedTable.rows =
      if S.key (f r) = S.key r ∨ ∀ x ∈ t.rows, S.key x ≠ S.key (f r) then
        some (t.rows.map fun x => if S.key x = S.key r then f r else x) else none := by
  unfold rekey
  split
  · rename_i hnone
    exact absurd (hnone.symm.trans h) (by simp)
  · rename_i r' hr'
    obtain rfl : r' = r := Option.some.inj (hr'.symm.trans h)
    by_cases hk : S.key (f r') = S.key r' ∨ ∀ x ∈ t.rows, S.key x ≠ S.key (f r')
    · rw [dif_pos hk, if_pos hk]
      rfl
    · rw [dif_neg hk, if_neg hk]
      rfl

/-- Whether a change of the key is refused depends on the rows alone, and so do the rows after
it. -/
theorem rows_rekey_congr {t t' : AuditedTable S} (h : t.rows = t'.rows) (hS : S.rekeys = true)
    (now now' : ℕ) (k : κ) (f : ρ → ρ) :
    (t.rekey hS now k f).map AuditedTable.rows = (t'.rekey hS now' k f).map AuditedTable.rows := by
  have hfind : t.find k = t'.find k := by rw [find, find, h]
  cases ht : t.find k with
  | none =>
    rw [rekey_of_find_none ht, rekey_of_find_none (hfind.symm.trans ht),
      Option.map_some, Option.map_some, h]
  | some r =>
    rw [rows_rekey_of_find_some ht, rows_rekey_of_find_some (hfind.symm.trans ht), h]

theorem rows_erase (t : AuditedTable S) (now : ℕ) (k : κ) :
    (t.erase now k).rows = t.rows.filter fun x => S.key x ≠ k := by
  cases h : t.find k with
  | none =>
    rw [erase_of_find_none h, List.filter_eq_self.2 fun x hx => decide_eq_true
      ((t.find_eq_none_iff k).1 h x hx)]
  | some r => rw [rows_erase_of_find_some h, key_of_find h]

/-- The rows whose keys are not those of the rows with `p`. -/
theorem filter_key_notMem (t : AuditedTable S) (p : ρ → Bool) :
    (t.rows.filter fun r => S.key r ∉ (t.rows.filter p).map S.key) =
      t.rows.filter fun r => ¬ p r := by
  refine List.filter_congr fun r hr => decide_eq_decide.2 (not_congr ?_)
  rw [List.mem_map]
  constructor
  · rintro ⟨r', hr', hkey⟩
    obtain ⟨hmem, hp⟩ := List.mem_filter.1 hr'
    exact t.eq_of_key_eq hmem hr hkey ▸ hp
  · exact fun hp => ⟨r, List.mem_filter.2 ⟨hr, hp⟩, rfl⟩

/-- Deletions of rows that a state holds, one after the other. -/
theorem rows_foldl_erase {σ β : Type} {f : σ → β → σ} (table : σ → AuditedTable S) {k : β → κ}
    (hf : ∀ s b, (table (f s b)).rows = (table s).rows.filter fun r => S.key r ≠ k b) (l : List β)
    (s : σ) :
    (table (l.foldl f s)).rows = (table s).rows.filter fun r => S.key r ∉ l.map k := by
  induction l generalizing s with
  | nil => simp
  | cons b l ih =>
    rw [List.foldl_cons, ih, hf, List.filter_filter]
    refine List.filter_congr fun r _ => ?_
    simp only [List.map_cons, List.mem_cons, not_or, ← Bool.decide_and]
    exact decide_eq_decide.2 and_comm

/-- The rows of the tables are related one by one, and related rows have the same key. -/
structure Alike (E : ρ → ρ → Prop) (t t' : AuditedTable S) : Prop where
  rows : List.Forall₂ E t.rows t'.rows
  key : ∀ r r', E r r' → S.key r = S.key r'

namespace Alike

variable {E : ρ → ρ → Prop} {t t' : AuditedTable S}

theorem empty (hkey : ∀ r r', E r r' → S.key r = S.key r') :
    (AuditedTable.empty S).Alike E (AuditedTable.empty S) := ⟨.nil, hkey⟩

theorem symm (h : t.Alike E t') (hE : ∀ r r', E r r' → E r' r) : t'.Alike E t :=
  ⟨List.Forall₂.flip (h.rows.imp hE), h.key⟩

/-- What is found is related. -/
theorem find (h : t.Alike E t') (k : κ) : Option.Rel E (t.find k) (t'.find k) := by
  unfold AuditedTable.find
  generalize hl : t.rows = l
  generalize hl' : t'.rows = l'
  have hrows : List.Forall₂ E l l' := hl ▸ hl' ▸ h.rows
  clear hl hl'
  induction hrows with
  | nil => exact .none
  | @cons r r' l l' hr _ ih =>
    rw [List.find?_cons, List.find?_cons, h.key r r' hr]
    cases decide (S.key r' = k) with
    | true => exact .some hr
    | false => exact ih

theorem isSome_find (h : t.Alike E t') (k : κ) : (t.find k).isSome = (t'.find k).isSome := by
  have hfind := h.find k
  generalize t.find k = o at hfind ⊢
  generalize t'.find k = o' at hfind ⊢
  cases hfind <;> rfl

theorem find_eq_none_iff (h : t.Alike E t') (k : κ) : t.find k = none ↔ t'.find k = none := by
  rw [← Option.not_isSome_iff_eq_none, ← Option.not_isSome_iff_eq_none, h.isSome_find]

theorem put (h : t.Alike E t') {r r' : ρ} (hr : E r r') (now now' : ℕ) :
    (t.put now r).Alike E (t'.put now' r') where
  rows := by
    refine List.rel_append (List.rel_filter (fun x x' hx => ?_) h.rows) (.cons hr .nil)
    simp only [decide_eq_true_eq, h.key x x' hx, h.key r r' hr]
  key := h.key

theorem update (h : t.Alike E t') {f g : ρ → ρ} (hfg : ∀ r r', E r r' → E (f r) (g r'))
    (now now' : ℕ) (k : κ) (hf : ∀ r, S.key (f r) = S.key r) (hg : ∀ r, S.key (g r) = S.key r) :
    (t.update now k f hf).Alike E (t'.update now' k g hg) where
  rows := by
    rw [rows_update, rows_update]
    refine List.rel_map (fun x x' hx => ?_) h.rows
    rw [h.key x x' hx]
    split_ifs
    · exact hfg x x' hx
    · exact hx
  key := h.key

/-- A change of one of the tables that the relation does not see. -/
theorem update_left (h : t.Alike E t') {f : ρ → ρ} (hf' : ∀ r r', E r r' → E (f r) r') (now : ℕ)
    (k : κ) (hf : ∀ r, S.key (f r) = S.key r) : (t.update now k f hf).Alike E t' where
  rows := by
    rw [rows_update, List.forall₂_map_left_iff]
    refine h.rows.imp fun x x' hx => ?_
    split_ifs
    · exact hf' x x' hx
    · exact hx
  key := h.key

theorem erase (h : t.Alike E t') (now now' : ℕ) (k : κ) :
    (t.erase now k).Alike E (t'.erase now' k) where
  rows := by
    rw [rows_erase, rows_erase]
    refine List.rel_filter (fun x x' hx => ?_) h.rows
    simp only [decide_eq_true_eq, h.key x x' hx]
  key := h.key

end Alike

end AuditedTable
