import Mathlib

/-!
# Programs over a state that may stop early

A program `Proc σ ε α` runs over a state `σ` and either returns a value of `α` or stops with a
reason of `ε`. The state reached is kept in both cases; `Proc.atomically` is the combinator that
throws it away when the program stops, as a rolled-back transaction does.

Programs are reasoned about through `Proc.Ensures`: the post-condition `Q` holds of every returned
value and state, and `E` of every reason and state of a stop. The rules `ensures_*` compute it
through the combinators, so that the proof of a specification is left with the conditions of the
primitive steps only.

## Main definitions

* `Proc`, its monad structure and the primitives `Proc.stop`, `Proc.get`, `Proc.modify`,
  `Proc.require`, `Proc.when`, `Proc.ofOption`, `Proc.step`, `Proc.atomically`, `Proc.each`.
* `Proc.Ensures`: the specification of one run; `Proc.Keeps`: an invariant of every run.

## Main results

* `Proc.ensures_bind`, `Proc.ensures_atomically`: the rules of sequencing and of rollback.
* `Proc.keeps_each`: an invariant of the body is an invariant of the loop.
-/

/-- A program that reads and writes a state and returns a value or stops with a reason. -/
def Proc (σ ε α : Type) : Type := σ → σ × Except ε α

namespace Proc

variable {σ ε α β : Type}

instance : Monad (Proc σ ε) where
  pure a := fun s => (s, .ok a)
  bind x f := fun s =>
    match x s with
    | (s', .ok a) => f a s'
    | (s', .error e) => (s', .error e)

/-- Stop with the reason `e`. -/
def stop (e : ε) : Proc σ ε α := fun s => (s, .error e)

/-- Read the state. -/
def get : Proc σ ε σ := fun s => (s, .ok s)

/-- Change the state by a total function. -/
def modify (f : σ → σ) : Proc σ ε Unit := fun s => (f s, .ok ())

/-- Change the state by a partial function, stopping where it is undefined. -/
def step (f : σ → Option σ) (e : ε) : Proc σ ε Unit := fun s =>
  match f s with
  | some s' => (s', .ok ())
  | none => (s, .error e)

/-- Stop with `e` unless `c` holds. -/
def require (c : Prop) [Decidable c] (e : ε) : Proc σ ε Unit :=
  if c then pure () else stop e

/-- Run `x` only if `c` holds. -/
def when (c : Prop) [Decidable c] (x : Proc σ ε Unit) : Proc σ ε Unit :=
  if c then x else pure ()

/-- The value of `o`, stopping with `e` if there is none. -/
def ofOption (o : Option α) (e : ε) : Proc σ ε α :=
  match o with
  | some a => pure a
  | none => stop e

/-- Run `x`, and if it stops, forget what it did to the state. -/
def atomically (x : Proc σ ε α) : Proc σ ε α := fun s =>
  match x s with
  | (s', .ok a) => (s', .ok a)
  | (_, .error e) => (s, .error e)

/-- Run `f` on each element of a list in turn. -/
def each (f : β → Proc σ ε Unit) : List β → Proc σ ε Unit
  | [] => pure ()
  | b :: l => do
      f b
      each f l

/-! ### Specifications of a run -/

/-- From `s`, the program returns only values and states with `Q`, and stops only with reasons
and states with `E`. -/
def Ensures (x : Proc σ ε α) (s : σ) (Q : α → σ → Prop) (E : ε → σ → Prop) : Prop :=
  match x s with
  | (s', .ok a) => Q a s'
  | (s', .error e) => E e s'

variable {s : σ} {Q R : α → σ → Prop} {E F : ε → σ → Prop}

theorem Ensures.mono {x : Proc σ ε α} (h : x.Ensures s Q E) (hQ : ∀ a s', Q a s' → R a s')
    (hE : ∀ e s', E e s' → F e s') : x.Ensures s R F := by
  unfold Ensures at h ⊢
  split at h
  · exact hQ _ _ h
  · exact hE _ _ h

theorem Ensures.and {x : Proc σ ε α} (h : x.Ensures s Q E) (h' : x.Ensures s R F) :
    x.Ensures s (fun a s' => Q a s' ∧ R a s') (fun e s' => E e s' ∧ F e s') := by
  unfold Ensures at h h' ⊢
  split at h
  · rename_i heq
    rw [heq] at h'
    exact ⟨h, h'⟩
  · rename_i heq
    rw [heq] at h'
    exact ⟨h, h'⟩

/-- What holds of all values and reasons holds of those of a run. -/
theorem ensures_of_forall {x : Proc σ ε α} (hQ : ∀ a s', Q a s') (hE : ∀ e s', E e s') :
    x.Ensures s Q E := by
  unfold Ensures
  split
  · exact hQ _ _
  · exact hE _ _

/-- What holds of the state whether the program returns or stops. -/
theorem Ensures.fst {I : σ → Prop} {x : Proc σ ε α}
    (h : x.Ensures s (fun _ s' => I s') (fun _ s' => I s')) : I (x s).1 := by
  unfold Ensures at h
  split at h <;> rename_i heq <;> rw [heq] <;> exact h

/-- A program that cannot stop returns a value with its post-condition. -/
theorem Ensures.exists_ok {x : Proc σ ε α} (h : x.Ensures s Q (fun _ _ => False)) :
    ∃ a s', x s = (s', .ok a) ∧ Q a s' := by
  unfold Ensures at h
  split at h
  · rename_i s' a heq
    exact ⟨a, s', heq, h⟩
  · exact h.elim

@[simp] theorem ensures_pure (a : α) : (pure a : Proc σ ε α).Ensures s Q E ↔ Q a s := Iff.rfl

@[simp] theorem ensures_stop (e : ε) : (stop e : Proc σ ε α).Ensures s Q E ↔ E e s := Iff.rfl

@[simp] theorem ensures_get {Q : σ → σ → Prop} : (get : Proc σ ε σ).Ensures s Q E ↔ Q s s :=
  Iff.rfl

@[simp] theorem ensures_modify {Q : Unit → σ → Prop} (f : σ → σ) :
    (modify f : Proc σ ε Unit).Ensures s Q E ↔ Q () (f s) :=
  Iff.rfl

@[simp] theorem ensures_step {Q : Unit → σ → Prop} (f : σ → Option σ) (e : ε) :
    (step f e : Proc σ ε Unit).Ensures s Q E ↔
      (∀ s', f s = some s' → Q () s') ∧ (f s = none → E e s) := by
  unfold Ensures step
  cases h : f s <;> simp

@[simp] theorem ensures_bind {Q : β → σ → Prop} (x : Proc σ ε α) (f : α → Proc σ ε β) :
    (x >>= f).Ensures s Q E ↔ x.Ensures s (fun a s' => (f a).Ensures s' Q E) E := by
  have hb : (x >>= f) s =
      match x s with
      | (s', .ok a) => f a s'
      | (s', .error e) => (s', .error e) := rfl
  simp only [Ensures, hb]
  rcases x s with ⟨s', e | a⟩ <;> rfl

@[simp] theorem ensures_ite (c : Prop) [Decidable c] (x y : Proc σ ε α) :
    (if c then x else y).Ensures s Q E ↔ (c → x.Ensures s Q E) ∧ (¬ c → y.Ensures s Q E) := by
  split_ifs with h <;> simp [h]

@[simp] theorem ensures_require {Q : Unit → σ → Prop} (c : Prop) [Decidable c] (e : ε) :
    (require c e : Proc σ ε Unit).Ensures s Q E ↔ (c → Q () s) ∧ (¬ c → E e s) := by
  simp [require]

@[simp] theorem ensures_when {Q : Unit → σ → Prop} (c : Prop) [Decidable c]
    (x : Proc σ ε Unit) :
    (when c x).Ensures s Q E ↔ (c → x.Ensures s Q E) ∧ (¬ c → Q () s) := by
  simp [when]

@[simp] theorem ensures_ofOption (o : Option α) (e : ε) :
    (ofOption o e : Proc σ ε α).Ensures s Q E ↔
      (∀ a, o = some a → Q a s) ∧ (o = none → E e s) := by
  cases o <;> simp [ofOption]

/-- **Rollback.** A stop of an atomic program leaves the state as it was. -/
@[simp] theorem ensures_atomically (x : Proc σ ε α) :
    (atomically x).Ensures s Q E ↔ x.Ensures s Q (fun e _ => E e s) := by
  simp only [Ensures, atomically]
  rcases x s with ⟨s', e | a⟩ <;> rfl

/-- **The rule of the loop.** What each round keeps, the loop keeps. -/
theorem ensures_each {f : β → Proc σ ε Unit} {I : σ → Prop} {l : List β}
    (hf : ∀ b ∈ l, ∀ s, I s → (f b).Ensures s (fun _ s' => I s') E) (hs : I s) :
    (each f l).Ensures s (fun _ s' => I s') E := by
  induction l generalizing s with
  | nil => exact hs
  | cons b l ih =>
    refine (ensures_bind _ _).2 ((hf b List.mem_cons_self s hs).mono (fun _ s' h => ?_)
      fun _ _ h => h)
    exact ih (fun b' hb' => hf b' (List.mem_cons_of_mem _ hb')) h

/-! ### Invariants of a program -/

/-- The program keeps `I`, whether it returns or stops. -/
def Keeps (I : σ → Prop) (x : Proc σ ε α) : Prop :=
  ∀ s, I s → x.Ensures s (fun _ s' => I s') (fun _ s' => I s')

variable {I : σ → Prop}

theorem Keeps.fst {x : Proc σ ε α} (h : x.Keeps I) (hs : I s) : I (x s).1 := (h s hs).fst

theorem keeps_of_fst {x : Proc σ ε α} (h : ∀ s, I s → I (x s).1) : x.Keeps I := by
  intro s hs
  have hx := h s hs
  unfold Ensures
  split <;> rename_i heq <;> rw [heq] at hx <;> exact hx

theorem keeps_pure (a : α) : (pure a : Proc σ ε α).Keeps I := fun _ hs => hs

theorem keeps_stop (e : ε) : (stop e : Proc σ ε α).Keeps I := fun _ hs => hs

theorem keeps_get : (get : Proc σ ε σ).Keeps I := fun _ hs => hs

theorem keeps_modify {f : σ → σ} (h : ∀ s, I s → I (f s)) : (modify f : Proc σ ε Unit).Keeps I :=
  fun s hs => h s hs

theorem keeps_step {f : σ → Option σ} {e : ε} (h : ∀ s s', I s → f s = some s' → I s') :
    (step f e : Proc σ ε Unit).Keeps I := fun s hs =>
  (ensures_step f e).2 ⟨fun s' hf => h s s' hs hf, fun _ => hs⟩

theorem keeps_bind {x : Proc σ ε α} {f : α → Proc σ ε β} (hx : x.Keeps I)
    (hf : ∀ a, (f a).Keeps I) : (x >>= f).Keeps I := fun s hs =>
  (ensures_bind x f).2 ((hx s hs).mono (fun a s' h => hf a s' h) fun _ _ h => h)

theorem keeps_ite {c : Prop} [Decidable c] {x y : Proc σ ε α} (hx : x.Keeps I)
    (hy : y.Keeps I) : (if c then x else y).Keeps I := by
  split_ifs
  · exact hx
  · exact hy

theorem keeps_require {c : Prop} [Decidable c] {e : ε} :
    (require c e : Proc σ ε Unit).Keeps I :=
  keeps_ite (keeps_pure ()) (keeps_stop e)

theorem keeps_when {c : Prop} [Decidable c] {x : Proc σ ε Unit} (hx : x.Keeps I) :
    (when c x).Keeps I :=
  keeps_ite hx (keeps_pure ())

theorem keeps_ofOption {o : Option α} {e : ε} : (ofOption o e : Proc σ ε α).Keeps I := by
  cases o
  · exact keeps_stop e
  · exact keeps_pure _

theorem keeps_atomically {x : Proc σ ε α} (hx : x.Keeps I) : (atomically x).Keeps I :=
  fun s hs => (ensures_atomically x).2 ((hx s hs).mono (fun _ _ h => h) fun _ _ _ => hs)

theorem keeps_each {f : β → Proc σ ε Unit} (hf : ∀ b, (f b).Keeps I) :
    (l : List β) → (each f l).Keeps I
  | [] => keeps_pure ()
  | b :: l => keeps_bind (hf b) fun _ => keeps_each hf l

/-! ### Invariants, and why a program stops -/

/-- The program keeps `I`, and stops only with reasons that satisfy `P`. -/
def Preserves (P : ε → Prop) (I : σ → Prop) (x : Proc σ ε α) : Prop :=
  ∀ s, I s → x.Ensures s (fun _ s' => I s') (fun e s' => P e ∧ I s')

variable {P : ε → Prop}

theorem preserves_pure (a : α) : (pure a : Proc σ ε α).Preserves P I := fun _ hs => hs

theorem preserves_stop {e : ε} (he : P e) : (stop e : Proc σ ε α).Preserves P I :=
  fun _ hs => ⟨he, hs⟩

theorem preserves_bind {x : Proc σ ε α} {f : α → Proc σ ε β} (hx : x.Preserves P I)
    (hf : ∀ a, (f a).Preserves P I) : (x >>= f).Preserves P I := fun s hs =>
  (ensures_bind x f).2 ((hx s hs).mono (fun a s' h => hf a s' h) fun _ _ h => h)

theorem preserves_ite {c : Prop} [Decidable c] {x y : Proc σ ε α} (hx : x.Preserves P I)
    (hy : y.Preserves P I) : (if c then x else y).Preserves P I := by
  split_ifs
  · exact hx
  · exact hy

theorem preserves_require {c : Prop} [Decidable c] {e : ε} (he : P e) :
    (require c e : Proc σ ε Unit).Preserves P I :=
  preserves_ite (preserves_pure ()) (preserves_stop he)

theorem preserves_ofOption {o : Option α} {e : ε} (he : P e) :
    (ofOption o e : Proc σ ε α).Preserves P I := by
  cases o
  · exact preserves_stop he
  · exact preserves_pure _

theorem preserves_get : (get : Proc σ ε σ).Preserves P I := fun _ hs => hs

theorem preserves_modify {f : σ → σ} (h : ∀ s, I s → I (f s)) :
    (modify f : Proc σ ε Unit).Preserves P I :=
  fun s hs => h s hs

theorem preserves_step {f : σ → Option σ} {e : ε} (he : P e)
    (h : ∀ s s', I s → f s = some s' → I s') : (step f e : Proc σ ε Unit).Preserves P I :=
  fun s hs => (ensures_step f e).2 ⟨fun s' hf => h s s' hs hf, fun _ => ⟨he, hs⟩⟩

theorem preserves_when {c : Prop} [Decidable c] {x : Proc σ ε Unit} (hx : x.Preserves P I) :
    (when c x).Preserves P I :=
  preserves_ite hx (preserves_pure ())

theorem preserves_atomically {x : Proc σ ε α} (hx : x.Preserves P I) :
    (atomically x).Preserves P I := fun s hs =>
  (ensures_atomically x).2 ((hx s hs).mono (fun _ _ h => h) fun _ _ h => ⟨h.1, hs⟩)

theorem preserves_each {f : β → Proc σ ε Unit} (hf : ∀ b, (f b).Preserves P I) (l : List β) :
    (each f l).Preserves P I :=
  fun _ hs => ensures_each (fun b _ s h => hf b s h) hs

end Proc
