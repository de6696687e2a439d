import Mathlib

/-!
# Trees of names

Nodes hold names, and each name leads to a node. A path is walked name by name. Where the nodes
that can hold names have at most one name each and all of them are reached from a root, paths are
as good as nodes: to give a node a name, to take one away or to move one changes exactly the paths
that go through it.

## Main definitions

* `walk`: where a path leads.
* `NameTree`: the names form a tree below the root.
* `setName`, `moved`: the names after one of them was set, removed or moved.
* `CanMove`: what the move of a name needs.

## Main results

* `NameTree.walk_injective`: at most one path leads to a node that can hold names.
* `NameTree.walk_add`, `NameTree.walk_remove`, `CanMove.walk_moved`: the paths after a change.
* `NameTree.add`, `NameTree.remove`, `CanMove.nameTree`: the names still form a tree.
* `NameTree.climbs`: following the pointers to the holder of the name leads to the root.
-/

variable {ι ν : Type}

/-- Where a path leads from a node, name by name. -/
def walk (next : ι → ν → Option ι) : ι → List ν → Option ι
  | d, [] => some d
  | d, n :: path => (next d n).bind fun x => walk next x path

section Walk

variable {next next' : ι → ν → Option ι}

@[simp] theorem walk_nil (d : ι) : walk next d [] = some d := rfl

@[simp] theorem walk_cons (d : ι) (n : ν) (path : List ν) :
    walk next d (n :: path) = (next d n).bind fun x => walk next x path := rfl

theorem walk_append (d : ι) (P Q : List ν) :
    walk next d (P ++ Q) = (walk next d P).bind fun x => walk next x Q := by
  induction P generalizing d with
  | nil => rfl
  | cons n P ih =>
    rw [List.cons_append, walk_cons, walk_cons]
    cases next d n with
    | none => rfl
    | some x => exact ih x

theorem walk_snoc (d : ι) (P : List ν) (n : ν) :
    walk next d (P ++ [n]) = (walk next d P).bind fun x => next x n := by
  rw [walk_append]
  refine congrArg _ (funext fun x => ?_)
  cases hx : next x n <;> simp [hx]

/-- A path that takes the step `n` from `p`. -/
theorem walk_through {r p : ι} {P : List ν} {n : ν} {o : Option ι} (hP : walk next r P = some p)
    (hn : next p n = o) (R : List ν) :
    walk next r (P ++ [n] ++ R) = o.bind fun x => walk next x R := by
  rw [walk_append, walk_snoc, hP, Option.bind_some, hn]

/-- The last step of a path. -/
theorem walk_snoc_eq_some {d x : ι} {P : List ν} {n : ν} (h : walk next d (P ++ [n]) = some x) :
    ∃ y, walk next d P = some y ∧ next y n = some x := by
  rwa [walk_snoc, Option.bind_eq_some_iff] at h

/-- A path is a chain of steps. -/
theorem reflTransGen_of_walk {step : ι → ι → Prop}
    (hstep : ∀ {d n x}, next d n = some x → step d x) {d x : ι} {P : List ν}
    (hP : walk next d P = some x) : Relation.ReflTransGen step d x := by
  induction P generalizing d with
  | nil => exact Option.some.inj hP ▸ .refl
  | cons n P ih =>
    obtain ⟨y, hy, hyP⟩ := Option.bind_eq_some_iff.1 hP
    exact .head (hstep hy) (ih hyP)

/-- A path that takes no changed step leads to the same node. -/
theorem walk_congr {d : ι} {Q : List ν} (h : ∀ Q₀ m R, Q = Q₀ ++ m :: R → ∀ x,
    walk next d Q₀ = some x → next' x m = next x m) : walk next' d Q = walk next d Q := by
  induction Q generalizing d with
  | nil => rfl
  | cons n Q ih =>
    rw [walk_cons, walk_cons, h [] n Q rfl d rfl]
    cases hx : next d n with
    | none => rfl
    | some x =>
      refine ih fun Q₀ m R hQ y hy => h (n :: Q₀) m R (by rw [hQ, List.cons_append]) y ?_
      rw [walk_cons, hx]
      exact hy

/-- No path leads on from a node without names; only the empty one stays there. -/
theorem walk_leaf {c : ι} (hc : ∀ m, next c m = none) (R : List ν) :
    walk next c R = if R = [] then some c else none := by
  cases R with
  | nil => rfl
  | cons m R => rw [walk_cons, hc, if_neg (List.cons_ne_nil m R), Option.bind_none]

end Walk

/-- The names form a tree below the root: only the nodes in `D` hold names and have at most one
name each, and names are held only by nodes that are reached from the root. -/
structure NameTree (next : ι → ν → Option ι) (root : ι) (D : ι → Prop) : Prop where
  holder : ∀ {d n x}, next d n = some x → D d
  ne_root : ∀ {d n x}, next d n = some x → x ≠ root
  unique : ∀ {d n d' n' x}, next d n = some x → next d' n' = some x → D x → d = d' ∧ n = n'
  reached : ∀ {d n x}, next d n = some x → ∃ P, walk next root P = some d

namespace NameTree

variable {next : ι → ν → Option ι} {root : ι} {D : ι → Prop}

/-- Nodes without names may cease to be able to hold any, or nodes that have no name begin to. -/
theorem congr {D' : ι → Prop} (h : NameTree next root D)
    (hholder : ∀ {d n x}, next d n = some x → D' d)
    (hnamed : ∀ {d n x}, next d n = some x → D' x → D x) : NameTree next root D' :=
  ⟨hholder, h.ne_root, fun hx hx' hD => h.unique hx hx' (hnamed hx hD), h.reached⟩

/-- At most one path leads to a node that can hold names. -/
theorem walk_injective (h : NameTree next root D) {P Q : List ν} {x : ι} (hx : D x)
    (hP : walk next root P = some x) (hQ : walk next root Q = some x) : P = Q := by
  induction P using List.reverseRecOn generalizing Q x with
  | nil =>
    obtain rfl := Option.some.inj hP
    rcases Q.eq_nil_or_concat with rfl | ⟨Q, m, rfl⟩
    · rfl
    · rw [List.concat_eq_append] at hQ
      obtain ⟨y, -, hy⟩ := walk_snoc_eq_some hQ
      exact absurd rfl (h.ne_root hy)
  | append_singleton P n ih =>
    obtain ⟨y, hyP, hy⟩ := walk_snoc_eq_some hP
    rcases Q.eq_nil_or_concat with rfl | ⟨Q, m, rfl⟩
    · exact absurd (Option.some.inj hQ).symm (h.ne_root hy)
    · rw [List.concat_eq_append] at hQ ⊢
      obtain ⟨z, hzQ, hz⟩ := walk_snoc_eq_some hQ
      obtain ⟨rfl, rfl⟩ := h.unique hy hz hx
      rw [ih (h.holder hy) hyP hzQ]

/-- Following the pointers to the holder of the name leads to the root. -/
theorem climbs (h : NameTree next root D) {up : ι → ι → Prop}
    (hup : ∀ {d n x}, next d n = some x → D x → up x d) {P : List ν} {x : ι} (hx : D x)
    (hP : walk next root P = some x) : Relation.ReflTransGen up x root := by
  induction P using List.reverseRecOn generalizing x with
  | nil => rw [Option.some.inj hP]
  | append_singleton P n ih =>
    obtain ⟨y, hyP, hy⟩ := walk_snoc_eq_some hP
    exact .head (hup hy hx) (ih (h.holder hy) hyP)

/-- A path that takes the step `n` from `p` goes through the path to `p`. -/
theorem prefix_of_walk (h : NameTree next root D) {P Q : List ν} {p : ι} (hp : D p)
    (hP : walk next root P = some p) {Q₀ R : List ν} {n : ν} (hQ : Q = Q₀ ++ n :: R)
    (hQ₀ : walk next root Q₀ = some p) : P ++ [n] <+: Q := by
  rw [h.walk_injective hp hP hQ₀, hQ]
  exact ⟨R, by simp⟩

end NameTree

/-! ### Changes of names -/

section Change

variable [DecidableEq ι] [DecidableEq ν]

/-- The names after the name `n` in `p` was set to lead to `o`, or removed. -/
def setName (next : ι → ν → Option ι) (p : ι) (n : ν) (o : Option ι) : ι → ν → Option ι :=
  fun d m => if d = p ∧ m = n then o else next d m

@[simp] theorem setName_self (next : ι → ν → Option ι) (p : ι) (n : ν) (o : Option ι) :
    setName next p n o p n = o := if_pos ⟨rfl, rfl⟩

theorem setName_of_ne {next : ι → ν → Option ι} {p d : ι} {n m : ν} {o : Option ι}
    (h : ¬ (d = p ∧ m = n)) : setName next p n o d m = next d m := if_neg h

namespace NameTree

variable {next : ι → ν → Option ι} {root p p' c : ι} {D : ι → Prop} {n n' : ν} {P P' : List ν}
  {o : Option ι}

/-- A path that does not go through the name leads to the same node. -/
theorem walk_setName_of_not_prefix (h : NameTree next root D) (hp : D p)
    (hP : walk next root P = some p) {Q : List ν} (hQ : ¬ P ++ [n] <+: Q) :
    walk (setName next p n o) root Q = walk next root Q := by
  refine walk_congr fun Q₀ m R heq x hx => setName_of_ne ?_
  rintro ⟨rfl, rfl⟩
  exact hQ (h.prefix_of_walk hp hP heq hx)

theorem walk_setName_parent (h : NameTree next root D) (hp : D p)
    (hP : walk next root P = some p) : walk (setName next p n o) root P = some p := by
  rw [h.walk_setName_of_not_prefix hp hP fun hpre => ?_, hP]
  have := hpre.length_le
  simp at this

/-- A path through the name leads where the name leads now. -/
theorem walk_setName_append (h : NameTree next root D) (hp : D p)
    (hP : walk next root P = some p) (R : List ν) :
    walk (setName next p n o) root (P ++ [n] ++ R) =
      o.bind fun x => walk (setName next p n o) x R := by
  rw [walk_append, walk_snoc, h.walk_setName_parent hp hP, Option.bind_some, setName_self]

/-- The paths after a name was added that leads to a node without names. -/
theorem walk_add (h : NameTree next root D) (hp : D p) (hP : walk next root P = some p)
    (hfree : next p n = none) (hcp : c ≠ p) (hleaf : ∀ m, next c m = none) (Q : List ν) :
    walk (setName next p n (some c)) root Q =
      if Q = P ++ [n] then some c else walk next root Q := by
  by_cases hQ : P ++ [n] <+: Q
  · obtain ⟨R, rfl⟩ := hQ
    have hleaf' : ∀ m, setName next p n (some c) c m = none := fun m =>
      (setName_of_ne fun hc => hcp hc.1).trans (hleaf m)
    rw [h.walk_setName_append hp hP, Option.bind_some, walk_leaf hleaf', walk_through hP hfree,
      Option.bind_none]
    simp only [List.append_right_eq_self]
  · rw [h.walk_setName_of_not_prefix hp hP hQ,
      if_neg (by rintro rfl; exact hQ (List.prefix_refl _))]

/-- The paths after a name was removed that led to a node without names. -/
theorem walk_remove (h : NameTree next root D) (hp : D p) (hP : walk next root P = some p)
    (hname : next p n = some c) (hleaf : ∀ m, next c m = none) (Q : List ν) :
    walk (setName next p n none) root Q = if Q = P ++ [n] then none else walk next root Q := by
  by_cases hQ : P ++ [n] <+: Q
  · obtain ⟨R, rfl⟩ := hQ
    rw [h.walk_setName_append hp hP, Option.bind_none, walk_through hP hname, Option.bind_some,
      walk_leaf hleaf]
    simp only [List.append_right_eq_self]
    split_ifs <;> rfl
  · rw [h.walk_setName_of_not_prefix hp hP hQ,
      if_neg (by rintro rfl; exact hQ (List.prefix_refl _))]

/-- A name is added that leads to a node without names, which has no other name if it can hold
some. -/
theorem add (h : NameTree next root D) (hp : D p) (hP : walk next root P = some p)
    (hfree : next p n = none) (hcp : c ≠ p) (hleaf : ∀ m, next c m = none) (hc : c ≠ root)
    (hnew : D c → ∀ d m, next d m ≠ some c) : NameTree (setName next p n (some c)) root D := by
  have hcases : ∀ {d m x}, setName next p n (some c) d m = some x →
      (d = p ∧ m = n ∧ x = c) ∨ (¬ (d = p ∧ m = n) ∧ next d m = some x) := by
    intro d m x hx
    by_cases hdm : d = p ∧ m = n
    · rw [hdm.1, hdm.2, setName_self] at hx
      exact Or.inl ⟨hdm.1, hdm.2, (Option.some.inj hx).symm⟩
    · rw [setName_of_ne hdm] at hx
      exact Or.inr ⟨hdm, hx⟩
  refine ⟨fun hx => ?_, fun hx => ?_, fun hx hx' hD => ?_, fun hx => ?_⟩
  · rcases hcases hx with ⟨rfl, -, -⟩ | ⟨-, hx⟩
    · exact hp
    · exact h.holder hx
  · rcases hcases hx with ⟨-, -, rfl⟩ | ⟨-, hx⟩
    · exact hc
    · exact h.ne_root hx
  · rcases hcases hx with ⟨rfl, rfl, rfl⟩ | ⟨-, hold⟩
    · rcases hcases hx' with ⟨rfl, rfl, -⟩ | ⟨-, hold'⟩
      · exact ⟨rfl, rfl⟩
      · exact absurd hold' (hnew hD _ _)
    · rcases hcases hx' with ⟨-, -, rfl⟩ | ⟨-, hold'⟩
      · exact absurd hold (hnew hD _ _)
      · exact h.unique hold hold' hD
  · have hreach : ∀ {Q d}, d ≠ c → walk next root Q = some d →
        walk (setName next p n (some c)) root Q = some d := by
      intro Q d hd hQ
      rw [h.walk_add hp hP hfree hcp hleaf, if_neg fun heq => ?_, hQ]
      rw [heq, walk_snoc, hP, Option.bind_some, hfree] at hQ
      exact absurd hQ (by simp)
    rcases hcases hx with ⟨rfl, -, -⟩ | ⟨-, hx⟩
    · exact ⟨P, hreach hcp.symm hP⟩
    · obtain ⟨Q, hQ⟩ := h.reached hx
      exact ⟨Q, hreach (fun hd => by simp [hd, hleaf] at hx) hQ⟩

/-- A name is removed that led to a node without names. -/
theorem remove (h : NameTree next root D) (hp : D p) (hP : walk next root P = some p)
    (hname : next p n = some c) (hleaf : ∀ m, next c m = none) :
    NameTree (setName next p n none) root D := by
  have hold : ∀ {d m x}, setName next p n none d m = some x → next d m = some x := by
    intro d m x hx
    unfold setName at hx
    split_ifs at hx
    exact hx
  refine ⟨fun hx => h.holder (hold hx), fun hx => h.ne_root (hold hx),
    fun hx hx' hD => h.unique (hold hx) (hold hx') hD, fun hx => ?_⟩
  obtain ⟨Q, hQ⟩ := h.reached (hold hx)
  refine ⟨Q, ?_⟩
  rw [h.walk_remove hp hP hname hleaf, if_neg fun heq => ?_, hQ]
  rw [heq, walk_snoc, hP, Option.bind_some, hname] at hQ
  rw [← Option.some.inj hQ] at hx
  exact absurd (hold hx) (by simp [hleaf])

/-! ### Moving a name -/

/-- The names after the name `n` in `p`, which led to `c`, became the name `n'` in `p'`. -/
def moved (next : ι → ν → Option ι) (p : ι) (n : ν) (p' : ι) (n' : ν) (c : ι) : ι → ν → Option ι :=
  setName (setName next p n none) p' n' (some c)

/-- What a move asks for: the new place is not below the old one, and what it replaces holds no
names. -/
structure CanMove (next : ι → ν → Option ι) (root : ι) (D : ι → Prop) (P : List ν) (p : ι) (n : ν)
    (P' : List ν) (p' : ι) (n' : ν) (c : ι) : Prop where
  tree : NameTree next root D
  source : walk next root P = some p
  holder : D p
  name : next p n = some c
  target : walk next root P' = some p'
  holder' : D p'
  leaf : ∀ v, next p' n' = some v → ∀ m, next v m = none
  not_below : ¬ P ++ [n] <+: P'
  ne : ¬ (p' = p ∧ n' = n)

namespace CanMove

variable (h : CanMove next root D P p n P' p' n' c)

include h

omit [DecidableEq ι] [DecidableEq ν] in
theorem source_not_below : ¬ P' ++ [n'] <+: P := by
  rintro ⟨R, hR⟩
  have hP := h.source
  rw [← hR, walk_append, walk_snoc, h.target, Option.bind_some] at hP
  cases hv : next p' n' with
  | none => simp [hv] at hP
  | some v =>
    rw [hv, Option.bind_some, walk_leaf (h.leaf v hv)] at hP
    split_ifs at hP with hR'
    obtain rfl := Option.some.inj hP
    exact absurd h.name (by simp [h.leaf v hv])

omit [DecidableEq ι] [DecidableEq ν] in
/-- No path goes through both names. -/
theorem target_not_prefix (R : List ν) : ¬ P' ++ [n'] <+: P ++ [n] ++ R := by
  intro hpre
  rcases List.prefix_or_prefix_of_prefix hpre (List.prefix_append _ _) with hpre | hpre
  · rcases List.prefix_concat_iff.1 hpre with heq | hpre
    · obtain ⟨rfl, hn⟩ := List.append_inj' heq rfl
      obtain rfl := Option.some.inj (h.target.symm.trans h.source)
      exact h.ne ⟨rfl, List.singleton_injective hn⟩
    · exact h.source_not_below hpre
  · rcases List.prefix_concat_iff.1 hpre with heq | hpre
    · obtain ⟨rfl, hn⟩ := List.append_inj' heq rfl
      obtain rfl := Option.some.inj (h.target.symm.trans h.source)
      exact h.ne ⟨rfl, (List.singleton_injective hn).symm⟩
    · exact h.not_below hpre

/-- A path that goes through neither name leads to the same node. -/
theorem walk_of_not_prefix {Q : List ν} (hQ : ¬ P ++ [n] <+: Q) (hQ' : ¬ P' ++ [n'] <+: Q) :
    walk (moved next p n p' n' c) root Q = walk next root Q := by
  refine walk_congr fun Q₀ m R heq x hx => ?_
  refine (setName_of_ne ?_).trans (setName_of_ne ?_)
  · rintro ⟨rfl, rfl⟩
    exact hQ' (h.tree.prefix_of_walk h.holder' h.target heq hx)
  · rintro ⟨rfl, rfl⟩
    exact hQ (h.tree.prefix_of_walk h.holder h.source heq hx)

theorem walk_source : walk (moved next p n p' n' c) root P = some p := by
  rw [h.walk_of_not_prefix (fun hpre => ?_) h.source_not_below, h.source]
  have := hpre.length_le
  simp at this

theorem walk_target : walk (moved next p n p' n' c) root P' = some p' := by
  rw [h.walk_of_not_prefix h.not_below fun hpre => ?_, h.target]
  have := hpre.length_le
  simp at this

/-- Nothing changes below the node that is moved: paths from it lead where they led. -/
theorem walk_below (R : List ν) : walk (moved next p n p' n' c) c R = walk next c R := by
  have hfrom : ∀ {Q x}, walk next c Q = some x → walk next root (P ++ [n] ++ Q) = some x := by
    intro Q x hx
    rw [walk_append, walk_snoc, h.source, Option.bind_some, h.name, Option.bind_some, hx]
  refine walk_congr fun Q m R' _ x hx => (setName_of_ne ?_).trans (setName_of_ne ?_)
  · rintro ⟨rfl, -⟩
    refine h.not_below ⟨Q, ?_⟩
    exact h.tree.walk_injective h.holder' (hfrom hx) h.target
  · rintro ⟨rfl, -⟩
    have := congrArg List.length (h.tree.walk_injective h.holder (hfrom hx) h.source)
    simp at this

/-- **The paths after a move.** A path through the new name leads on as the path through the old one
did, no path goes through the old name, and all others are as they were. -/
theorem walk_moved (Q : List ν) : walk (moved next p n p' n' c) root Q =
    if P' ++ [n'] <+: Q then walk next root (P ++ [n] ++ Q.drop (P'.length + 1))
    else if P ++ [n] <+: Q then none else walk next root Q := by
  split_ifs with hQ' hQ
  · obtain ⟨R, rfl⟩ := hQ'
    rw [walk_through h.walk_target (setName_self ..), Option.bind_some, h.walk_below,
      List.drop_append_of_le_length (by simp), List.drop_eq_nil_of_le (by simp),
      List.nil_append, walk_through h.source h.name, Option.bind_some]
  · obtain ⟨R, rfl⟩ := hQ
    have hgone : moved next p n p' n' c p n = none :=
      (setName_of_ne fun hc => h.ne ⟨hc.1.symm, hc.2.symm⟩).trans (setName_self ..)
    rw [walk_through h.walk_source hgone, Option.bind_none]
  · exact h.walk_of_not_prefix hQ hQ'

/-- A node that still holds names is reached after the move. -/
theorem reached {d x : ι} {m : ν} (hd : next d m = some x) :
    ∃ Q, walk (moved next p n p' n' c) root Q = some d := by
  obtain ⟨Q, hQ⟩ := h.tree.reached hd
  by_cases hQ' : P' ++ [n'] <+: Q
  · -- the path went to what the move has replaced, which holds no names
    obtain ⟨R, rfl⟩ := hQ'
    cases hv : next p' n' with
    | none =>
      rw [walk_through h.target hv] at hQ
      exact absurd hQ (by simp)
    | some v =>
      rw [walk_through h.target hv, Option.bind_some, walk_leaf (h.leaf v hv)] at hQ
      split_ifs at hQ with hR
      obtain rfl := Option.some.inj hQ
      exact absurd hd (by simp [h.leaf v hv])
  by_cases hpre : P ++ [n] <+: Q
  · obtain ⟨R, rfl⟩ := hpre
    refine ⟨P' ++ [n'] ++ R, ?_⟩
    rw [h.walk_moved, if_pos ⟨R, rfl⟩, List.drop_append_of_le_length (by simp),
      List.drop_eq_nil_of_le (by simp), List.nil_append, hQ]
  · exact ⟨Q, (h.walk_of_not_prefix hpre hQ').trans hQ⟩

/-- **A name is moved.** -/
theorem nameTree : NameTree (moved next p n p' n' c) root D := by
  have hcases : ∀ {d m x}, moved next p n p' n' c d m = some x →
      (d = p' ∧ m = n' ∧ x = c) ∨ (¬ (d = p ∧ m = n) ∧ next d m = some x) := by
    intro d m x hx
    unfold moved at hx
    by_cases hdm : d = p' ∧ m = n'
    · rw [hdm.1, hdm.2, setName_self] at hx
      exact Or.inl ⟨hdm.1, hdm.2, (Option.some.inj hx).symm⟩
    · rw [setName_of_ne hdm] at hx
      unfold setName at hx
      split_ifs at hx with hold
      exact Or.inr ⟨hold, hx⟩
  refine ⟨fun hx => ?_, fun hx => ?_, fun hx hx' hD => ?_, fun hx => ?_⟩
  · rcases hcases hx with ⟨rfl, -, -⟩ | ⟨-, hx⟩
    · exact h.holder'
    · exact h.tree.holder hx
  · rcases hcases hx with ⟨-, -, rfl⟩ | ⟨-, hx⟩
    · exact h.tree.ne_root h.name
    · exact h.tree.ne_root hx
  · rcases hcases hx with ⟨rfl, rfl, rfl⟩ | ⟨hne, hold⟩
    · rcases hcases hx' with ⟨rfl, rfl, -⟩ | ⟨hne', hold'⟩
      · exact ⟨rfl, rfl⟩
      · exact absurd (h.tree.unique hold' h.name hD) hne'
    · rcases hcases hx' with ⟨-, -, rfl⟩ | ⟨-, hold'⟩
      · exact absurd (h.tree.unique hold h.name hD) hne
      · exact h.tree.unique hold hold' hD
  · rcases hcases hx with ⟨rfl, -, -⟩ | ⟨-, hx⟩
    · exact ⟨P', h.walk_target⟩
    · exact h.reached hx

end CanMove

end NameTree

end Change
