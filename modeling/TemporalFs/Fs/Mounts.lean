import Mathlib
import TemporalFs.Fs.Effects

/-!
# Writable mounts

A mount that is neither read-only nor rewound stays so whatever the kernel sends, and uses inode
numbers that fit into a `u32`.

Requests change neither the settings of a mount nor those of its connection, and the counter of
inode numbers grows by one at most. A counter that has reached `2 ^ 32` would give numbers that the
casts to `u32` cut, so that its bound is a part of what a run keeps. A mount is made by `init` on a
database, and what `init` keeps holds of the state that it starts from.

## Main definitions

* `SqliteFs.WritableMount`: a mount that accepts changes.

## Main results

* `SqliteFs.WritableMount.run`: it stays one in every run.
-/

namespace TemporalFs

variable {X : Externals}

namespace SqliteFs

variable {env : Env} {s s' : SqliteFs X} {r : Request} {out : Outcome}

/-- The two states belong to the same mount. -/
structure SameMount (s s' : SqliteFs X) : Prop where
  db : s'.db = s.db
  readOnly : s'.readOnly = s.readOnly
  rewind : s'.rewind = s.rewind

theorem CountedTo.conn_eq {db : Db X} {i : ℕ} (h : s.CountedTo db i s') : s'.conn = db := by
  rcases h with rfl | ⟨rfl, -⟩ <;> rfl

theorem CountedTo.sameMount {db : Db X} {i : ℕ} (h : s.CountedTo db i s') : s.SameMount s' := by
  rcases h with rfl | ⟨rfl, -⟩ <;> exact ⟨rfl, rfl, rfl⟩

theorem Finishes.sameMount {db : Db X} {res : Option ℕ} (h : s.Finishes env db res s' out) :
    s.SameMount s' := by
  cases res with
  | none => exact h.1 ▸ ⟨rfl, rfl, rfl⟩
  | some j => rcases h with ⟨-, rfl⟩ | ⟨-, -, -, rfl⟩ <;> exact ⟨rfl, rfl, rfl⟩

theorem Finishes.sqliteSequence {db : Db X} {res : Option ℕ} (h : s.Finishes env db res s' out) :
    s'.conn.sqliteSequence = db.sqliteSequence := by
  rcases h.conn_eq_or with h | ⟨j, -, h⟩
  · rw [h]
  · rw [h]
    exact Db.sqliteSequence_collect ..

theorem Effect.sameMount (h : Effect env s r s' out) : s.SameMount s' := by
  cases h with
  | quiet h => exact ⟨h.db, h.readOnly, h.rewind⟩
  | looked_up _ _ _ hs => exact hs.sameMount
  | made _ _ _ _ hs => exact hs.sameMount
  | half_made _ _ _ hs => exact hs ▸ ⟨rfl, rfl, rfl⟩
  | linked _ hs => exact hs.sameMount
  | removed _ _ _ _ hs => exact hs.sameMount
  | renamed _ _ hs => exact hs.sameMount
  | renamed_onto_itself _ _ hs => exact hs.sameMount
  | forgot h =>
    cases h with
    | ignored => exact ⟨rfl, rfl, rfl⟩
    | counted_down _ _ _ hdb hro hre => exact ⟨hdb, hro, hre⟩
    | too_much _ _ _ _ hdb hro hre => exact ⟨hdb, hro, hre⟩
  | swept _ hs => exact hs ▸ ⟨rfl, rfl, rfl⟩
  | destroyed _ hs => exact hs ▸ ⟨rfl, rfl, rfl⟩
  | wrote _ hs => exact hs ▸ ⟨rfl, rfl, rfl⟩
  | updated _ _ _ hs => exact hs ▸ ⟨rfl, rfl, rfl⟩
  | xattr_changed _ _ hs => exact hs ▸ ⟨rfl, rfl, rfl⟩

theorem sqliteSequence_of_writeSteps {i : ℕ} {db db' : Db X}
    (h : Relation.ReflTransGen (Db.WriteStep i) db db') :
    db'.sqliteSequence = db.sqliteSequence := by
  induction h with
  | refl => rfl
  | tail _ hstep ih =>
    rcases hstep with h | ⟨k, bytes, size, h⟩
    · exact h.sqliteSequence.trans ih
    · exact h.sqliteSequence.trans ih

/-- A request uses at most one new inode number, which fits into a `u32`. -/
theorem Effect.sequence (h : Effect env s r s' out) :
    s'.conn.sqliteSequence = s.conn.sqliteSequence ∨
      (s'.conn.sqliteSequence = s.conn.sqliteSequence + 1 ∧
        s'.conn.sqliteSequence < 2 ^ 32) := by
  have hadded : ∀ {p n attr child} {db₁ db₂ db₃ : Db X}, s.conn.SameUpTo .atimeless db₁ →
      db₁.Added p n attr child db₂ → db₃.sqliteSequence = db₂.sqliteSequence →
        db₃.sqliteSequence = s.conn.sqliteSequence + 1 ∧ db₃.sqliteSequence < 2 ^ 32 := by
    intro p n attr child db₁ db₂ db₃ hdb hadd heq
    rw [heq, hadd.sqliteSequence]
    exact ⟨hadd.child_eq.trans (congrArg (· + 1) hdb.sqliteSequence), hadd.child_lt⟩
  cases h with
  | quiet h => exact Or.inl h.conn.sqliteSequence
  | looked_up _ hdb _ hs' => exact Or.inl (hs'.conn_eq ▸ hdb.sqliteSequence)
  | made _ hdb hadd hcont hs' =>
    rw [hs'.conn_eq]
    rcases hcont with rfl | ⟨link, -, -, hlink⟩
    · exact Or.inr (hadded hdb hadd rfl)
    · exact Or.inr (hadded hdb hadd hlink.sqliteSequence)
  | half_made _ hdb hadd hs' => exact Or.inr (hadded hdb hadd (hs' ▸ rfl))
  | linked h hs' => exact Or.inl (hs'.conn_eq ▸ h.rest.sqliteSequence)
  | removed _ hdb h _ hs' =>
    exact Or.inl ((hs'.sqliteSequence.trans h.rest.sqliteSequence).trans hdb.sqliteSequence)
  | renamed _ h hs' => exact Or.inl (hs'.sqliteSequence.trans h.rest.sqliteSequence)
  | renamed_onto_itself _ h hs' => exact Or.inl (hs'.sqliteSequence.trans h.rest.sqliteSequence)
  | forgot h =>
    refine Or.inl ?_
    cases h with
    | ignored => rfl
    | counted_down _ _ hconn =>
      rw [hconn]
      split_ifs
      · exact Db.sqliteSequence_collect ..
      · rfl
    | too_much _ _ _ hconn => exact congrArg Db.sqliteSequence hconn
  | swept _ hs' => exact Or.inl (hs' ▸ Db.sqliteSequence_deleteAll _ _)
  | destroyed _ hs' =>
    exact Or.inl (hs' ▸ Db.foldl_eq_of_forall Db.sqliteSequence Db.collect
      (fun db i => db.sqliteSequence_collect i) _ _)
  | wrote h hs' => exact Or.inl (hs' ▸ sqliteSequence_of_writeSteps h)
  | updated _ _ h hs' => exact Or.inl (hs' ▸ h.sqliteSequence)
  | xattr_changed _ h hs' => exact Or.inl (hs' ▸ h.sqliteSequence)

/-- The inode numbers in use fit into a `u32` after a request if they did before. -/
theorem Effect.sequence_lt (h : Effect env s r s' out) (hs : s.conn.sqliteSequence < 2 ^ 32) :
    s'.conn.sqliteSequence < 2 ^ 32 := by
  rcases h.sequence with heq | ⟨-, hlt⟩
  · exact heq ▸ hs
  · exact hlt

theorem Effect.sequence_le (h : Effect env s r s' out) :
    s.conn.sqliteSequence ≤ s'.conn.sqliteSequence := by
  rcases h.sequence with heq | ⟨heq, -⟩ <;> omega

/-- **A mount starts with what `init` leaves.** -/
theorem opened_of_mount {I : Db X → Prop} {db : Sqlite} {now : Now} {conn : Db X}
    {readOnly rewind : Bool} (h : mount db now conn readOnly rewind = some s)
    (hinit : (db.init now).Ensures conn (fun _ conn' => I conn') fun _ _ => True) :
    ∃ conn', I conn' ∧ s = opened db conn' readOnly rewind := by
  unfold mount at h
  unfold Proc.Ensures at hinit
  split at h <;> rename_i heq
  · rw [heq] at hinit
    exact ⟨_, hinit, (Option.some.inj h).symm⟩
  · exact absurd h (by simp)

/-- A mount that accepts changes. -/
structure WritableMount (s : SqliteFs X) : Prop where
  readOnly : s.readOnly = false
  rewind : s.rewind = false
  sequence_lt : s.conn.sqliteSequence < 2 ^ 32

theorem WritableMount.handle_effect (h : s.WritableMount) (r : Env × Request) :
    Effect r.1 s r.2 (s.after r) (handle r.1 r.2 s).2 :=
  SqliteFs.handle_effect r.1 h.rewind r.2

theorem WritableMount.after (h : s.WritableMount) (r : Env × Request) :
    (s.after r).WritableMount :=
  ⟨(h.handle_effect r).sameMount.readOnly.trans h.readOnly,
    (h.handle_effect r).sameMount.rewind.trans h.rewind,
    (h.handle_effect r).sequence_lt h.sequence_lt⟩

/-- A mount that accepts changes does so in every run. -/
theorem WritableMount.run (h : s.WritableMount) (rs : List (Env × Request)) :
    (s.run rs).WritableMount :=
  run_induction rs (fun _ r _ h => h.after r) s h

end SqliteFs

end TemporalFs
