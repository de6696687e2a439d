import Mathlib
import TemporalFs.Db.Contents
import TemporalFs.Fs.Requests

/-!
# Rules for the parts of handlers

How the calls of methods, the checks and the casts that handlers are made of change the state of
the file system, as rules for `Proc.Ensures`.

A call of a method either returns, with the state that the method leaves, or replies an error, with
the state before the call; what is done before a call that fails stays done. A handler is a sequence
of such parts, so that its specification is put together from these rules, and no proof looks into a
handler twice.

## Main definitions

* `Exit.Fails`: an exit with an error reply, or a panic before any reply.
* `Reply.named`: the inode that a reply hands out; `SqliteFs.counted`: the state after one count.

## Main results

* `SqliteFs.ensures_callOr`: the rule for a call of a method.
* `SqliteFs.countLookup_spec`, `SqliteFs.deleteUnlessLookedUp_spec`: the ends of handlers.
-/

namespace TemporalFs

variable {X : Externals}

/-- An exit with an error reply, or a panic before any reply. -/
def Exit.Fails : Exit → Prop
  | .reply (.error _) => True
  | .panic none => True
  | _ => False

/-- The exit for a stop of a method. -/
def Stop.exit (onErr : ErrorKind → Errno) : Stop → Exit
  | .err kind => .reply (.error (onErr kind))
  | .panic => .panic none

theorem Stop.exit_fails (onErr : ErrorKind → Errno) : (e : Stop) → (e.exit onErr).Fails
  | .err _ => trivial
  | .panic => trivial

/-- The inode that a reply names and the kernel counts. -/
def Reply.named : Reply → Option ℕ
  | .entry _ a _ => some a.ino
  | .created _ a _ _ _ => some a.ino
  | _ => none

namespace SqliteFs

open Proc

/-- The file system with another state of the database. -/
def withConn (s : SqliteFs X) (db : Db X) : SqliteFs X := { s with conn := db }

/-- The file system after one more count of `ino`. -/
def counted (s : SqliteFs X) (ino : ℕ) : SqliteFs X :=
  { s with lookupCount :=
      s.lookupCount.insert ino (((s.lookupCount.lookup ino).getD 0 + 1) % 2 ^ 32) }

/-- One more count of `ino` does not fit into a `u32`. -/
def Overflows (s : SqliteFs X) (ino : ℕ) : Prop :=
  2 ^ 32 ≤ (s.lookupCount.lookup ino).getD 0 + 1

section WithConn

variable (s : SqliteFs X) (db : Db X) (i : ℕ)

@[simp] theorem withConn_self : s.withConn s.conn = s := rfl

@[simp] theorem conn_withConn : (s.withConn db).conn = db := rfl

@[simp] theorem db_withConn : (s.withConn db).db = s.db := rfl

@[simp] theorem lookupCount_withConn : (s.withConn db).lookupCount = s.lookupCount := rfl

@[simp] theorem readOnly_withConn : (s.withConn db).readOnly = s.readOnly := rfl

@[simp] theorem rewind_withConn : (s.withConn db).rewind = s.rewind := rfl

@[simp] theorem withConn_withConn (db' : Db X) : (s.withConn db).withConn db' = s.withConn db' :=
  rfl

@[simp] theorem conn_counted : (s.counted i).conn = s.conn := rfl

@[simp] theorem db_counted : (s.counted i).db = s.db := rfl

@[simp] theorem readOnly_counted : (s.counted i).readOnly = s.readOnly := rfl

@[simp] theorem rewind_counted : (s.counted i).rewind = s.rewind := rfl

end WithConn

/-! ### Rules for the parts of handlers -/

section Rules

variable {α : Type} {env : Env} {s : SqliteFs X} {E : Exit → SqliteFs X → Prop}

theorem ensures_call {Q : Except ErrorKind α → SqliteFs X → Prop} (c : Call)
    (m : Sqlite → Conn X α) : (call env c m).Ensures s Q E ↔
      (env.fails c = true → Q (.error .SqliteError) s) ∧
      (env.fails c = false → (m s.db).Ensures s.conn (fun a db => Q (.ok a) (s.withConn db))
        fun e db => match e with
          | .err kind => Q (.error kind) (s.withConn db)
          | .panic => E (.panic none) (s.withConn db)) := by
  simp only [Ensures, call]
  cases env.fails c
  · simp only [Bool.false_eq_true, ↓reduceIte, false_implies, true_implies, true_and]
    rcases m s.db s.conn with ⟨db, (kind | _) | a⟩ <;> rfl
  · simp

/-- **The rule for a call.** A call fails where the environment says so, or as its method does. -/
theorem ensures_callOr {Q : α → SqliteFs X → Prop} (c : Call) (m : Sqlite → Conn X α)
    (onErr : ErrorKind → Errno) : (callOr env c m onErr).Ensures s Q E ↔
      (env.fails c = true → E (.reply (.error (onErr .SqliteError))) s) ∧
      (env.fails c = false → (m s.db).Ensures s.conn (fun a db => Q a (s.withConn db))
        fun e db => E (e.exit onErr) (s.withConn db)) := by
  unfold callOr
  rw [ensures_bind, ensures_call]
  refine and_congr Iff.rfl (forall_congr' fun _ => ?_)
  refine ⟨fun h => h.mono (fun _ _ h => h) fun e _ h => ?_,
    fun h => h.mono (fun _ _ h => h) fun e _ h => ?_⟩
  · cases e <;> exact h
  · cases e <;> exact h

theorem ensures_callOrNoEnt {Q : α → SqliteFs X → Prop} (c : Call) (m : Sqlite → Conn X α) :
    (callOrNoEnt env c m).Ensures s Q E ↔
      (env.fails c = true → E (.reply (.error .ENOENT)) s) ∧
      (env.fails c = false → (m s.db).Ensures s.conn (fun a db => Q a (s.withConn db))
        fun e db => E (e.exit fun _ => .ENOENT) (s.withConn db)) :=
  ensures_callOr c m _

theorem ensures_callIgnoring {Q : Unit → SqliteFs X → Prop} (c : Call)
    (m : Sqlite → Conn X Unit) : (callIgnoring env c m).Ensures s Q E ↔
      (env.fails c = true → Q () s) ∧
      (env.fails c = false → (m s.db).Ensures s.conn (fun _ db => Q () (s.withConn db))
        fun e db => match e with
          | .err _ => Q () (s.withConn db)
          | .panic => E (.panic none) (s.withConn db)) := by
  unfold callIgnoring
  rw [ensures_bind, ensures_call]
  exact Iff.rfl

@[simp] theorem ensures_foundOrNoEnt {Q : α → SqliteFs X → Prop} (o : Option α) :
    (foundOrNoEnt o).Ensures s Q E ↔
      (∀ a, o = some a → Q a s) ∧ (o = none → E (.reply (.error .ENOENT)) s) :=
  ensures_ofOption _ _

@[simp] theorem ensures_writable {Q : Unit → SqliteFs X → Prop} :
    (writable : Handler X Unit).Ensures s Q E ↔
      (s.readOnly = false → Q () s) ∧ (¬ s.readOnly = false → E (.reply (.error .EPERM)) s) := by
  simp only [writable, ensures_bind, ensures_get, ensures_require]

@[simp] theorem ensures_toStr {Q : Name → SqliteFs X → Prop} (name : Bytes) :
    (toStr name).Ensures s Q E ↔
      (isUtf8Aux 0 0 0 name = true → Q name s) ∧
        (¬ isUtf8Aux 0 0 0 name = true → E (.panic none) s) := by
  simp only [toStr, ensures_bind, ensures_require, ensures_pure]

theorem ensures_u32Add {Q : ℕ → SqliteFs X → Prop} (sent : Option Reply) (a b : ℕ) :
    (u32Add env sent a b).Ensures s Q E ↔
      (a + b < 2 ^ 32 → Q (a + b) s) ∧ (¬ a + b < 2 ^ 32 →
        (env.checked = true → E (.panic sent) s) ∧
          (¬ env.checked = true → Q ((a + b) % 2 ^ 32) s)) := by
  simp only [u32Add, ensures_ite, ensures_pure, ensures_stop]

theorem ensures_u32Sub {Q : ℕ → SqliteFs X → Prop} (a b : ℕ) :
    (u32Sub env a b).Ensures s Q E ↔
      (b ≤ a → Q (a - b) s) ∧ (¬ b ≤ a →
        (env.checked = true → E (.panic none) s) ∧
          (¬ env.checked = true → Q (a + 2 ^ 32 - b) s)) := by
  simp only [u32Sub, ensures_ite, ensures_pure, ensures_stop]

theorem ensures_slice {Q : Bytes → SqliteFs X → Prop} (data : Bytes) (lo hi : ℕ) :
    (slice data lo hi).Ensures s Q E ↔
      (lo ≤ hi ∧ hi ≤ data.length → Q ((data.take hi).drop lo) s) ∧
        (¬ (lo ≤ hi ∧ hi ≤ data.length) → E (.panic none) s) := by
  simp only [slice, ensures_bind, ensures_require, ensures_pure]

theorem countLookup_spec (sent : Option Reply) (i : ℕ) :
    (countLookup env sent i).Ensures s (fun _ s' => s' = s.counted i)
      (fun e s' => e = .panic sent ∧ s' = s ∧ s.Overflows i) := by
  simp only [countLookup, ensures_bind, ensures_get, ensures_u32Add, ensures_modify]
  refine ⟨fun h => ?_, fun h => ⟨fun _ => ⟨trivial, trivial, not_lt.1 h⟩, fun _ => rfl⟩⟩
  unfold counted
  rw [Nat.mod_eq_of_lt h]

/-- What becomes of an inode that lost an entry. -/
theorem deleteUnlessLookedUp_spec (i : ℕ) :
    (deleteUnlessLookedUp env i).Ensures s
      (fun _ s' => s' = if i ∈ s.lookupCount then s else s.withConn (s.conn.collect i))
      (fun e s' => e = .reply (.error .ENOENT) ∧ i ∉ s.lookupCount ∧
        env.fails (.deleteInodeIfNoref i) = true ∧ s' = s) := by
  simp only [deleteUnlessLookedUp, ensures_bind, ensures_get, ensures_when, ensures_callOrNoEnt]
  refine ⟨fun hi => ⟨fun hf => ⟨trivial, hi, hf, trivial⟩, fun _ => ?_⟩, fun hi => ?_⟩
  · refine (Sqlite.deleteInodeIfNoref_spec _ _ i).mono (fun _ db h => ?_) fun _ _ h => h.elim
    rw [if_neg hi, h]
  · rw [if_pos (not_not.1 hi)]

end Rules

end SqliteFs

end TemporalFs
