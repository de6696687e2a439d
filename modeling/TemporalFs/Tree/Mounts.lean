import Mathlib
import TemporalFs.Fs.ReadOnly
import TemporalFs.Tree.Changes

/-!
# The namespace of a mount

Every request changes the namespace in steps: a name is added, removed or moved, inodes without an
entry are deleted, and all the rest leaves the namespace alone. What these steps keep, every run
keeps in which the kernel keeps its promises.

## Main definitions

* `Request.Promised`: what the kernel promises of a request; `SqliteFs.Promised`: of a run.
* `Db.NamesClosed`: an invariant of the namespace.
* `SqliteFs.Reachable`: the states of writable mounts of a database made by `init`.

## Main results

* `SqliteFs.Effect.names`: a request keeps such an invariant.
* `SqliteFs.WritableMount.names_run`: and so does a run.
* `SqliteFs.Reachable.names`: it holds in every reachable state.
-/

namespace TemporalFs

variable {X : Externals}

/-- What the kernel promises of a request: names are not `.` or `..`, the parent of a new or moved
name is a linked directory, `unlink` is not sent for directories, and what is renamed is neither
moved below itself, if it is a directory, nor onto itself. -/
def Request.Promised (db : Db X) : Request → Prop
  | .mkdir parent name _ => ¬ IsDots name ∧ db.LinkedDir (asU32 parent)
  | .symlink parent name _ => ¬ IsDots name ∧ db.LinkedDir (asU32 parent)
  | .create parent name _ => ¬ IsDots name ∧ db.LinkedDir (asU32 parent)
  | .link _ parent name => ¬ IsDots name ∧ db.LinkedDir (asU32 parent)
  | .unlink parent name => ¬ IsDots name ∧
    ∀ i, db.next (asU32 parent) name = some i → ¬ db.IsDir i
  | .rmdir _ name => ¬ IsDots name
  | .rename parent name newparent newname => ¬ IsDots name ∧ ¬ IsDots newname ∧
    db.LinkedDir (asU32 newparent) ∧ ∀ i, db.next (asU32 parent) name = some i →
      (db.IsDir i → ¬ db.Below i (asU32 newparent)) ∧ db.next (asU32 newparent) newname ≠ some i
  | _ => True

namespace Db

/-- A property of the namespace that the steps of promised requests keep, where names are moved as
`M` allows. -/
structure NamesClosed (M : Db X → ℕ → Name → ℕ → Name → Prop) (I : Db X → Prop) : Prop where
  tree : ∀ {db}, I db → db.Tree
  same : ∀ {db db'}, I db → db.SameNames db' → I db'
  purged : ∀ {db db' L}, I db → db.Purged L db' → I db'
  added : ∀ {db db' p n attr child}, I db → db.Added p n attr child db' → ¬ IsDots n →
    db.LinkedDir p → I db'
  linked : ∀ {db db' i p n attr}, I db → db.Linked i p n attr db' → ¬ IsDots n →
    db.LinkedDir p → I db'
  unlinked : ∀ {db db' p n child}, I db → db.Unlinked p n child db' → ¬ IsDots n →
    (∀ m, db.next child m = none) → I db'
  moved : ∀ {db db' p n p' n' e res}, I db → db.Moved p n p' n' e res db' → ¬ IsDots n →
    ¬ IsDots n' → db.LinkedDir p' → ¬ db.Below e.childId p' → (p, n) ≠ (p', n') →
      M db p n p' n' → I db'

/-- The tree is kept by any moves. -/
theorem namesClosed_tree : NamesClosed (X := X) (fun _ _ _ _ _ => True) Tree where
  tree h := h
  same h hsame := hsame.tree h
  purged h hpurged := h.purged hpurged
  added h hadd hn hp := h.added hadd hn hp
  linked h hlink hn hp := h.linked hlink hn hp
  unlinked h hun hn hleaf := h.unlinked hun hn hleaf
  moved h hmove hn hn' hp' hbelow hne _ := h.moved hmove hn hn' hp' hbelow hne

end Db

namespace SqliteFs

variable {env : Env} {s s' : SqliteFs X} {r : Request} {out : Outcome}
  {M : Db X → ℕ → Name → ℕ → Name → Prop} {I : Db X → Prop}

theorem Finishes.names (hI : Db.NamesClosed M I) {db : Db X} {res : Option ℕ}
    (h : s.Finishes env db res s' out) (hdb : I db) : I s'.conn := by
  rcases h.conn_eq_or with h | ⟨j, -, h⟩
  · exact h ▸ hdb
  · exact h ▸ hI.purged hdb (db.purged_collect j)

/-- The new name of a request that makes an inode is one that the kernel promised. -/
theorem promised_of_makes {kind : FileType} {parent : ℕ} {name : Bytes} {db : Db X}
    (hr : r.makes = some (kind, parent, name)) (hp : r.Promised db) :
    ¬ IsDots name ∧ db.LinkedDir (asU32 parent) := by
  cases r <;> simp only [Request.makes, reduceCtorEq, Option.some.injEq, Prod.mk.injEq] at hr
  all_goals
    obtain ⟨-, rfl, rfl⟩ := hr
    exact hp

/-- What `unlink` and `rmdir` remove holds no names. -/
theorem leaf_of_removes {parent child : ℕ} {name : Bytes} {db₁ db₂ : Db X} (htree : s.conn.Tree)
    (hr : r.removes = some (parent, name)) (hp : r.Promised s.conn)
    (hdb : s.conn.SameUpTo .atimeless db₁) (h : db₁.Unlinked (asU32 parent) name child db₂)
    (hempty : r = .rmdir parent name → directoryIsEmpty s.conn.dentry.rows child = true) :
    ¬ IsDots name ∧ ∀ m, db₁.next child m = none := by
  have hsame := hdb.timeless.sameNames
  rw [hsame.next]
  cases r <;> simp only [Request.removes, reduceCtorEq, Option.some.injEq, Prod.mk.injEq] at hr
  · obtain ⟨rfl, rfl⟩ := hr
    refine ⟨hp.1, htree.leaf_of_not_isDir (hp.2 child ?_)⟩
    rw [← hsame.next]
    exact h.next_eq hp.1
  · obtain ⟨rfl, rfl⟩ := hr
    exact ⟨hp, Db.Tree.leaf_of_empty (hempty rfl)⟩

/-- **A request keeps an invariant of the namespace.** -/
theorem Effect.names (hI : Db.NamesClosed M I) (h : Effect env s r s' out)
    (hp : r.Promised s.conn)
    (hM : ∀ p n p' n', r = .rename p n p' n' → M s.conn (asU32 p) n (asU32 p') n')
    (hs : I s.conn) : I s'.conn := by
  have haccess : ∀ {db : Db X}, s.conn.SameUpTo .atimeless db → I db ∧ s.conn.SameNames db :=
    fun hdb => ⟨hI.same hs hdb.timeless.sameNames, hdb.timeless.sameNames⟩
  have hadded : ∀ {kind parent name attr child} {db₁ db₂ : Db X},
      r.makes = some (kind, parent, name) → s.conn.SameUpTo .atimeless db₁ →
        db₁.Added (asU32 parent) name attr child db₂ → I db₂ := by
    intro kind parent name attr child db₁ db₂ hr hdb hadd
    obtain ⟨hn, hparent⟩ := promised_of_makes hr hp
    refine hI.added (haccess hdb).1 hadd hn ?_
    rwa [(haccess hdb).2.linkedDir]
  cases h with
  | quiet h => exact (haccess h.conn).1
  | looked_up _ hdb _ hs' => exact hs'.conn_eq ▸ (haccess hdb).1
  | made hr hdb hadd hcont hs' =>
    rw [hs'.conn_eq]
    rcases hcont with rfl | ⟨link, -, -, hlink⟩
    · exact hadded hr hdb hadd
    · exact hI.same (hadded hr hdb hadd) hlink.sameNames
  | half_made hr hdb hadd hs' => exact hs' ▸ hadded hr hdb hadd
  | linked h hs' => exact hs'.conn_eq ▸ hI.linked hs h hp.1 hp.2
  | removed hr hdb h hempty hs' =>
    obtain ⟨hn, hleaf⟩ := leaf_of_removes (hI.tree hs) hr hp hdb h hempty
    exact hs'.names hI (hI.unlinked (haccess hdb).1 h hn hleaf)
  | renamed hne h hs' =>
    obtain ⟨hn, hn', hp', hmove⟩ := hp
    have hbelow := (hI.tree hs).not_below hp' (hmove _ (h.next_eq hn)).1
    exact hs'.names hI (hI.moved hs h hn hn' hp' hbelow hne (hM _ _ _ _ rfl))
  | renamed_onto_itself hparent h hs' =>
    obtain ⟨hn, -, -, hmove⟩ := hp
    have hname := Db.next_eq_some_iff.2 ⟨hn, _, h.found, rfl⟩
    exact absurd (hparent ▸ hname) (hmove _ hname).2
  | forgot h =>
    cases h with
    | ignored => exact hs
    | counted_down _ _ hconn =>
      rw [hconn]
      split_ifs
      · exact hI.purged hs (s.conn.purged_collect _)
      · exact hs
    | too_much _ _ _ hconn => exact hconn ▸ hs
  | swept _ hs' => exact hs' ▸ hI.purged hs s.conn.purged_deleteAll
  | destroyed _ hs' =>
    rw [hs', conn_withConn]
    generalize (env.order s.lookupCount.keys).filter _ = l
    have hfold : ∀ (l : List ℕ) (db : Db X), I db → I (l.foldl Db.collect db) := by
      intro l
      induction l with
      | nil => exact fun _ h => h
      | cons i l ih => exact fun db h => ih _ (hI.purged h (db.purged_collect i))
    exact hfold l s.conn hs
  | wrote h hs' => exact hs' ▸ hI.same hs (Db.sameNames_of_writeSteps h)
  | updated _ _ h hs' => exact hs' ▸ hI.same hs h.sameNames
  | xattr_changed _ h hs' => exact hs' ▸ hI.same hs h.sameNames

/-- The kernel keeps its promises in a run: each request is promised in the state that it meets. -/
def Promised (s : SqliteFs X) : List (Env × Request) → Prop
  | [] => True
  | r :: rs => r.2.Promised s.conn ∧ (s.after r).Promised rs

/-- The rename gets as far as the database: both names are UTF-8, and the call does not fail. -/
def MoveIsTried (env : Env) (name newname : Bytes) : Prop :=
  isUtf8Aux 0 0 0 name = true ∧ isUtf8Aux 0 0 0 newname = true ∧ env.fails .moveDentry = false

theorem rename_of_not_tried {parent newparent : ℕ} {name newname : Bytes}
    (h : ¬ MoveIsTried env name newname) :
    (handle env (.rename parent name newparent newname) s).1 = s := by
  refine (outcome_fst _ s).trans (Proc.Ensures.fst (I := (· = s)) ?_)
  unfold rename
  simp only [Proc.ensures_bind, ensures_writable, ensures_toStr, ensures_callOr]
  exact ⟨fun _ => ⟨fun h₁ => ⟨fun h₂ => ⟨fun _ => trivial, fun hf => absurd ⟨h₁, h₂, hf⟩ h⟩,
    fun _ => trivial⟩, fun _ => trivial⟩, fun _ => trivial⟩

/-- If the request is a rename that gets as far as the database, it moves a name as `M` allows. -/
def MovesAs₁ (M : Db X → ℕ → Name → ℕ → Name → Prop) (s : SqliteFs X) (r : Env × Request) : Prop :=
  ∀ p n p' n', r.2 = .rename p n p' n' → MoveIsTried r.1 n n' →
    M s.conn (asU32 p) n (asU32 p') n'

/-- The renames of a run move names as `M` allows, each in the state that it meets. -/
def MovesAs (M : Db X → ℕ → Name → ℕ → Name → Prop) (s : SqliteFs X) : List (Env × Request) → Prop
  | [] => True
  | r :: rs => s.MovesAs₁ M r ∧ (s.after r).MovesAs M rs

/-- **What the steps of the namespace keep, a request keeps.** -/
theorem WritableMount.names_after (hI : Db.NamesClosed M I) (h : s.WritableMount) (hs : I s.conn)
    {r : Env × Request} (hp : r.2.Promised s.conn) (hM : s.MovesAs₁ M r) : I (s.after r).conn := by
  by_cases hstop : ∃ p n p' n', r.2 = .rename p n p' n' ∧ ¬ MoveIsTried r.1 n n'
  · obtain ⟨p, n, p', n', hr, hstop⟩ := hstop
    rw [SqliteFs.after, hr, rename_of_not_tried hstop]
    exact hs
  · refine (h.handle_effect r).names hI hp (fun p n p' n' hr => hM p n p' n' hr ?_) hs
    exact not_not.1 fun hn => hstop ⟨p, n, p', n', hr, hn⟩

/-- **What the steps of the namespace keep, every run keeps.** -/
theorem WritableMount.names_run (hI : Db.NamesClosed M I) (h : s.WritableMount) (hs : I s.conn)
    {rs : List (Env × Request)} (hp : s.Promised rs) (hM : s.MovesAs M rs) : I (s.run rs).conn := by
  induction rs generalizing s with
  | nil => exact hs
  | cons r rs ih => exact ih (h.after r) (h.names_after hI hs hp.1 hM.1) hp.2 hM.2

/-! ### Reachable states -/

theorem conn_of_mount {db : Sqlite} {now : Now} {conn : Db X}
    (h : mount db now conn false false = some s) :
    s = opened db (db.init now conn).1 false false := by
  unfold mount at h
  split at h
  · rename_i heq
    rw [heq]
    exact (Option.some.inj h).symm
  · exact absurd h (by simp)

/-- The states of writable mounts of a database made by `init`, where the kernel keeps its promises
and the renames move names as `M` allows. -/
inductive Reachable (M : Db X → ℕ → Name → ℕ → Name → Prop) : SqliteFs X → Prop
  | mounted {s : SqliteFs X} {db : Sqlite} {now : Now} (clock : ℕ → ℕ)
      (h : mount db now (Db.empty X clock) false false = some s) : Reachable M s
  | handled {s : SqliteFs X} (h : Reachable M s) (r : Env × Request) (hp : r.2.Promised s.conn)
      (hM : s.MovesAs₁ M r) : Reachable M (s.after r)
  | remounted {s s' : SqliteFs X} {db : Sqlite} {now : Now} (h : Reachable M s)
      (hs : mount db now s.conn false false = some s') : Reachable M s'

/-- **What a new database has and the steps of the namespace keep, every reachable state has.** -/
theorem Reachable.names (hI : Db.NamesClosed M I) (hroot : ∀ now db, db.OnlyRoot now → I db)
    (h : s.Reachable M) : s.WritableMount ∧ I s.conn := by
  induction h with
  | mounted clock h =>
    rename_i db now
    have honly : (db.init now (Db.empty X clock)).1.OnlyRoot now :=
      Db.onlyRoot_initialised clock db now
    obtain rfl := conn_of_mount h
    exact ⟨⟨rfl, rfl, honly.sqliteSequence.trans_lt (by decide)⟩, hroot _ _ honly⟩
  | handled h r hp hM ih => exact ⟨ih.1.after r, ih.1.names_after hI ih.2 hp hM⟩
  | remounted h hs ih =>
    rename_i s s' db now
    obtain ⟨hw, hi⟩ := ih
    obtain rfl := conn_of_mount hs
    have hinit := db.init_of_rootInPlace now (hI.tree hi).root
    have hkept := (keeps_applyDiffs (I := fun db' : Db X =>
      s.conn.SameNames db' ∧ db'.sqliteSequence = s.conn.sqliteSequence)
      (fun _ _ h => ⟨⟨h.1.dentry, h.1.kindOf⟩, h.2⟩) db.extensions).fst
        (s := s.conn) ⟨.refl _, rfl⟩
    rw [← hinit] at hkept
    exact ⟨⟨rfl, rfl, hkept.2.trans_lt hw.sequence_lt⟩, hI.same hi hkept.1⟩

theorem Reachable.run (h : s.Reachable M) {rs : List (Env × Request)} (hp : s.Promised rs)
    (hM : s.MovesAs M rs) : (s.run rs).Reachable M := by
  induction rs generalizing s with
  | nil => exact h
  | cons r rs ih => exact ih (h.handled r hp.1 hM.1) hp.2 hM.2

theorem reachable_sample (M : Db .sample → ℕ → Name → ℕ → Name → Prop) : sample.Reachable M :=
  .mounted id (show mount .new epoch (Db.empty .sample id) false false = some sample from rfl)

end SqliteFs

end TemporalFs
