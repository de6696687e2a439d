import Mathlib
import TemporalFs.Fs.Rules

/-!
# What a request can do

A request to a mount that is not rewound either changes nothing but access times, or has one of
the effects that `SqliteFs.Effect` lists, in terms of what lookups find in the tables. On a mount
that is not rewound the handlers read the present tables.

## Main definitions

* `SqliteFs.Accessed`: nothing but access times and open handles has changed.
* `SqliteFs.Forgotten`: what `forget` comes to.
* `SqliteFs.Effect`: what any request can do.

## Main results

* `SqliteFs.lookup_effect`, `SqliteFs.mkdir_effect` and so on, one for each handler.
* `SqliteFs.handle_effect`: every request has one of these effects.
-/

namespace TemporalFs

variable {X : Externals}

/-- The requests that ask for a change of what is stored. A read-only mount refuses them. -/
def Request.mutates : Request → Bool
  | .setattr .. | .mkdir .. | .unlink .. | .rmdir .. | .symlink .. | .rename .. | .link ..
  | .write .. | .setxattr .. | .removexattr .. | .create .. => true
  | _ => false

/-- The kind, the directory and the name of the inode that a request makes. -/
def Request.makes : Request → Option (FileType × ℕ × Bytes)
  | .mkdir parent name _ => some (.Directory, parent, name)
  | .symlink parent name _ => some (.Symlink, parent, name)
  | .create parent name _ => some (.RegularFile, parent, name)
  | _ => none

/-- The entry that a request removes: `unlink` and `rmdir` name one. -/
def Request.removes : Request → Option (ℕ × Bytes)
  | .unlink parent name => some (parent, name)
  | .rmdir parent name => some (parent, name)
  | _ => none

/-- An error reply, or a panic before any reply: the kernel has been told nothing else. -/
def Outcome.Failed : Outcome → Prop
  | .replied (.error _) => True
  | .crashed none => True
  | _ => False

/-- The inode that was handed out to the kernel, which counts a lookup for it. -/
def Outcome.named : Outcome → Option ℕ
  | .replied r => r.named
  | .crashed (some r) => r.named
  | _ => none

/-- What an early end of a handler comes to for the kernel. -/
def Exit.outcome : Exit → Outcome
  | .reply r => .replied r
  | .panic sent => .crashed sent

theorem Exit.Fails.failed {e : Exit} (h : e.Fails) : e.outcome.Failed := by
  cases e with
  | reply r => cases r <;> exact h
  | panic sent => cases sent <;> exact h

theorem Outcome.Failed.named_eq_none {out : Outcome} (h : out.Failed) : out.named = none := by
  cases out with
  | replied r => cases r <;> first | rfl | exact h.elim
  | silent => rfl
  | crashed sent =>
    cases sent with
    | none => rfl
    | some r => exact h.elim

/-- What `setattr` makes of the attributes `old`. -/
structure SqliteFs.SetAttr.Applied (req : SqliteFs.SetAttr) (old attr : DBFileAttr) : Prop where
  ino : attr.ino = old.ino
  size : attr.size = (req.size.map UInt32.ofNat).getD old.size
  atime : attr.atime = old.atime ∨ ∃ ts, req.atime = some ts ∧ datetimeFrom ts = some attr.atime
  mtime : attr.mtime = old.mtime ∨ ∃ ts, req.mtime = some ts ∧ datetimeFrom ts = some attr.mtime
  crtime : attr.crtime = old.crtime ∨
    ∃ ts, req.crtime = some ts ∧ datetimeFrom ts = some attr.crtime

/-- One step of `write`: a block is read, which records the access, or written. -/
def Db.WriteStep (i : ℕ) (db db' : Db X) : Prop :=
  db.SameUpTo .atimeless db' ∨ ∃ k bytes size, db.Written i k bytes size db'

namespace SqliteFs

open Proc

/-- Nothing but access times and open handles has changed. A request that only reads leaves such a
state, and so does one that is refused. -/
structure Accessed (s s' : SqliteFs X) : Prop where
  conn : s.conn.SameUpTo .atimeless s'.conn
  lookupCount : s'.lookupCount = s.lookupCount
  db : s'.db = s.db
  readOnly : s'.readOnly = s.readOnly
  rewind : s'.rewind = s.rewind

theorem Accessed.refl (s : SqliteFs X) : s.Accessed s := ⟨.refl _ _, rfl, rfl, rfl, rfl⟩

theorem Accessed.withConn {s : SqliteFs X} {db : Db X} (h : s.conn.SameUpTo .atimeless db) :
    s.Accessed (s.withConn db) :=
  ⟨h, rfl, rfl, rfl, rfl⟩

/-- The database is `db`, and `i` is counted once more unless that overflows. -/
def CountedTo (s : SqliteFs X) (db : Db X) (i : ℕ) (s' : SqliteFs X) : Prop :=
  s' = (s.withConn db).counted i ∨ (s' = s.withConn db ∧ s.Overflows i)

/-- The end of a request that took an entry from the inode `res`: an inode that the kernel does
not know is deleted if it has no entry left, or the deletion fails, and with it the request. -/
def Finishes (env : Env) (s : SqliteFs X) (db : Db X) (res : Option ℕ) (s' : SqliteFs X)
    (out : Outcome) : Prop :=
  match res with
  | none => s' = s.withConn db ∧ out = .replied .ok
  | some i =>
    (out = .replied .ok ∧ s' = s.withConn (if i ∈ s.lookupCount then db else db.collect i)) ∨
      (out = .replied (.error .ENOENT) ∧ i ∉ s.lookupCount ∧
        env.fails (.deleteInodeIfNoref i) = true ∧ s' = s.withConn db)

/-- The count of an inode after `forget`; a build without checks wraps. -/
def forgottenCount (s : SqliteFs X) (ino nlookup : ℕ) : ℕ :=
  let lc := (s.lookupCount.lookup ino).getD 0
  if asU32 nlookup ≤ lc then lc - asU32 nlookup else lc + 2 ^ 32 - asU32 nlookup

/-- What `forget` comes to. A build with checks panics where more is forgotten than was handed
out. -/
inductive Forgotten (env : Env) (s : SqliteFs X) (ino nlookup : ℕ) : SqliteFs X → Outcome → Prop
  | ignored (h : s.readOnly = true) : Forgotten env s ino nlookup s .silent
  | counted_down {s' : SqliteFs X} (hwritable : s.readOnly = false)
      (hcount : ∀ j, s'.lookupCount.lookup j = if j = asU32 ino then
        (if s.forgottenCount (asU32 ino) nlookup = 0 then none
          else some (s.forgottenCount (asU32 ino) nlookup)) else s.lookupCount.lookup j)
      (hconn : s'.conn = if s.forgottenCount (asU32 ino) nlookup = 0 ∧
        env.fails (.deleteInodeIfNoref (asU32 ino)) = false
        then s.conn.collect (asU32 ino) else s.conn)
      (hdb : s'.db = s.db) (hro : s'.readOnly = s.readOnly) (hre : s'.rewind = s.rewind) :
      Forgotten env s ino nlookup s' .silent
  | too_much {s' : SqliteFs X} (hchecked : env.checked = true)
      (hlt : (s.lookupCount.lookup (asU32 ino)).getD 0 < asU32 nlookup)
      (hcount : ∀ j, s'.lookupCount.lookup j = if j = asU32 ino then
        some ((s.lookupCount.lookup (asU32 ino)).getD 0) else s.lookupCount.lookup j)
      (hconn : s'.conn = s.conn) (hdb : s'.db = s.db) (hro : s'.readOnly = s.readOnly)
      (hre : s'.rewind = s.rewind) : Forgotten env s ino nlookup s' (.crashed none)

/-- **What a request can do** to a mount that is not rewound. -/
inductive Effect (env : Env) (s : SqliteFs X) : Request → SqliteFs X → Outcome → Prop
  /-- A request that only reads, or that failed before it changed anything. -/
  | quiet {r : Request} {s' : SqliteFs X} {out : Outcome} (h : s.Accessed s')
      (hnamed : out.named = none) (hfail : r.mutates = true → out.Failed) : Effect env s r s' out
  /-- `lookup`, and `create` of a name that exists. -/
  | looked_up {r : Request} {parent : ℕ} {name : Bytes} {e : DentryRow} {db : Db X}
      {s' : SqliteFs X} {out : Outcome}
      (hr : r = .lookup parent name ∨ ∃ mode, r = .create parent name mode)
      (hdb : s.conn.SameUpTo .atimeless db)
      (he : s.conn.dentry.find (asU32 parent, name) = some e)
      (hs : s.CountedTo db e.childId s') (hnamed : out.named = some e.childId) :
      Effect env s r s' out
  /-- `mkdir`, `symlink`, and `create` of a new name. -/
  | made {r : Request} {kind : FileType} {parent : ℕ} {name : Bytes} {perm : UInt16}
      {gid : UInt32} {child : ℕ} {db₁ db₂ db₃ : Db X} {s' : SqliteFs X} {out : Outcome}
      (hr : r.makes = some (kind, parent, name)) (hdb : s.conn.SameUpTo .atimeless db₁)
      (hadd : db₁.Added (asU32 parent) name (newAttr env kind perm gid) child db₂)
      (hcont : db₃ = db₂ ∨ ∃ link, r = .symlink parent name link ∧ link.length ≤ blockSize ∧
        db₂.Written child 1 link (UInt32.ofNat link.length) db₃)
      (hs : s.CountedTo db₃ child s') (hnamed : out.named = some child) : Effect env s r s' out
  /-- The inode was made, but the request failed after that. -/
  | half_made {r : Request} {kind : FileType} {parent : ℕ} {name : Bytes} {perm : UInt16}
      {gid : UInt32} {child : ℕ} {db₁ db₂ : Db X} {s' : SqliteFs X} {out : Outcome}
      (hr : r.makes = some (kind, parent, name)) (hdb : s.conn.SameUpTo .atimeless db₁)
      (hadd : db₁.Added (asU32 parent) name (newAttr env kind perm gid) child db₂)
      (hs : s' = s.withConn db₂) (hfail : out.Failed) : Effect env s r s' out
  | linked {ino parent : ℕ} {name : Bytes} {attr : DBFileAttr} {db : Db X} {s' : SqliteFs X}
      {out : Outcome} (h : s.conn.Linked (asU32 ino) (asU32 parent) name attr db)
      (hs : s.CountedTo db (asU32 ino) s') (hnamed : out.named = some (asU32 ino)) :
      Effect env s (.link ino parent name) s' out
  /-- `unlink` and `rmdir`. -/
  | removed {r : Request} {parent : ℕ} {name : Bytes} {child : ℕ} {db₁ db₂ : Db X}
      {s' : SqliteFs X} {out : Outcome} (hr : r.removes = some (parent, name))
      (hdb : s.conn.SameUpTo .atimeless db₁)
      (h : db₁.Unlinked (asU32 parent) name child db₂)
      (hempty : r = .rmdir parent name → directoryIsEmpty s.conn.dentry.rows child = true)
      (hs : s.Finishes env db₂ (some child) s' out) : Effect env s r s' out
  | renamed {parent newparent : ℕ} {name newname : Bytes} {e : DentryRow} {res : Option ℕ}
      {db : Db X} {s' : SqliteFs X} {out : Outcome}
      (hne : (asU32 parent, name) ≠ (asU32 newparent, newname))
      (h : s.conn.Moved (asU32 parent) name (asU32 newparent) newname e res db)
      (hs : s.Finishes env db res s' out) :
      Effect env s (.rename parent name newparent newname) s' out
  | renamed_onto_itself {parent newparent : ℕ} {name : Bytes} {e : DentryRow} {db : Db X}
      {s' : SqliteFs X} {out : Outcome} (hparent : asU32 newparent = asU32 parent)
      (h : s.conn.MovedOntoItself (asU32 parent) name e db)
      (hs : s.Finishes env db (some e.childId) s' out) :
      Effect env s (.rename parent name newparent name) s' out
  | forgot {ino nlookup : ℕ} {s' : SqliteFs X} {out : Outcome}
      (h : s.Forgotten env ino nlookup s' out) : Effect env s (.forget ino nlookup) s' out
  /-- `init` deletes the inodes that have no entry. -/
  | swept {s' : SqliteFs X} {out : Outcome}
      (hf : env.fails .deleteAllNorefInode = false)
      (hs : s' = s.withConn (s.conn.deleteAll s.conn.unnamed)) (hout : out = .silent) :
      Effect env s .init s' out
  | destroyed {s' : SqliteFs X} {out : Outcome} (hwritable : s.readOnly = false)
      (hs : s' = s.withConn (((env.order s.lookupCount.keys).filter fun i =>
        env.fails (.deleteInodeIfNoref i) = false).foldl Db.collect s.conn))
      (hout : out = .silent) : Effect env s .destroy s' out
  | wrote {ino fh : ℕ} {offset : ℤ} {data : Bytes} {db : Db X} {s' : SqliteFs X} {out : Outcome}
      (h : Relation.ReflTransGen (Db.WriteStep (asU32 ino)) s.conn db) (hs : s' = s.withConn db)
      (hnamed : out.named = none) : Effect env s (.write ino fh offset data) s' out
  | updated {ino : ℕ} {req : SetAttr} {old attr : DBFileAttr} {db : Db X} {s' : SqliteFs X}
      {out : Outcome} (hold : inodeAttr (asU32 ino) s.conn = .ok (some old))
      (hattr : req.Applied old attr) (h : s.conn.Updated attr (old.size > attr.size) db)
      (hs : s' = s.withConn db) (hnamed : out.named = none) : Effect env s (.setattr ino req) s' out
  | xattr_changed {r : Request} {ino : ℕ} {name : Bytes} {value : Option Bytes} {db : Db X}
      {s' : SqliteFs X} {out : Outcome}
      (hr : (∃ flags bytes, value = some bytes ∧ r = .setxattr ino name bytes flags) ∨
        (value = none ∧ r = .removexattr ino name))
      (h : s.conn.XattrChanged (asU32 ino) name value db) (hs : s' = s.withConn db)
      (hnamed : out.named = none) : Effect env s r s' out

/-- What the end of a request leaves of the database: it is as the request has made it, or one inode
more is deleted. -/
theorem Finishes.conn_eq_or {env : Env} {s s' : SqliteFs X} {db : Db X} {res : Option ℕ}
    {out : Outcome} (h : s.Finishes env db res s' out) :
    s'.conn = db ∨ ∃ j, j ∉ s'.lookupCount ∧ s'.conn = db.collect j := by
  cases res with
  | none => exact Or.inl (h.1 ▸ rfl)
  | some j =>
    rcases h with ⟨-, rfl⟩ | ⟨-, -, -, rfl⟩
    · by_cases hj : j ∈ s.lookupCount
      · rw [if_pos hj]
        exact Or.inl rfl
      · rw [if_neg hj]
        exact Or.inr ⟨j, hj, rfl⟩
    · exact Or.inl rfl

/-- A specification of a handler is one of its outcome, whether it returns or exits early. -/
theorem outcome_of_ensures {P : SqliteFs X → Outcome → Prop} {s : SqliteFs X}
    {h : Handler X Reply} (hh : h.Ensures s (fun reply s' => P s' (.replied reply))
      (fun e s' => P s' e.outcome)) : P (outcome h s).1 (outcome h s).2 := by
  unfold outcome
  unfold Ensures at hh
  rcases heq : h s with ⟨s', (reply | sent) | reply⟩ <;> rw [heq] at hh <;> exact hh

theorem silently_of_ensures {P : SqliteFs X → Outcome → Prop} {s : SqliteFs X}
    {h : Handler X Unit} (hh : h.Ensures s (fun _ s' => P s' .silent)
      (fun e s' => ∃ sent, e = .panic sent ∧ P s' (.crashed sent))) :
    P (silently h s).1 (silently h s).2 := by
  unfold silently
  unfold Ensures at hh
  rcases heq : h s with ⟨s', (reply | sent) | u⟩ <;> rw [heq] at hh
  · obtain ⟨_, h, -⟩ := hh
    exact absurd h (by simp)
  · obtain ⟨sent', h, hP⟩ := hh
    obtain rfl := Exit.panic.inj h
    exact hP
  · exact hh

section Handlers

variable {env : Env} {s : SqliteFs X}

/-- A failure that changed nothing is the least of all effects. -/
theorem effect_of_fails {r : Request} {s' : SqliteFs X} {e : Exit} (h : s.Accessed s')
    (he : e.Fails) : Effect env s r s' e.outcome :=
  .quiet h he.failed.named_eq_none fun _ => he.failed

theorem effect_of_stop {r : Request} {s' : SqliteFs X} {db : Db X} (onErr : ErrorKind → Errno)
    (e : Stop) (hs : s' = s.withConn db) (h : s.conn.SameUpTo .atimeless db) :
    Effect env s r s' (e.exit onErr).outcome :=
  effect_of_fails (hs ▸ .withConn h) (e.exit_fails onErr)

theorem effect_of_errno {r : Request} {s' : SqliteFs X} (h : s.Accessed s') (e : Errno) :
    Effect env s r s' (.replied (.error e)) :=
  effect_of_fails (e := .reply (.error e)) h trivial

theorem effect_of_panic {r : Request} {s' : SqliteFs X} (h : s.Accessed s') :
    Effect env s r s' (.crashed none) :=
  effect_of_fails (e := .panic none) h trivial

theorem lookup_effect (hre : s.rewind = false) (parent : ℕ) (name : Bytes) :
    (lookup env parent name).Ensures s
      (fun reply s' => Effect env s (.lookup parent name) s' (.replied reply))
      (fun e s' => Effect env s (.lookup parent name) s' e.outcome) := by
  simp only [lookup, ensures_bind, ensures_get, ensures_toStr, hre, Bool.false_eq_true, ↓reduceIte,
    ensures_callOrNoEnt, ensures_foundOrNoEnt, ensures_pure]
  refine ⟨fun _ => ⟨fun _ => effect_of_errno (.refl s) _, fun _ => ?_⟩,
    fun _ => effect_of_panic (.refl s)⟩
  refine (Sqlite.lookup_spec _ _ _ _ _).mono (fun found db h => ?_) fun e db h => ?_
  · obtain ⟨hfound, hdb⟩ := h
    refine ⟨fun attr hattr => ?_, fun _ => effect_of_errno (.withConn hdb) _⟩
    subst hattr
    obtain ⟨e, he, hino, -⟩ := lookupAttr_eq_ok_some hfound
    refine (countLookup_spec _ _).mono (fun _ s' hs' => ?_) fun ex s' hs' => ?_
    · exact .looked_up (Or.inl rfl) hdb he (Or.inl (hino ▸ hs')) (by rw [hino]; rfl)
    · obtain ⟨rfl, hs', hover⟩ := hs'
      exact .looked_up (Or.inl rfl) hdb he (Or.inr ⟨hs', hino ▸ hover⟩) (by rw [hino]; rfl)
  · exact effect_of_stop _ e rfl h

theorem getInode_spec (self : Sqlite) (i : ℕ) (db : Db X) :
    (self.getInode i).Ensures db (fun found db' => db' = db ∧ inodeAttr i db = .ok found)
      (fun _ db' => db' = db) :=
  (getInodeLocal_spec db i).mono (fun _ _ h => h) fun _ _ h => h.1

/-- The attributes that a mutating request reads first. Where they cannot be read the request fails
and has changed nothing. -/
theorem getInode_effect {r : Request} {α : Type} {i : ℕ} {f : DBFileAttr → Handler X α}
    {Q : α → SqliteFs X → Prop} (hf : ∀ a, inodeAttr i s.conn = .ok (some a) →
      (f a).Ensures s Q (fun e s' => Effect env s r s' e.outcome)) :
    (callOrNoEnt env .getInode (fun db => db.getInode i) >>= fun found =>
      foundOrNoEnt found >>= f).Ensures s Q (fun e s' => Effect env s r s' e.outcome) := by
  simp only [ensures_bind, ensures_callOrNoEnt, ensures_foundOrNoEnt]
  refine ⟨fun _ => effect_of_errno (.refl s) _, fun _ => ?_⟩
  refine (getInode_spec _ i s.conn).mono (fun found db h => ?_) fun e db h => ?_
  · obtain ⟨rfl, hfound⟩ := h
    exact ⟨fun a ha => hf a (ha ▸ hfound), fun _ => effect_of_errno (.refl s) _⟩
  · exact effect_of_stop _ e rfl (h ▸ .refl _ _)

/-- The count of an inode that a request hands out, as the last step of the request. -/
theorem countLookup_effect {r : Request} {db : Db X} {i : ℕ} {reply : Reply}
    (hnamed : reply.named = some i)
    (h : ∀ s' out, s.CountedTo db i s' → out.named = some i → Effect env s r s' out) :
    (countLookup env (some reply) i).Ensures (s.withConn db)
      (fun _ s' => Effect env s r s' (.replied reply))
      (fun e s' => Effect env s r s' e.outcome) := by
  refine (countLookup_spec _ _).mono (fun _ s' hs' => ?_) fun ex s' hs' => ?_
  · exact h s' _ (Or.inl hs') hnamed
  · obtain ⟨rfl, hs', hover⟩ := hs'
    exact h s' _ (Or.inr ⟨hs', hover⟩) hnamed

/-- The deletion that ends `unlink`, `rmdir` and `rename`. -/
theorem deleteUnlessLookedUp_effect {r : Request} {db : Db X} {i : ℕ}
    (h : ∀ s' out, s.Finishes env db (some i) s' out → Effect env s r s' out) :
    (deleteUnlessLookedUp env i).Ensures (s.withConn db)
      (fun _ s' => Effect env s r s' (.replied .ok)) (fun e s' => Effect env s r s' e.outcome) := by
  refine (deleteUnlessLookedUp_spec i).mono (fun _ s' hs' => ?_) fun e s' hs' => ?_
  · refine h s' _ (Or.inl ⟨rfl, hs'.trans ?_⟩)
    rw [lookupCount_withConn, conn_withConn, withConn_withConn]
    split_ifs <;> rfl
  · obtain ⟨rfl, hi, hf, hs'⟩ := hs'
    exact h s' _ (Or.inr ⟨rfl, hi, hf, hs'⟩)

theorem add_inode_effect {r : Request} {kind : FileType} {parent : ℕ} {name : Bytes}
    {perm : UInt16} {gid : UInt32} {db₁ : Db X} {α : Type} {f : ℕ → Handler X α}
    {Q : α → SqliteFs X → Prop} (hdb : s.conn.SameUpTo .atimeless db₁)
    (hf : ∀ child db₂, db₁.Added (asU32 parent) name (newAttr env kind perm gid) child db₂ →
      (f child).Ensures (s.withConn db₂) Q (fun e s' => Effect env s r s' e.outcome)) :
    (callOrNoEnt env .addInodeAndDentry (fun db => db.addInodeAndDentry
      (env.now .addInodeAndDentry) (asU32 parent) name (newAttr env kind perm gid)) >>=
      f).Ensures (s.withConn db₁) Q (fun e s' => Effect env s r s' e.outcome) := by
  simp only [ensures_bind, ensures_callOrNoEnt, conn_withConn, withConn_withConn, db_withConn]
  refine ⟨fun _ => effect_of_errno (.withConn hdb) _, fun _ => ?_⟩
  refine (Sqlite.addInodeAndDentry_spec _ _ _ _ _ _).mono (fun child db h => hf child db h)
    fun e db h => ?_
  exact effect_of_stop _ e rfl (h ▸ hdb)

theorem mkdir_effect (parent : ℕ) (name : Bytes) (mode : ℕ) :
    (mkdir env parent name mode).Ensures s
      (fun reply s' => Effect env s (.mkdir parent name mode) s' (.replied reply))
      (fun e s' => Effect env s (.mkdir parent name mode) s' e.outcome) := by
  unfold mkdir
  rw [ensures_bind, ensures_writable]
  refine ⟨fun _ => getInode_effect fun a _ => ?_, fun _ => effect_of_errno (.refl s) _⟩
  rw [ensures_bind, ensures_toStr]
  refine ⟨fun _ => ?_, fun _ => effect_of_panic (.refl s)⟩
  refine add_inode_effect (Db.SameUpTo.refl _ s.conn) fun child db hadd => ?_
  rw [ensures_bind]
  exact countLookup_effect rfl fun s' out hs hnamed =>
    .made rfl (.refl _ _) hadd (Or.inl rfl) hs hnamed

theorem symlink_effect (parent : ℕ) (name link : Bytes) :
    (symlink env parent name link).Ensures s
      (fun reply s' => Effect env s (.symlink parent name link) s' (.replied reply))
      (fun e s' => Effect env s (.symlink parent name link) s' e.outcome) := by
  unfold symlink
  rw [ensures_bind, ensures_writable]
  refine ⟨fun _ => ?_, fun _ => effect_of_errno (.refl s) _⟩
  rw [ensures_bind, ensures_toStr]
  refine ⟨fun _ => ?_, fun _ => effect_of_panic (.refl s)⟩
  refine add_inode_effect (Db.SameUpTo.refl _ s.conn) fun child db hadd => ?_
  have hhalf : ∀ e : Exit, e.Fails →
      Effect env s (.symlink parent name link) (s.withConn db) e.outcome :=
    fun e he => .half_made rfl (.refl _ _) hadd rfl he.failed
  simp only [ensures_bind, ensures_toStr, ensures_require, ensures_callOrNoEnt, conn_withConn,
    db_withConn, withConn_withConn]
  refine ⟨fun _ => ⟨fun hlen => ⟨fun _ => hhalf (.reply (.error .ENOENT)) trivial, fun _ => ?_⟩,
    fun _ => hhalf (.reply (.error .ENAMETOOLONG)) trivial⟩, fun _ => hhalf (.panic none) trivial⟩
  refine (Sqlite.writeData_spec _ _ _ _ _ _ _).mono (fun _ db₃ h => ?_) fun e db₃ h => ?_
  · exact countLookup_effect rfl fun s' out hs hnamed =>
      .made rfl (.refl _ _) hadd (Or.inr ⟨link, rfl, hlen, h⟩) hs hnamed
  · rw [h.1]
    exact hhalf _ (e.exit_fails _)

theorem create_effect (parent : ℕ) (name : Bytes) (mode : ℕ) :
    (create env parent name mode).Ensures s
      (fun reply s' => Effect env s (.create parent name mode) s' (.replied reply))
      (fun e s' => Effect env s (.create parent name mode) s' e.outcome) := by
  unfold create
  simp only [ensures_bind, ensures_writable, ensures_toStr, ensures_callOrNoEnt]
  refine ⟨fun _ => ⟨fun _ => ⟨fun _ => effect_of_errno (.refl s) _, fun _ => ?_⟩,
    fun _ => effect_of_panic (.refl s)⟩, fun _ => effect_of_errno (.refl s) _⟩
  refine (Sqlite.lookup_spec _ _ _ _ _).mono (fun found db h => ?_)
    fun e db h => effect_of_stop _ e rfl h
  obtain ⟨hfound, hdb⟩ := h
  cases found with
  | some attr =>
    obtain ⟨e, he, hino, -⟩ := lookupAttr_eq_ok_some hfound
    rw [createInode, ensures_pure]
    refine (countLookup_spec _ _).mono (fun _ s' hs' => ?_) fun ex s' hs' => ?_
    · exact .looked_up (Or.inr ⟨mode, rfl⟩) hdb he (Or.inl (hino ▸ hs')) (by rw [hino]; rfl)
    · obtain ⟨rfl, hs', -⟩ := hs'
      exact effect_of_panic (hs' ▸ .withConn hdb)
  | none =>
    unfold createInode
    simp only [ensures_bind, ensures_callOrNoEnt, ensures_foundOrNoEnt]
    refine ⟨fun _ => effect_of_errno (.withConn hdb) _, fun _ => ?_⟩
    refine (getInode_spec _ _ _).mono (fun found db' h => ?_) fun e db' h => ?_
    rotate_left
    · exact effect_of_stop _ e rfl (h ▸ hdb)
    obtain ⟨rfl, -⟩ := h
    refine ⟨fun a _ => ?_, fun _ => effect_of_errno (.withConn hdb) _⟩
    refine ⟨fun _ => effect_of_errno (.withConn hdb) _, fun _ => ?_⟩
    refine (Sqlite.addInodeAndDentry_spec _ _ _ _ _ _).mono (fun child db₂ hadd => ?_)
      fun e db₂ h => effect_of_stop _ e rfl (h ▸ hdb)
    rw [ensures_pure]
    refine (countLookup_spec _ _).mono (fun _ s' hs' => ?_) fun ex s' hs' => ?_
    · exact .made rfl hdb hadd (Or.inl rfl) (Or.inl hs') rfl
    · obtain ⟨rfl, hs', -⟩ := hs'
      exact .half_made rfl hdb hadd hs' trivial

theorem unlink_effect (parent : ℕ) (name : Bytes) :
    (unlink env parent name).Ensures s
      (fun reply s' => Effect env s (.unlink parent name) s' (.replied reply))
      (fun e s' => Effect env s (.unlink parent name) s' e.outcome) := by
  unfold unlink
  simp only [ensures_bind, ensures_writable, ensures_toStr, ensures_callOrNoEnt, ensures_pure]
  refine ⟨fun _ => ⟨fun _ => ⟨fun _ => effect_of_errno (.refl s) _, fun _ => ?_⟩,
    fun _ => effect_of_panic (.refl s)⟩, fun _ => effect_of_errno (.refl s) _⟩
  refine (Sqlite.deleteDentry_spec _ _ _ _ _).mono (fun child db h => ?_)
    fun e db h => effect_of_stop _ e rfl (h ▸ .refl _ _)
  exact deleteUnlessLookedUp_effect fun s' out hs =>
    .removed rfl (.refl _ _) h (fun hr => by simp at hr) hs

theorem rmdir_effect (parent : ℕ) (name : Bytes) :
    (rmdir env parent name).Ensures s
      (fun reply s' => Effect env s (.rmdir parent name) s' (.replied reply))
      (fun e s' => Effect env s (.rmdir parent name) s' e.outcome) := by
  unfold rmdir
  simp only [ensures_bind, ensures_writable, ensures_toStr, ensures_callOrNoEnt, ensures_pure,
    ensures_foundOrNoEnt, ensures_require]
  refine ⟨fun _ => ⟨fun _ => ⟨fun _ => effect_of_errno (.refl s) _, fun _ => ?_⟩,
    fun _ => effect_of_panic (.refl s)⟩, fun _ => effect_of_errno (.refl s) _⟩
  refine (Sqlite.lookup_spec _ _ _ _ _).mono (fun found db h => ?_)
    fun e db h => effect_of_stop _ e rfl h
  obtain ⟨hfound, hdb⟩ := h
  refine ⟨fun attr hattr => ⟨fun _ => effect_of_errno (.withConn hdb) _, fun _ => ?_⟩,
    fun _ => effect_of_errno (.withConn hdb) _⟩
  subst hattr
  obtain ⟨e, he, hino, -⟩ := lookupAttr_eq_ok_some hfound
  unfold Sqlite.checkDirectoryIsEmpty checkDirectoryIsEmptyLocal
  simp only [ensures_bind, ensures_get, ensures_pure, conn_withConn, db_withConn,
    withConn_withConn]
  refine ⟨fun hempty => ⟨fun _ => effect_of_errno (.withConn hdb) _, fun _ => ?_⟩,
    fun _ => effect_of_errno (.withConn hdb) _⟩
  refine (Sqlite.deleteDentry_spec _ _ _ _ _).mono (fun child db₂ h => ?_)
    fun e db₂ h => effect_of_stop _ e rfl (h ▸ hdb)
  have hchild : child = attr.ino := by
    obtain ⟨e', he', rfl⟩ := h.found
    rw [hdb.dentry, he] at he'
    exact Option.some.inj he' ▸ hino
  rw [hdb.dentry, ← hchild] at hempty
  exact deleteUnlessLookedUp_effect fun s' out hs => .removed rfl hdb h (fun _ => hempty) hs

theorem rename_effect (parent : ℕ) (name : Bytes) (newparent : ℕ) (newname : Bytes) :
    (rename env parent name newparent newname).Ensures s
      (fun reply s' => Effect env s (.rename parent name newparent newname) s' (.replied reply))
      (fun e s' => Effect env s (.rename parent name newparent newname) s' e.outcome) := by
  unfold rename
  simp only [ensures_bind, ensures_writable, ensures_toStr, ensures_callOr, ensures_pure]
  refine ⟨fun _ => ⟨fun _ => ⟨fun _ => ⟨fun _ => effect_of_errno (.refl s) _, fun _ => ?_⟩,
    fun _ => effect_of_panic (.refl s)⟩, fun _ => effect_of_panic (.refl s)⟩,
    fun _ => effect_of_errno (.refl s) _⟩
  have hfinish : ∀ res db, (∀ s' out, s.Finishes env db res s' out →
      Effect env s (.rename parent name newparent newname) s' out) →
      (deleteOverwritten env res).Ensures (s.withConn db)
        (fun _ s' => Effect env s (.rename parent name newparent newname) s' (.replied .ok))
        (fun e s' => Effect env s (.rename parent name newparent newname) s' e.outcome) := by
    intro res db h
    cases res with
    | none => exact h _ _ ⟨rfl, rfl⟩
    | some i => exact deleteUnlessLookedUp_effect h
  by_cases hne : (asU32 parent, name) = (asU32 newparent, newname)
  · obtain ⟨hparent, rfl⟩ := Prod.mk.inj hne
    rw [← hparent]
    refine (Sqlite.moveDentry_onto_itself_spec _ _ _ _ _).mono (fun res db h => ?_)
      fun e db h => effect_of_stop _ e rfl (h ▸ .refl _ _)
    obtain ⟨e, rfl, h⟩ := h
    exact hfinish _ _ fun s' out hs => .renamed_onto_itself hparent.symm h hs
  · refine (Sqlite.moveDentry_spec _ _ hne _).mono (fun res db h => ?_)
      fun e db h => effect_of_stop _ e rfl (h ▸ .refl _ _)
    obtain ⟨e, h⟩ := h
    exact hfinish _ _ fun s' out hs => .renamed hne h hs

theorem link_effect (ino parent : ℕ) (name : Bytes) :
    (link env ino parent name).Ensures s
      (fun reply s' => Effect env s (.link ino parent name) s' (.replied reply))
      (fun e s' => Effect env s (.link ino parent name) s' e.outcome) := by
  unfold link
  simp only [ensures_bind, ensures_writable, ensures_toStr, ensures_callOr, ensures_pure]
  refine ⟨fun _ => ⟨fun _ => ⟨fun _ => effect_of_errno (.refl s) _, fun _ => ?_⟩,
    fun _ => effect_of_panic (.refl s)⟩, fun _ => effect_of_errno (.refl s) _⟩
  refine (Sqlite.linkDentry_spec _ _ _ _ _ _).mono (fun attr db h => ?_)
    fun e db h => effect_of_stop _ e rfl (h ▸ .refl _ _)
  have hino := ino_of_inodeAttr h.found
  exact countLookup_effect (by rw [← hino]; rfl) fun s' out hs hnamed => .linked h hs hnamed

theorem setTime_spec (present : SystemTime) (ts : Option Timespec) :
    (setTime present ts).Ensures s
      (fun t s' => s' = s ∧ (t = present ∨ ∃ ts', ts = some ts' ∧ datetimeFrom ts' = some t))
      (fun e s' => e = .panic none ∧ s' = s) := by
  cases ts with
  | none => exact ⟨rfl, Or.inl rfl⟩
  | some ts =>
    unfold setTime
    rw [ensures_ofOption]
    exact ⟨fun t ht => ⟨rfl, Or.inr ⟨ts, rfl, ht⟩⟩, fun _ => ⟨rfl, rfl⟩⟩

theorem setattr_effect (ino : ℕ) (req : SetAttr) :
    (setattr env ino req).Ensures s
      (fun reply s' => Effect env s (.setattr ino req) s' (.replied reply))
      (fun e s' => Effect env s (.setattr ino req) s' e.outcome) := by
  unfold setattr
  rw [ensures_bind, ensures_writable]
  refine ⟨fun _ => getInode_effect fun old hold => ?_, fun _ => effect_of_errno (.refl s) _⟩
  have hpanic : ∀ (e : Exit) (s' : SqliteFs X), e = .panic none ∧ s' = s →
      Effect env s (.setattr ino req) s' e.outcome := by
    rintro e s' ⟨rfl, rfl⟩
    exact effect_of_panic (.refl _)
  rw [ensures_bind]
  refine (setTime_spec _ _).mono (fun atime s₁ h₁ => ?_) hpanic
  obtain ⟨rfl, hatime⟩ := h₁
  rw [ensures_bind]
  refine (setTime_spec _ _).mono (fun mtime s₂ h₂ => ?_) hpanic
  obtain ⟨rfl, hmtime⟩ := h₂
  rw [ensures_bind]
  refine (setTime_spec _ _).mono (fun crtime s₃ h₃ => ?_) hpanic
  obtain ⟨rfl, hcrtime⟩ := h₃
  simp only [ensures_bind, ensures_callOrNoEnt, ensures_pure]
  refine ⟨fun _ => effect_of_errno (.refl _) _, fun _ => ?_⟩
  refine (Sqlite.updateInode_spec _ _ _ _ _).mono (fun _ db h => ?_)
    fun e db h => effect_of_stop _ e rfl (h.1 ▸ .refl _ _)
  exact .updated hold (by exact ⟨rfl, rfl, hatime, hmtime, hcrtime⟩) h rfl rfl

theorem setxattr_effect (ino : ℕ) (name value : Bytes) (flags : ℕ) :
    (setxattr env ino name value flags).Ensures s
      (fun reply s' => Effect env s (.setxattr ino name value flags) s' (.replied reply))
      (fun e s' => Effect env s (.setxattr ino name value flags) s' e.outcome) := by
  unfold setxattr
  have hset : (callOrNoEnt env .setXattr fun db =>
      db.setXattr (env.now .setXattr) (asU32 ino) name value).Ensures s
        (fun _ s' => Effect env s (.setxattr ino name value flags) s' (.replied .ok))
        (fun e s' => Effect env s (.setxattr ino name value flags) s' e.outcome) := by
    rw [ensures_callOrNoEnt]
    refine ⟨fun _ => effect_of_errno (.refl s) _, fun _ => ?_⟩
    refine (Sqlite.setXattr_spec _ _ _ _ _ _).mono (fun _ db h => ?_)
      fun e db h => effect_of_stop _ e rfl (h.1 ▸ .refl _ _)
    exact .xattr_changed (Or.inl ⟨flags, value, rfl, rfl⟩) h.2 rfl rfl
  simp only [ensures_bind, ensures_writable, ensures_toStr, ensures_when, ensures_call,
    ensures_pure]
  refine ⟨fun _ => ⟨fun _ => ⟨fun _ => ⟨fun _ => effect_of_errno (.refl s) _, fun _ => ?_⟩,
    fun _ => hset⟩, fun _ => effect_of_panic (.refl s)⟩, fun _ => effect_of_errno (.refl s) _⟩
  -- the attribute is looked up, and the flags are checked against what was found
  have hcheck : ∀ found, (checkXattrFlags flags found).Ensures s
      (fun _ s' => (callOrNoEnt env .setXattr fun db =>
        db.setXattr (env.now .setXattr) (asU32 ino) name value).Ensures s'
          (fun _ s' => Effect env s (.setxattr ino name value flags) s' (.replied .ok))
          (fun e s' => Effect env s (.setxattr ino name value flags) s' e.outcome))
      (fun e s' => Effect env s (.setxattr ino name value flags) s' e.outcome) := by
    intro found
    unfold checkXattrFlags
    split
    · exact (ensures_require _ _).2 ⟨fun _ => hset, fun _ => effect_of_errno (.refl s) _⟩
    · exact (ensures_require _ _).2 ⟨fun _ => hset, fun _ => effect_of_errno (.refl s) _⟩
    · exact effect_of_errno (.refl s) _
  unfold Sqlite.getXattr
  simp only [ensures_bind, ensures_get, ensures_ofOption, ensures_pure]
  exact ⟨fun r _ => hcheck _, fun _ => hcheck _⟩

theorem removexattr_effect (ino : ℕ) (name : Bytes) :
    (removexattr env ino name).Ensures s
      (fun reply s' => Effect env s (.removexattr ino name) s' (.replied reply))
      (fun e s' => Effect env s (.removexattr ino name) s' e.outcome) := by
  unfold removexattr
  simp only [ensures_bind, ensures_writable, ensures_toStr, ensures_callOrNoEnt, ensures_pure]
  refine ⟨fun _ => ⟨fun _ => ⟨fun _ => effect_of_errno (.refl s) _, fun _ => ?_⟩,
    fun _ => effect_of_panic (.refl s)⟩, fun _ => effect_of_errno (.refl s) _⟩
  refine (Sqlite.deleteXattr_spec _ _ _ _ _).mono (fun _ db h => ?_) fun _ _ h => h.elim
  exact .xattr_changed (Or.inr ⟨rfl, rfl⟩) h rfl rfl

/-! ### Writing -/

/-- What `write` may have done so far. -/
def Writing (s : SqliteFs X) (i : ℕ) (s' : SqliteFs X) : Prop :=
  ∃ db, Relation.ReflTransGen (Db.WriteStep i) s.conn db ∧ s' = s.withConn db

section Preserves

variable {P : Exit → Prop} {I : SqliteFs X → Prop}

theorem preserves_callOrNoEnt {α : Type} (c : Call) (m : Sqlite → Conn X α)
    (hm : ∀ s, I s → (m s.db).Ensures s.conn (fun _ db => I (s.withConn db))
      fun _ db => I (s.withConn db)) : (callOrNoEnt env c m).Preserves Exit.Fails I := by
  intro s hs
  rw [ensures_callOrNoEnt]
  exact ⟨fun _ => ⟨trivial, hs⟩, fun _ => (hm s hs).mono (fun _ _ h => h)
    fun e _ h => ⟨e.exit_fails _, h⟩⟩

variable (hP : P (.panic none))

include hP

theorem preserves_u32Add (a b : ℕ) : (u32Add env none a b).Preserves P I :=
  preserves_ite (preserves_pure _) (preserves_ite (preserves_stop hP) (preserves_pure _))

theorem preserves_u32Sub (a b : ℕ) : (u32Sub env a b).Preserves P I :=
  preserves_ite (preserves_pure _) (preserves_ite (preserves_stop hP) (preserves_pure _))

theorem preserves_slice (data : Bytes) (lo hi : ℕ) : (slice data lo hi).Preserves P I :=
  preserves_bind (preserves_require hP) fun _ => preserves_pure _

theorem preserves_lastByte (offset size : ℕ) : (lastByte env offset size).Preserves P I :=
  preserves_bind (preserves_u32Add hP _ _) fun _ => preserves_u32Sub hP _ _

/-- A block of a write stops where it panics, and where its calls stop. -/
theorem preserves_writeBlock {i k : ℕ}
    (hget : (callOrNoEnt env (.getData k) fun db =>
      db.getData (env.now (.getData k)) i k blockSize).Preserves P I)
    (hput : ∀ bytes size, (callOrNoEnt env (.writeData k) fun db =>
      db.writeData (env.now (.writeData k)) i k bytes size).Preserves P I)
    (offset size : ℕ) (data : Bytes) (first last : ℕ) :
    (writeBlock env i offset size data first last k).Preserves P I := by
  refine preserves_bind (preserves_ite (preserves_bind (preserves_lastByte hP _ _)
    fun _ => preserves_pure _) (preserves_pure _)) fun b_end => ?_
  refine preserves_bind (preserves_ite (preserves_bind hget fun pre => ?_) ?_) fun block =>
    preserves_bind (preserves_u32Add hP _ _) fun _ => hput _ _
  · exact preserves_bind (preserves_slice hP _ _ _) fun _ => preserves_bind
      (preserves_u32Add hP _ _) fun _ => preserves_bind (preserves_u32Sub hP _ _)
        fun _ => preserves_bind (preserves_slice hP _ _ _) fun _ => preserves_bind
          (preserves_slice hP _ _ _) fun _ => preserves_pure _
  · refine preserves_bind ?_ ?_
    · exact preserves_u32Add hP _ _
    · exact fun _ => preserves_slice hP _ _ _

end Preserves

theorem writeBlock_preserves (s : SqliteFs X) (i offset size : ℕ) (data : Bytes)
    (first last k : ℕ) :
    (writeBlock env i offset size data first last k).Preserves Exit.Fails (s.Writing i) := by
  refine preserves_writeBlock trivial ?_ (fun bytes n => ?_) _ _ _ _ _
  · refine preserves_callOrNoEnt _ _ ?_
    rintro s₁ ⟨db₁, hdb₁, rfl⟩
    exact (Sqlite.getData_spec _ _ _ _ _ _).mono
      (fun _ db h => ⟨db, hdb₁.tail (Or.inl h.2), rfl⟩) fun _ _ h => h.elim
  · refine preserves_callOrNoEnt _ _ ?_
    rintro s₁ ⟨db₁, hdb₁, rfl⟩
    refine (Sqlite.writeData_spec _ _ _ _ _ _ _).mono (fun _ db h => ?_) fun _ db h => ?_
    · exact ⟨db, hdb₁.tail (Or.inr ⟨k, bytes, _, h⟩), rfl⟩
    · exact ⟨db₁, hdb₁, by rw [h.1]; rfl⟩

theorem write_effect (ino fh : ℕ) (offset : ℤ) (data : Bytes) :
    (write env ino offset data).Ensures s
      (fun reply s' => Effect env s (.write ino fh offset data) s' (.replied reply))
      (fun e s' => Effect env s (.write ino fh offset data) s' e.outcome) := by
  unfold write
  rw [ensures_bind, ensures_writable]
  refine ⟨fun _ => ?_, fun _ => effect_of_errno (.refl s) _⟩
  have hdone : ∀ (out : Outcome) s', out.named = none → s.Writing (asU32 ino) s' →
      Effect env s (.write ino fh offset data) s' out := by
    rintro out s' hnamed ⟨db, hdb, hs'⟩
    exact .wrote hdb hs' hnamed
  rw [ensures_bind]
  refine (preserves_lastByte (P := Exit.Fails) (I := s.Writing (asU32 ino)) trivial _ _ s
    ⟨s.conn, .refl, rfl⟩).mono
    (fun last s₁ h₁ => ?_) fun e s' h => hdone _ s' h.1.failed.named_eq_none h.2
  rw [ensures_bind]
  exact (preserves_each (writeBlock_preserves s _ _ _ _ _ _) _ s₁ h₁).mono
    (fun _ s' h => hdone _ s' rfl h) fun e s' h => hdone _ s' h.1.failed.named_eq_none h.2

/-! ### Reading -/

theorem Accessed.trans {s s' s'' : SqliteFs X} (h : s.Accessed s') (h' : s'.Accessed s'') :
    s.Accessed s'' :=
  ⟨h.conn.trans h'.conn, h'.lookupCount.trans h.lookupCount, h'.db.trans h.db,
    h'.readOnly.trans h.readOnly, h'.rewind.trans h.rewind⟩

theorem readBlock_preserves (s : SqliteFs X) (i k length : ℕ) :
    (readBlock env i k length).Preserves Exit.Fails s.Accessed := by
  refine preserves_bind (fun s₁ hs₁ => hs₁) fun self => preserves_callOrNoEnt _ _ fun s₂ hs₂ => ?_
  split_ifs
  · exact (Sqlite.getDataAtTime_spec _ _ _ _ _ _).mono (fun _ _ h => hs₂.trans (.withConn h))
      fun _ _ h => hs₂.trans (.withConn (h ▸ .refl _ _))
  · exact (Sqlite.getData_spec _ _ _ _ _ _).mono (fun _ _ h => hs₂.trans (.withConn h.2))
      fun _ _ h => h.elim

theorem readLoop_preserves (s : SqliteFs X) (ino : ℕ) (fuel size offset : ℕ) (data : Bytes) :
    (readLoop env ino fuel size offset data).Preserves Exit.Fails s.Accessed := by
  induction fuel generalizing size offset data with
  | zero => exact preserves_pure _
  | succ fuel ih =>
    exact preserves_ite (preserves_pure _) (preserves_bind (readBlock_preserves s _ _ _)
      fun _ => preserves_bind (preserves_u32Add trivial _ _) fun _ => preserves_bind
        (preserves_slice trivial _ _ _) fun _ => preserves_bind (preserves_u32Add trivial _ _)
          fun _ => ih _ _ _)

theorem queryTemp_spec {α : Type} (self : Sqlite) (f : TempTables → Except Stop α) (db : Db X) :
    (self.queryTemp f).Ensures db (fun _ db' => db' = db) (fun _ db' => db' = db) :=
  self.keeps_queryTemp (I := (· = db)) f db rfl

theorem readInode_preserves (s : SqliteFs X) (i : ℕ) :
    (readInode env i).Preserves Exit.Fails s.Accessed := by
  refine preserves_bind (fun s₁ hs₁ => hs₁) fun self => preserves_bind
    (preserves_callOrNoEnt _ _ fun s₁ hs₁ => ?_) fun _ => preserves_ofOption trivial
  split_ifs
  · exact (queryTemp_spec _ _ _).mono (fun _ _ h => hs₁.trans (.withConn (h ▸ .refl _ _)))
      fun _ _ h => hs₁.trans (.withConn (h ▸ .refl _ _))
  · exact (getInode_spec _ _ _).mono (fun _ _ h => hs₁.trans (.withConn (h.1 ▸ .refl _ _)))
      fun _ _ h => hs₁.trans (.withConn (h ▸ .refl _ _))

/-- A request that only reads has one effect: the access is recorded. -/
theorem reads_effect {r : Request} {h : Handler X Reply} (hr : r.mutates = false)
    (hh : h.Ensures s (fun reply s' => reply.named = none ∧ s.Accessed s')
      (fun e s' => e.Fails ∧ s.Accessed s')) :
    h.Ensures s (fun reply s' => Effect env s r s' (.replied reply))
      (fun e s' => Effect env s r s' e.outcome) :=
  hh.mono (fun _ _ h => .quiet h.2 h.1 fun hm => by simp [hr] at hm)
    fun _ _ h => effect_of_fails h.2 h.1

/-- The reply of a program that keeps what it reads. -/
theorem ensures_reply {α : Type} {x : Handler X α} {f : α → Handler X Reply}
    (hx : x.Preserves Exit.Fails s.Accessed)
    (hf : ∀ a s', s.Accessed s' →
      (f a).Ensures s' (fun reply s' => reply.named = none ∧ s.Accessed s')
      (fun e s' => e.Fails ∧ s.Accessed s')) :
    (x >>= f).Ensures s (fun reply s' => reply.named = none ∧ s.Accessed s')
      (fun e s' => e.Fails ∧ s.Accessed s') :=
  (ensures_bind _ _).2 ((hx s (.refl s)).mono (fun a s' h => hf a s' h) fun _ _ h => h)

theorem getattr_effect (ino : ℕ) : (getattr env ino).Ensures s
    (fun reply s' => Effect env s (.getattr ino) s' (.replied reply))
    (fun e s' => Effect env s (.getattr ino) s' e.outcome) :=
  reads_effect rfl <| ensures_reply (readInode_preserves s _) fun _ _ h => ⟨rfl, h⟩

theorem readlink_effect (ino : ℕ) : (readlink env ino).Ensures s
    (fun reply s' => Effect env s (.readlink ino) s' (.replied reply))
    (fun e s' => Effect env s (.readlink ino) s' e.outcome) := by
  refine reads_effect rfl <| ensures_reply (readInode_preserves s _) fun attr s₁ h₁ => ?_
  simp only [ensures_bind, ensures_require, ensures_pure]
  refine ⟨fun _ => ?_, fun _ => ⟨trivial, h₁⟩⟩
  exact (readBlock_preserves s _ _ _ s₁ h₁).mono (fun _ _ h => ⟨rfl, h⟩) fun _ _ h => h

theorem read_effect (ino fh : ℕ) (offset : ℤ) (size : ℕ) : (read env ino offset size).Ensures s
    (fun reply s' => Effect env s (.read ino fh offset size) s' (.replied reply))
    (fun e s' => Effect env s (.read ino fh offset size) s' e.outcome) :=
  reads_effect rfl <| ensures_reply (readLoop_preserves s ino _ _ _ _) fun _ _ h => ⟨rfl, h⟩

theorem open_effect (ino flags : ℕ) : («open» env ino flags).Ensures s
    (fun reply s' => Effect env s (.open ino flags) s' (.replied reply))
    (fun e s' => Effect env s (.open ino flags) s' e.outcome) := by
  refine reads_effect rfl ?_
  simp only [«open», ensures_bind, ensures_get, ensures_require, ensures_modify, ensures_pure]
  exact ⟨fun _ => ⟨rfl, .refl _ _, rfl, rfl, rfl, rfl⟩, fun _ => ⟨trivial, .refl s⟩⟩

theorem release_effect (ino fh : ℕ) : (release env ino fh).Ensures s
    (fun reply s' => Effect env s (.release ino fh) s' (.replied reply))
    (fun e s' => Effect env s (.release ino fh) s' e.outcome) :=
  reads_effect rfl ⟨rfl, .refl _ _, rfl, rfl, rfl, rfl⟩

theorem releasedir_effect (ino fh : ℕ) : (releasedir env ino fh).Ensures s
    (fun reply s' => Effect env s (.releasedir ino fh) s' (.replied reply))
    (fun e s' => Effect env s (.releasedir ino fh) s' e.outcome) :=
  reads_effect rfl ⟨rfl, .refl _ _, rfl, rfl, rfl, rfl⟩

theorem opendir_effect (ino : ℕ) : (opendir env ino).Ensures s
    (fun reply s' => Effect env s (.opendir ino) s' (.replied reply))
    (fun e s' => Effect env s (.opendir ino) s' e.outcome) := by
  refine reads_effect rfl <| ensures_reply (fun _ h => h) fun self s₁ h₁ => ?_
  refine (ensures_bind _ _).2 ((preserves_callOrNoEnt (I := s.Accessed) _ _ (fun s₂ h₂ => ?_) s₁
    h₁).mono (fun _ s₃ h₃ => ⟨rfl, h₃.trans ⟨.refl _ _, rfl, rfl, rfl, rfl⟩⟩) fun _ _ h => h)
  split_ifs
  · exact (queryTemp_spec _ _ _).mono (fun _ _ h => h₂.trans (.withConn (h ▸ .refl _ _)))
      fun _ _ h => h₂.trans (.withConn (h ▸ .refl _ _))
  · exact h₂

theorem readdir_effect (ino fh : ℕ) (offset : ℤ) (size : ℕ) :
    (readdir env ino fh offset size).Ensures s
      (fun reply s' => Effect env s (.readdir ino fh offset size) s' (.replied reply))
      (fun e s' => Effect env s (.readdir ino fh offset size) s' e.outcome) := by
  refine reads_effect rfl ?_
  simp only [readdir, ensures_bind, ensures_get, ensures_foundOrNoEnt, ensures_pure]
  exact ⟨fun _ _ => ⟨rfl, .refl s⟩, fun _ => ⟨trivial, .refl s⟩⟩

theorem statfs_effect (ino : ℕ) : (statfs env).Ensures s
    (fun reply s' => Effect env s (.statfs ino) s' (.replied reply))
    (fun e s' => Effect env s (.statfs ino) s' e.outcome) :=
  reads_effect rfl <| ensures_reply (preserves_ofOption trivial) fun _ _ h => ⟨rfl, h⟩

theorem xattrReply_named (size : ℕ) (data : Bytes) : (xattrReply size data).named = none := by
  unfold xattrReply
  split_ifs <;> rfl

theorem getxattr_effect (ino : ℕ) (name : Bytes) (size : ℕ) :
    (getxattr env ino name size).Ensures s
      (fun reply s' => Effect env s (.getxattr ino name size) s' (.replied reply))
      (fun e s' => Effect env s (.getxattr ino name size) s' e.outcome) := by
  refine reads_effect rfl ?_
  simp only [getxattr, ensures_bind, ensures_get, ensures_toStr, ensures_callOr, ensures_pure]
  refine ⟨fun _ => ⟨fun _ => ⟨trivial, .refl s⟩, fun _ => ?_⟩, fun _ => ⟨trivial, .refl s⟩⟩
  by_cases hre : s.rewind = true
  · simp only [hre, ↓reduceIte]
    exact (queryTemp_spec _ _ _).mono
      (fun _ _ h => ⟨xattrReply_named _ _, .withConn (h ▸ .refl _ _)⟩)
      fun e _ h => ⟨e.exit_fails _, .withConn (h ▸ .refl _ _)⟩
  · simp only [hre, Bool.false_eq_true, ↓reduceIte, Sqlite.getXattr, ensures_bind, ensures_get,
      ensures_ofOption, ensures_pure]
    exact ⟨fun _ _ => ⟨xattrReply_named _ _, .refl s⟩, fun _ => ⟨trivial, .refl s⟩⟩

theorem listxattr_effect (ino size : ℕ) : (listxattr env ino size).Ensures s
    (fun reply s' => Effect env s (.listxattr ino size) s' (.replied reply))
    (fun e s' => Effect env s (.listxattr ino size) s' e.outcome) := by
  refine reads_effect rfl ?_
  simp only [listxattr, ensures_bind, ensures_get, ensures_callOr, ensures_pure]
  refine ⟨fun _ => ⟨trivial, .refl s⟩, fun _ => ?_⟩
  split_ifs
  · exact (queryTemp_spec _ _ _).mono
      (fun _ _ h => ⟨xattrReply_named _ _, .withConn (h ▸ .refl _ _)⟩)
      fun e _ h => ⟨e.exit_fails _, .withConn (h ▸ .refl _ _)⟩
  · exact ⟨xattrReply_named _ _, .refl s⟩

/-! ### Requests without a reply -/

theorem init_effect (hre : s.rewind = false) : (init env).Ensures s
    (fun _ s' => Effect env s .init s' .silent)
    (fun e s' => ∃ sent, e = .panic sent ∧ Effect env s .init s' (.crashed sent)) := by
  simp only [init, ensures_bind, ensures_get, ensures_when, hre, true_implies,
    ensures_callIgnoring, not_true_eq_false, false_implies, and_true]
  refine ⟨fun _ => .quiet (.refl s) rfl (by simp [Request.mutates]), fun hf => ?_⟩
  refine (Sqlite.deleteAllNorefInode_spec _ _).mono (fun _ db h => ?_) fun _ _ h => h.elim
  exact .swept hf (h ▸ rfl) rfl

/-- The counted inodes without an entry are deleted, unless the deletion fails. -/
theorem destroy_spec : (destroy env).Ensures s
    (fun _ s' => s' = if s.readOnly = true then s
      else s.withConn (((env.order s.lookupCount.keys).filter fun i =>
        env.fails (.deleteInodeIfNoref i) = false).foldl Db.collect s.conn))
    (fun _ _ => False) := by
  have hloop : ∀ (l : List ℕ) (db : Db X),
      (Proc.each (fun key => callIgnoring env (.deleteInodeIfNoref key)
        fun db => db.deleteInodeIfNoref key) l).Ensures (s.withConn db)
        (fun _ s' => s' = s.withConn ((l.filter fun i =>
          env.fails (.deleteInodeIfNoref i) = false).foldl Db.collect db))
        (fun _ _ => False) := by
    intro l
    induction l with
    | nil => exact fun db => rfl
    | cons i l ih =>
      intro db
      refine (ensures_bind _ _).2 ((ensures_callIgnoring _ _).2 ⟨fun hf => ?_, fun hf => ?_⟩)
      · rw [List.filter_cons_of_neg (by simp [hf])]
        exact ih db
      · rw [List.filter_cons_of_pos (by simp [hf])]
        refine (Sqlite.deleteInodeIfNoref_spec _ _ i).mono (fun _ db' h => ?_)
          fun _ _ h => h.elim
        exact h ▸ ih (db.collect i)
  simp only [destroy, ensures_bind, ensures_get, ensures_when]
  refine ⟨fun hro => ?_, fun hro => ?_⟩
  · rw [if_neg (by simp [hro])]
    exact hloop _ s.conn
  · exact (if_pos (Bool.not_eq_false _ ▸ hro)).symm

theorem destroy_effect : (destroy env).Ensures s (fun _ s' => Effect env s .destroy s' .silent)
    (fun e s' => ∃ sent, e = .panic sent ∧ Effect env s .destroy s' (.crashed sent)) := by
  refine destroy_spec.mono (fun _ s' h => ?_) fun _ _ h => h.elim
  by_cases hro : s.readOnly = true
  · rw [h, if_pos hro]
    exact .quiet (.refl s) rfl (by simp [Request.mutates])
  · rw [if_neg hro] at h
    exact .destroyed (Bool.eq_false_iff.2 hro) h rfl

variable (env) in
/-- The last step of `forget`, with the new count `n`. -/
theorem set_count_spec {ino nlookup n : ℕ} (lc : ℕ) (hro : s.readOnly = false)
    (hn : n = s.forgottenCount (asU32 ino) nlookup) :
    (if n = 0 then (do
        Proc.modify fun self : SqliteFs X =>
          { self with lookupCount := self.lookupCount.erase (asU32 ino) }
        callIgnoring env (.deleteInodeIfNoref (asU32 ino)) fun db =>
          db.deleteInodeIfNoref (asU32 ino))
      else
        Proc.modify fun self : SqliteFs X =>
          { self with lookupCount := self.lookupCount.insert (asU32 ino) n } :
            Handler X Unit).Ensures
      { s with lookupCount := s.lookupCount.insert (asU32 ino) lc }
      (fun _ s' => s.Forgotten env ino nlookup s' .silent) (fun _ _ => False) := by
  rw [ensures_ite]
  constructor
  · intro h₀
    have hcount : ∀ j, ((s.lookupCount.insert (asU32 ino) lc).erase (asU32 ino)).lookup j =
        if j = asU32 ino then
          (if s.forgottenCount (asU32 ino) nlookup = 0 then none
            else some (s.forgottenCount (asU32 ino) nlookup)) else s.lookupCount.lookup j := by
      intro j
      by_cases hj : j = asU32 ino
      · subst hj
        simp only [hn.symm.trans h₀, ↓reduceIte, AList.lookup_erase]
      · simp only [hj, ↓reduceIte]
        rw [AList.lookup_erase_ne hj, AList.lookup_insert_ne hj]
    simp only [ensures_bind, ensures_modify, ensures_callIgnoring]
    refine ⟨fun hf => ?_, fun hf => ?_⟩
    · exact .counted_down hro hcount (by rw [if_neg fun h => by simp [hf] at h]) rfl rfl rfl
    · refine (Sqlite.deleteInodeIfNoref_spec _ _ _).mono (fun _ db h => ?_) fun _ _ h => h.elim
      exact .counted_down hro hcount (by rw [if_pos ⟨hn ▸ h₀, hf⟩]; exact h) rfl rfl rfl
  · intro h₀
    have h₁ : s.forgottenCount (asU32 ino) nlookup ≠ 0 := fun h => h₀ (hn.trans h)
    refine .counted_down hro (fun j => ?_) (by rw [if_neg fun h => h₁ h.1]) rfl rfl rfl
    by_cases hj : j = asU32 ino
    · subst hj
      simp only [h₁, ↓reduceIte, AList.lookup_insert, hn]
    · simp only [hj, ↓reduceIte]
      rw [AList.lookup_insert_ne hj, AList.lookup_insert_ne hj]

theorem forget_spec (ino nlookup : ℕ) : (forget env ino nlookup).Ensures s
    (fun _ s' => s.Forgotten env ino nlookup s' .silent)
    (fun e s' => ∃ sent, e = .panic sent ∧ s.Forgotten env ino nlookup s' (.crashed sent)) := by
  simp only [forget, ensures_bind, ensures_get, ensures_when, ensures_modify]
  refine ⟨fun hro => ?_, fun hro => .ignored ((Bool.not_eq_false _).mp hro)⟩
  have hset : ∀ lc n, n = s.forgottenCount (asU32 ino) nlookup → _ := fun lc n hn =>
    (set_count_spec env lc hro hn).mono (fun _ _ h => h)
      (F := fun e s' => ∃ sent, e = .panic sent ∧ s.Forgotten env ino nlookup s' (.crashed sent))
      fun _ _ h => h.elim
  rw [ensures_u32Sub]
  refine ⟨fun hle => hset _ _ ?_, fun hlt => ⟨fun hc => ?_, fun _ => hset _ _ ?_⟩⟩
  · simp only [forgottenCount, hle, ↓reduceIte]
  · refine ⟨none, rfl, .too_much hc (by omega) (fun j => ?_) rfl rfl rfl rfl⟩
    by_cases hj : j = asU32 ino
    · rw [if_pos hj, hj, AList.lookup_insert]
    · rw [if_neg hj, AList.lookup_insert_ne hj]
  · simp only [forgottenCount, hlt, ↓reduceIte]

end Handlers

theorem handle_forgotten (env : Env) (s : SqliteFs X) (ino nlookup : ℕ) :
    s.Forgotten env ino nlookup (handle env (.forget ino nlookup) s).1
      (handle env (.forget ino nlookup) s).2 :=
  silently_of_ensures (P := s.Forgotten env ino nlookup) (forget_spec ino nlookup)

/-- **What a request can do** to a mount that is not rewound. -/
theorem handle_effect (env : Env) {s : SqliteFs X} (hre : s.rewind = false) (r : Request) :
    Effect env s r (handle env r s).1 (handle env r s).2 := by
  cases r with
  | init => exact silently_of_ensures (init_effect hre)
  | destroy => exact silently_of_ensures destroy_effect
  | lookup parent name => exact outcome_of_ensures (lookup_effect hre parent name)
  | forget ino nlookup => exact .forgot (handle_forgotten env s ino nlookup)
  | getattr ino => exact outcome_of_ensures (getattr_effect ino)
  | setattr ino attrs => exact outcome_of_ensures (setattr_effect ino attrs)
  | readlink ino => exact outcome_of_ensures (readlink_effect ino)
  | mkdir parent name mode => exact outcome_of_ensures (mkdir_effect parent name mode)
  | unlink parent name => exact outcome_of_ensures (unlink_effect parent name)
  | rmdir parent name => exact outcome_of_ensures (rmdir_effect parent name)
  | symlink parent name link => exact outcome_of_ensures (symlink_effect parent name link)
  | rename p n p' n' => exact outcome_of_ensures (rename_effect p n p' n')
  | link ino parent name => exact outcome_of_ensures (link_effect ino parent name)
  | «open» ino flags => exact outcome_of_ensures (open_effect ino flags)
  | read ino fh offset size => exact outcome_of_ensures (read_effect ino fh offset size)
  | write ino fh offset data => exact outcome_of_ensures (write_effect ino fh offset data)
  | release ino fh => exact outcome_of_ensures (release_effect ino fh)
  | opendir ino => exact outcome_of_ensures (opendir_effect ino)
  | readdir ino fh offset size => exact outcome_of_ensures (readdir_effect ino fh offset size)
  | releasedir ino fh => exact outcome_of_ensures (releasedir_effect ino fh)
  | statfs ino => exact outcome_of_ensures (statfs_effect ino)
  | setxattr ino name value flags => exact outcome_of_ensures (setxattr_effect ino name value flags)
  | getxattr ino name size => exact outcome_of_ensures (getxattr_effect ino name size)
  | listxattr ino size => exact outcome_of_ensures (listxattr_effect ino size)
  | removexattr ino name => exact outcome_of_ensures (removexattr_effect ino name)
  | create parent name mode => exact outcome_of_ensures (create_effect parent name mode)
  | unimplemented =>
    exact .quiet (.refl s) rfl (by simp [Request.mutates])

end SqliteFs

end TemporalFs
