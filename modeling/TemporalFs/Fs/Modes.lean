import Mathlib
import TemporalFs.Db.CollectOrder
import TemporalFs.Fs.Effects

/-!
# Mounts that differ in times

A mount may record times or not, and the clock may give it any times. What it stores and what it
replies is the same, up to the times themselves: two mounts that are sent the same requests hold the
same contents, in every run, as long as the times that requests set can be stored. A `destroy` goes
through a hash map, and the order of that map must not matter.

## Main definitions

* `Reply.timeless`, `Outcome.timeless`: what is replied, without times.
* `SqliteFs.SameButTimes`: file systems that differ in times.
* `SqliteFs.Twins`: the states of two mounts that are sent the same requests.

## Main results

* `SqliteFs.destroy_sameButTimes`: what a `destroy` deletes, in whatever order.
* `SqliteFs.handle_sameButTimes`: a request does the same to file systems that differ in times.
* `SqliteFs.Twins.serve_alike`: two mounts serve the same requests alike in every run.
-/

namespace TemporalFs

open Proc

variable {X : Externals}

/-! ### Replies without times -/

/-- The attributes without their times. -/
def FileAttr.timeless (a : FileAttr) : FileAttr :=
  { a with atime := ⟨0, 0⟩, mtime := ⟨0, 0⟩, ctime := ⟨0, 0⟩, crtime := ⟨0, 0⟩ }

/-- The reply without the times of its attributes. -/
def Reply.timeless : Reply → Reply
  | .entry ttl fa generation => .entry ttl fa.timeless generation
  | .attr ttl fa => .attr ttl fa.timeless
  | .created ttl fa generation fh flags => .created ttl fa.timeless generation fh flags
  | r => r

/-- What the kernel gets to see, without times. -/
def Outcome.timeless : Outcome → Outcome
  | .replied r => .replied r.timeless
  | .silent => .silent
  | .crashed sent => .crashed (sent.map Reply.timeless)

/-- How a handler ends, without times. -/
def Exit.timeless : Exit → Exit
  | .reply r => .reply r.timeless
  | .panic sent => .panic (sent.map Reply.timeless)

theorem DBFileAttr.SameButTimes.getFileAttr {a a' : DBFileAttr} (h : a.SameButTimes a') :
    a.getFileAttr.timeless = a'.getFileAttr.timeless := by
  obtain ⟨hino, hsize, hblocks, -, -, -, -, hkind, hperm, hnlink, huid, hgid, hrdev, hflags⟩ :=
    DBFileAttr.mk.inj h.timeless
  simp only [DBFileAttr.getFileAttr, FileAttr.timeless, hino, hsize, hblocks, hkind, hperm, hnlink,
    huid, hgid, hrdev, hflags]

theorem DBFileAttr.SameButTimes.withIno {a a' : DBFileAttr} (h : a.SameButTimes a') (i : ℕ) :
    DBFileAttr.SameButTimes { a with ino := i } { a' with ino := i } :=
  ⟨congrArg (fun a : DBFileAttr => { a with ino := i }) h.timeless, h.left, h.right⟩

/-! ### File systems that differ in times -/

/-- The surroundings differ in the clock, and in the order that their hash maps have. -/
structure Env.SameButClock (env env' : Env) : Prop where
  fails : env.fails = env'.fails
  uid : env.uid = env'.uid
  gid : env.gid = env'.gid
  checked : env.checked = env'.checked
  statvfs : env.statvfs = env'.statvfs

namespace SqliteFs

/-- The file systems differ in times, and in whether they record them. None is rewound. -/
structure SameButTimes (s t : SqliteFs X) : Prop where
  conn : s.conn.SameButTimes t.conn
  extensions : s.db.extensions = t.db.extensions
  lookupCount : s.lookupCount = t.lookupCount
  openFileHandler : s.openFileHandler = t.openFileHandler
  openDirHandler : s.openDirHandler = t.openDirHandler
  readOnly : s.readOnly = t.readOnly
  left : s.rewind = false
  right : t.rewind = false

/-- Runs of the handlers from file systems that differ in times end alike. -/
abbrev AlikeHandlers {α β : Type} (V : α → β → Prop) (x : Handler X α) (y : Handler X β) : Prop :=
  Alike SameButTimes V (fun e f : Exit => e.timeless = f.timeless) x y

variable {env env' : Env}

section Parts

theorem alike_call (henv : env.SameButClock env') (c : Call) {α β : Type} {V : α → β → Prop}
    {m : Sqlite → Conn X α} {m' : Sqlite → Conn X β}
    (hm : ∀ db db' : Sqlite, db.extensions = db'.extensions → AlikeButTimes V (m db) (m' db')) :
    AlikeHandlers (Matches V Eq) (call env c m) (call env' c m') := by
  intro s t h
  unfold call
  rw [henv.fails]
  by_cases hfails : env'.fails c = true
  · rw [if_pos hfails, if_pos hfails]
    exact ⟨h, .ok (.error rfl)⟩
  rw [if_neg hfails, if_neg hfails]
  obtain ⟨hconn, hres⟩ := hm s.db t.db h.extensions s.conn t.conn h.conn
  generalize m s.db s.conn = p at hconn hres ⊢
  generalize m' t.db t.conn = p' at hconn hres ⊢
  obtain ⟨conn, res⟩ := p
  obtain ⟨conn', res'⟩ := p'
  have hst : SameButTimes { s with conn := conn } { t with conn := conn' } :=
    { h with conn := hconn }
  cases hres with
  | ok hV => exact ⟨hst, .ok (.ok hV)⟩
  | @error e f he =>
    subst he
    cases e with
    | err kind => exact ⟨hst, .ok (.error rfl)⟩
    | panic => exact ⟨hst, .error rfl⟩

theorem alike_callOr (henv : env.SameButClock env') (c : Call) {α β : Type} {V : α → β → Prop}
    {m : Sqlite → Conn X α} {m' : Sqlite → Conn X β} (onErr : ErrorKind → Errno)
    (hm : ∀ db db' : Sqlite, db.extensions = db'.extensions → AlikeButTimes V (m db) (m' db')) :
    AlikeHandlers V (callOr env c m onErr) (callOr env' c m' onErr) := by
  refine alike_bind (alike_call henv c hm) fun r r' hr => ?_
  cases hr with
  | ok hV => exact alike_pure hV
  | error he =>
    subst he
    exact alike_stop rfl

theorem alike_callOrNoEnt (henv : env.SameButClock env') (c : Call) {α β : Type} {V : α → β → Prop}
    {m : Sqlite → Conn X α} {m' : Sqlite → Conn X β}
    (hm : ∀ db db' : Sqlite, db.extensions = db'.extensions → AlikeButTimes V (m db) (m' db')) :
    AlikeHandlers V (callOrNoEnt env c m) (callOrNoEnt env' c m') :=
  alike_callOr henv c _ hm

theorem alike_callIgnoring (henv : env.SameButClock env') (c : Call) {m m' : Sqlite → Conn X Unit}
    (hm : ∀ db db' : Sqlite, db.extensions = db'.extensions → AlikeButTimes Eq (m db) (m' db')) :
    AlikeHandlers Eq (callIgnoring env c m) (callIgnoring env' c m') :=
  alike_bind (alike_call henv c hm) fun _ _ _ => alike_pure rfl

theorem alike_foundOrNoEnt {α β : Type} {V : α → β → Prop} {o : Option α} {o' : Option β}
    (h : Option.Rel V o o') :
    AlikeHandlers V (foundOrNoEnt o : Handler X α) (foundOrNoEnt o') :=
  alike_ofOption h rfl

theorem alike_writable : AlikeHandlers Eq (writable : Handler X Unit) writable :=
  alike_bind alike_get fun _ _ h => alike_require (by rw [h.readOnly]) rfl

theorem alike_toStr (name : Bytes) :
    AlikeHandlers Eq (toStr name : Handler X Name) (toStr name) :=
  alike_bind_eq (alike_require Iff.rfl rfl) fun _ => alike_pure rfl

theorem alike_slice (data : Bytes) (lo hi : ℕ) :
    AlikeHandlers Eq (slice data lo hi : Handler X Bytes) (slice data lo hi) :=
  alike_bind_eq (alike_require Iff.rfl rfl) fun _ => alike_pure rfl

theorem alike_u32Add (henv : env.SameButClock env') {sent sent' : Option Reply}
    (h : sent.map Reply.timeless = sent'.map Reply.timeless) (a b : ℕ) :
    AlikeHandlers Eq (u32Add env sent a b : Handler X ℕ) (u32Add env' sent' a b) :=
  alike_ite Iff.rfl (alike_pure rfl) (alike_ite (by rw [henv.checked])
    (alike_stop (congrArg Exit.panic h)) (alike_pure rfl))

theorem alike_u32Sub (henv : env.SameButClock env') (a b : ℕ) :
    AlikeHandlers Eq (u32Sub env a b : Handler X ℕ) (u32Sub env' a b) :=
  alike_ite Iff.rfl (alike_pure rfl) (alike_ite (by rw [henv.checked]) (alike_stop rfl)
    (alike_pure rfl))

theorem alike_lastByte (henv : env.SameButClock env') (offset size : ℕ) :
    AlikeHandlers Eq (lastByte env offset size : Handler X ℕ) (lastByte env' offset size) :=
  alike_bind_eq (alike_u32Add henv rfl _ _) fun _ => alike_u32Sub henv _ _

theorem alike_countLookup (henv : env.SameButClock env') {sent sent' : Option Reply}
    (hsent : sent.map Reply.timeless = sent'.map Reply.timeless) (i : ℕ) :
    AlikeHandlers Eq (countLookup env sent i : Handler X Unit) (countLookup env' sent' i) := by
  refine alike_bind alike_get fun s t h => ?_
  rw [h.lookupCount]
  refine alike_bind_eq (alike_u32Add henv hsent _ _) fun lc => alike_modify fun s t h => ?_
  exact { h with lookupCount := congrArg (·.insert i lc) h.lookupCount }

theorem alike_deleteUnlessLookedUp (henv : env.SameButClock env') (i : ℕ) :
    AlikeHandlers Eq (deleteUnlessLookedUp env i : Handler X Unit)
      (deleteUnlessLookedUp env' i) :=
  alike_bind alike_get fun s t h => alike_when (by rw [h.lookupCount]) <|
    alike_callOrNoEnt henv _ fun db db' _ => db.alike_deleteInodeIfNoref db' i

theorem alike_readInode (henv : env.SameButClock env') (i : ℕ) :
    AlikeHandlers DBFileAttr.SameButTimes (readInode env i : Handler X DBFileAttr)
      (readInode env' i) := by
  refine alike_bind alike_get fun s t h => ?_
  refine alike_bind (alike_callOrNoEnt henv _ fun db db' _ => ?_) fun o o' ho =>
    alike_foundOrNoEnt ho
  rw [h.left, h.right]
  exact db.alike_getInode db' i

theorem alike_readBlock (henv : env.SameButClock env') (i k length : ℕ) :
    AlikeHandlers Eq (readBlock env i k length : Handler X Bytes)
      (readBlock env' i k length) := by
  refine alike_bind alike_get fun s t h => ?_
  refine alike_callOrNoEnt henv _ fun db db' _ => ?_
  rw [h.left, h.right]
  exact db.alike_getData db' _ _ i k length

/-- The attributes of an inode about to be made. -/
theorem newAttr_sameButTimes (henv : env.SameButClock env') (kind : FileType) (perm : UInt16)
    (gid : UInt32) : (newAttr env kind perm gid).SameButTimes (newAttr env' kind perm gid) := by
  refine ⟨?_, ⟨env.start.kept, env.start.kept, env.start.kept, env.start.kept⟩, env'.start.kept,
    env'.start.kept, env'.start.kept, env'.start.kept⟩
  simp only [newAttr, DBFileAttr.timeless, henv.uid]

/-- The replies to a name that was found or made. -/
theorem entry_timeless {a a' : DBFileAttr} (h : a.SameButTimes a') :
    (Reply.entry oneSec a.getFileAttr 0).timeless =
      (Reply.entry oneSec a'.getFileAttr 0).timeless :=
  congrArg (fun fa => Reply.entry oneSec fa 0) h.getFileAttr

/-- The end of the handlers that hand out an inode. -/
theorem alike_hand_out (henv : env.SameButClock env') {a a' : DBFileAttr} (h : a.SameButTimes a')
    (i : ℕ) : AlikeHandlers (fun r r' : Reply => r.timeless = r'.timeless)
      (do
        countLookup env (some (.entry oneSec a.getFileAttr 0)) i
        pure (.entry oneSec a.getFileAttr 0) : Handler X Reply)
      (do
        countLookup env' (some (.entry oneSec a'.getFileAttr 0)) i
        pure (.entry oneSec a'.getFileAttr 0)) := by
  have hsent : (some (Reply.entry oneSec a.getFileAttr 0)).map Reply.timeless =
      (some (Reply.entry oneSec a'.getFileAttr 0)).map Reply.timeless :=
    congrArg some (entry_timeless h)
  exact alike_bind_eq (alike_countLookup henv hsent i) fun _ => alike_pure (entry_timeless h)

end Parts

/-! ### The handlers -/

/-- Replies that differ in times. -/
abbrev AlikeReplies (x y : Handler X Reply) : Prop :=
  AlikeHandlers (fun r r' : Reply => r.timeless = r'.timeless) x y

/-- The times that the request sets can be stored. -/
def SetAttr.TimesKept (req : SetAttr) : Prop :=
  ∀ ts, req.atime = some ts ∨ req.mtime = some ts ∨ req.crtime = some ts →
    ∀ t, datetimeFrom ts = some t → t.Kept

section Handlers

variable (henv : env.SameButClock env')

include henv

theorem alike_init : AlikeHandlers Eq (init env : Handler X Unit) (init env') :=
  alike_bind alike_get fun _ _ h => alike_when (by rw [h.left, h.right]) <|
    alike_callIgnoring henv _ fun db db' _ => db.alike_deleteAllNorefInode db'

theorem alike_lookup (parent : ℕ) (name : Bytes) :
    AlikeReplies (lookup env parent name : Handler X Reply) (lookup env' parent name) := by
  refine alike_bind alike_get fun s t h => ?_
  refine alike_bind_eq (alike_toStr name) fun name => ?_
  rw [h.left, h.right]
  refine alike_bind (alike_callOrNoEnt henv _ fun db db' _ => db.alike_lookup db' _ _ _ _)
    fun o o' ho => ?_
  refine alike_bind (alike_foundOrNoEnt ho) fun v v' hv => ?_
  have hino : v.ino = v'.ino := (DBFileAttr.mk.inj hv.timeless).1
  rw [hino]
  exact alike_hand_out henv hv _

theorem alike_forget (ino nlookup : ℕ) :
    AlikeHandlers Eq (forget env ino nlookup : Handler X Unit) (forget env' ino nlookup) := by
  refine alike_bind alike_get fun s t h => alike_when (by rw [h.readOnly]) ?_
  have hcount : ∀ f : (AList fun _ : ℕ => ℕ) → AList fun _ : ℕ => ℕ,
      AlikeHandlers Eq (Proc.modify fun self => { self with lookupCount := f self.lookupCount } :
        Handler X Unit)
        (Proc.modify fun self => { self with lookupCount := f self.lookupCount }) := fun f =>
    alike_modify fun s t h => { h with lookupCount := congrArg f h.lookupCount }
  rw [h.lookupCount]
  refine alike_bind_eq (hcount fun l => l.insert (asU32 ino) _) fun _ => ?_
  refine alike_bind_eq (alike_u32Sub henv _ _) fun lc => alike_ite Iff.rfl ?_ ?_
  · exact alike_bind_eq (hcount fun l => l.erase (asU32 ino)) fun _ =>
      alike_callIgnoring henv _ fun db db' _ => db.alike_deleteInodeIfNoref db' _
  · exact hcount fun l => l.insert (asU32 ino) lc

theorem alike_getattr (ino : ℕ) :
    AlikeReplies (getattr env ino : Handler X Reply) (getattr env' ino) :=
  alike_bind (alike_readInode henv _) fun _ _ hv => alike_pure <|
    congrArg (fun fa => Reply.attr oneSec fa) hv.getFileAttr

omit henv in
theorem alike_setTime {present present' : SystemTime} (h : present.Kept) (h' : present'.Kept)
    {o : Option Timespec} (ho : ∀ ts, o = some ts → ∀ t, datetimeFrom ts = some t → t.Kept) :
    AlikeHandlers (fun u u' => u.Kept ∧ u'.Kept) (setTime present o : Handler X SystemTime)
      (setTime present' o) := by
  cases o with
  | none => exact alike_pure ⟨h, h'⟩
  | some ts =>
    refine alike_ofOption ?_ rfl
    cases ht : datetimeFrom ts with
    | none => exact .none
    | some t => exact .some ⟨ho ts rfl t ht, ho ts rfl t ht⟩

theorem alike_setattr (ino : ℕ) {req : SetAttr} (hreq : req.TimesKept) :
    AlikeReplies (setattr env ino req : Handler X Reply) (setattr env' ino req) := by
  refine alike_bind_eq alike_writable fun _ => ?_
  refine alike_bind (alike_callOrNoEnt henv _ fun db db' _ => db.alike_getInode db' _)
    fun o o' ho => ?_
  refine alike_bind (alike_foundOrNoEnt ho) fun old old' hold => ?_
  obtain ⟨hino, hsize, hblocks, -, -, -, -, hkind, hperm, hnlink, huid, hgid, hrdev, hflags⟩ :=
    DBFileAttr.mk.inj hold.timeless
  refine alike_bind (alike_setTime hold.left.1 hold.right.1 fun ts h => hreq ts (Or.inl h))
    fun at₁ at₂ hat => ?_
  refine alike_bind (alike_setTime hold.left.2.1 hold.right.2.1 fun ts h =>
    hreq ts (Or.inr (Or.inl h))) fun mt₁ mt₂ hmt => ?_
  refine alike_bind (alike_setTime hold.left.2.2.2 hold.right.2.2.2 fun ts h =>
    hreq ts (Or.inr (Or.inr h))) fun crt₁ crt₂ hcrt => ?_
  have hattr : DBFileAttr.SameButTimes
      { old with
        perm := (req.mode.map UInt16.ofNat).getD old.perm
        uid := req.uid.getD old.uid
        gid := req.gid.getD old.gid
        size := (req.size.map UInt32.ofNat).getD old.size
        atime := at₁, mtime := mt₁, crtime := crt₁
        flags := req.flags.getD old.flags }
      { old' with
        perm := (req.mode.map UInt16.ofNat).getD old'.perm
        uid := req.uid.getD old'.uid
        gid := req.gid.getD old'.gid
        size := (req.size.map UInt32.ofNat).getD old'.size
        atime := at₂, mtime := mt₂, crtime := crt₂
        flags := req.flags.getD old'.flags } := by
    refine ⟨?_, ⟨hat.1, hmt.1, hold.left.2.2.1, hcrt.1⟩, hat.2, hmt.2, hold.right.2.2.1, hcrt.2⟩
    simp only [DBFileAttr.timeless, hino, hsize, hblocks, hkind, hperm, hnlink, huid, hgid, hrdev,
      hflags]
  have htruncate : (req.size.map UInt32.ofNat).getD old.size =
      (req.size.map UInt32.ofNat).getD old'.size := by rw [hsize]
  refine alike_bind_eq (alike_callOrNoEnt henv _ fun db db' _ => ?_) fun _ => alike_pure <|
    congrArg (fun fa => Reply.attr oneSec fa) hattr.getFileAttr
  dsimp only
  rw [hsize]
  exact db.alike_updateInode db' _ _ (hsize ▸ hattr) _

theorem alike_readlink (ino : ℕ) :
    AlikeReplies (readlink env ino : Handler X Reply) (readlink env' ino) := by
  refine alike_bind (alike_readInode henv _) fun v v' hv => ?_
  obtain ⟨-, hsize, -, -, -, -, -, hkind, -⟩ := DBFileAttr.mk.inj hv.timeless
  rw [hsize]
  refine alike_bind_eq (alike_require (by rw [hkind]) rfl) fun _ => ?_
  exact alike_bind_eq (alike_readBlock henv _ _ _) fun _ => alike_pure rfl

theorem alike_mkdir (parent : ℕ) (name : Bytes) (mode : ℕ) :
    AlikeReplies (mkdir env parent name mode : Handler X Reply) (mkdir env' parent name mode) := by
  refine alike_bind_eq alike_writable fun _ => ?_
  refine alike_bind (alike_callOrNoEnt henv _ fun db db' _ => db.alike_getInode db' _)
    fun o o' ho => ?_
  refine alike_bind (alike_foundOrNoEnt ho) fun v v' hv => ?_
  obtain ⟨-, -, -, -, -, -, -, -, hperm, -, -, hgid, -⟩ := DBFileAttr.mk.inj hv.timeless
  dsimp only
  rw [hperm, hgid, henv.gid]
  refine alike_bind_eq (alike_toStr name) fun name => ?_
  have hattr := newAttr_sameButTimes henv .Directory
  refine alike_bind_eq (alike_callOrNoEnt henv _ fun db db' _ =>
    db.alike_addInodeAndDentry db' _ _ _ _ (hattr _ _)) fun i => ?_
  exact alike_hand_out henv ((hattr _ _).withIno i) i

theorem alike_unlink (parent : ℕ) (name : Bytes) :
    AlikeReplies (unlink env parent name : Handler X Reply) (unlink env' parent name) := by
  refine alike_bind_eq alike_writable fun _ => alike_bind_eq (alike_toStr name) fun name => ?_
  refine alike_bind_eq (alike_callOrNoEnt henv _ fun db db' _ => db.alike_deleteDentry db' _ _ _ _)
    fun i => ?_
  exact alike_bind_eq (alike_deleteUnlessLookedUp henv i) fun _ => alike_pure rfl

theorem alike_rmdir (parent : ℕ) (name : Bytes) :
    AlikeReplies (rmdir env parent name : Handler X Reply) (rmdir env' parent name) := by
  refine alike_bind_eq alike_writable fun _ => alike_bind_eq (alike_toStr name) fun name => ?_
  refine alike_bind (alike_callOrNoEnt henv _ fun db db' _ => db.alike_lookup db' _ _ _ _)
    fun o o' ho => ?_
  refine alike_bind (alike_foundOrNoEnt ho) fun v v' hv => ?_
  have hino : v.ino = v'.ino := (DBFileAttr.mk.inj hv.timeless).1
  rw [hino]
  refine alike_bind_eq (alike_callOrNoEnt henv _ fun db db' _ =>
    db.alike_checkDirectoryIsEmpty db' _) fun empty => ?_
  refine alike_bind_eq (alike_require Iff.rfl rfl) fun _ => ?_
  refine alike_bind_eq (alike_callOrNoEnt henv _ fun db db' _ => db.alike_deleteDentry db' _ _ _ _)
    fun i => ?_
  exact alike_bind_eq (alike_deleteUnlessLookedUp henv i) fun _ => alike_pure rfl

theorem alike_symlink (parent : ℕ) (name link : Bytes) :
    AlikeReplies (symlink env parent name link : Handler X Reply)
      (symlink env' parent name link) := by
  refine alike_bind_eq alike_writable fun _ => ?_
  dsimp only
  rw [henv.gid]
  have hattr := newAttr_sameButTimes henv .Symlink (UInt16.ofNat 0o777) env'.gid
  refine alike_bind_eq (alike_toStr name) fun name => ?_
  refine alike_bind_eq (alike_callOrNoEnt henv _ fun db db' _ =>
    db.alike_addInodeAndDentry db' _ _ _ _ hattr) fun i => ?_
  refine alike_bind_eq (alike_toStr link) fun data => ?_
  refine alike_bind_eq (alike_require Iff.rfl rfl) fun _ => ?_
  refine alike_bind_eq (alike_callOrNoEnt henv _ fun db db' hext =>
    db.alike_writeData db' _ _ hext _ _ _ _) fun _ => ?_
  exact alike_hand_out henv (hattr.withIno i) i

theorem alike_rename (parent : ℕ) (name : Bytes) (newparent : ℕ) (newname : Bytes) :
    AlikeReplies (rename env parent name newparent newname : Handler X Reply)
      (rename env' parent name newparent newname) := by
  refine alike_bind_eq alike_writable fun _ => alike_bind_eq (alike_toStr name) fun name => ?_
  refine alike_bind_eq (alike_toStr newname) fun newname => ?_
  refine alike_bind_eq (alike_callOr henv _ _ fun db db' _ => db.alike_moveDentry db' _ _ _ _ _ _)
    fun o => ?_
  refine alike_bind_eq ?_ fun _ => alike_pure rfl
  cases o with
  | none => exact alike_pure rfl
  | some i => exact alike_deleteUnlessLookedUp henv i

theorem alike_link (ino newparent : ℕ) (newname : Bytes) :
    AlikeReplies (link env ino newparent newname : Handler X Reply)
      (link env' ino newparent newname) := by
  refine alike_bind_eq alike_writable fun _ => alike_bind_eq (alike_toStr newname) fun newname => ?_
  refine alike_bind (alike_callOr henv _ _ fun db db' _ => db.alike_linkDentry db' _ _ _ _ _)
    fun v v' hv => ?_
  exact alike_hand_out henv hv _

omit henv in
theorem alike_open (ino flags : ℕ) :
    AlikeReplies («open» env ino flags : Handler X Reply) («open» env' ino flags) := by
  refine alike_bind alike_get fun s t h => ?_
  dsimp only
  rw [h.readOnly, h.openFileHandler]
  refine alike_bind_eq (alike_require Iff.rfl rfl) fun _ => ?_
  refine alike_bind_eq (alike_modify fun s t h => ?_) fun _ => alike_pure rfl
  exact { h with openFileHandler := by rw [h.openFileHandler] }

theorem alike_readLoop (ino fuel size offset : ℕ) (data : Bytes) :
    AlikeHandlers Eq (readLoop env ino fuel size offset data : Handler X Bytes)
      (readLoop env' ino fuel size offset data) := by
  induction fuel generalizing size offset data with
  | zero => exact alike_pure rfl
  | succ fuel ih =>
    refine alike_ite Iff.rfl (alike_pure rfl) ?_
    refine alike_bind_eq (alike_readBlock henv _ _ _) fun block_data => ?_
    refine alike_bind_eq (alike_u32Add henv rfl _ _) fun wanted => ?_
    refine alike_bind_eq (alike_slice _ _ _) fun part => ?_
    exact alike_bind_eq (alike_u32Add henv rfl _ _) fun offset => ih _ _ _

theorem alike_read (ino : ℕ) (offset : ℤ) (size : ℕ) :
    AlikeReplies (read env ino offset size : Handler X Reply) (read env' ino offset size) :=
  alike_bind_eq (alike_readLoop henv _ _ _ _ _) fun _ => alike_pure rfl

theorem alike_writeBlock (ino offset size : ℕ) (data : Bytes) (start_block end_block i : ℕ) :
    AlikeHandlers Eq (writeBlock env ino offset size data start_block end_block i : Handler X Unit)
      (writeBlock env' ino offset size data start_block end_block i) := by
  unfold writeBlock
  dsimp only
  refine alike_bind_eq (alike_ite Iff.rfl (alike_bind_eq (alike_lastByte henv _ _) fun _ =>
    alike_pure rfl) (alike_pure rfl)) fun b_end => ?_
  refine alike_bind_eq (alike_ite Iff.rfl ?_ ?_) fun block_data => ?_
  · refine alike_bind_eq (alike_callOrNoEnt henv _ fun db db' _ => db.alike_getData db' _ _ _ _ _)
      fun data_pre => ?_
    refine alike_bind_eq (alike_slice _ _ _) fun before => ?_
    refine alike_bind_eq (alike_u32Add henv rfl _ _) fun data_end => ?_
    refine alike_bind_eq (alike_u32Sub henv _ _) fun data_end => ?_
    refine alike_bind_eq (alike_slice _ _ _) fun written => ?_
    exact alike_bind_eq (alike_slice _ _ _) fun after => alike_pure rfl
  · exact alike_bind_eq (alike_u32Add henv rfl _ _) fun data_end => alike_slice _ _ _
  · refine alike_bind_eq (alike_u32Add henv rfl _ _) fun new_size => ?_
    exact alike_callOrNoEnt henv _ fun db db' hext => db.alike_writeData db' _ _ hext _ _ _ _

theorem alike_write (ino : ℕ) (offset : ℤ) (data : Bytes) :
    AlikeReplies (write env ino offset data : Handler X Reply) (write env' ino offset data) := by
  refine alike_bind_eq alike_writable fun _ => ?_
  refine alike_bind_eq (alike_lastByte henv _ _) fun last => ?_
  exact alike_bind_eq (alike_each (fun i => alike_writeBlock henv _ _ _ _ _ _ i) _) fun _ =>
    alike_pure rfl

omit henv in
theorem alike_release (ino fh : ℕ) :
    AlikeReplies (release env ino fh : Handler X Reply) (release env' ino fh) := by
  refine alike_bind alike_get fun s t h => ?_
  dsimp only
  rw [h.openFileHandler]
  refine alike_bind_eq (alike_modify fun s t h => ?_) fun _ => alike_pure rfl
  exact { h with openFileHandler := by rw [h.openFileHandler] }

theorem alike_opendir (ino : ℕ) :
    AlikeReplies (opendir env ino : Handler X Reply) (opendir env' ino) := by
  refine alike_bind alike_get fun s t h => ?_
  dsimp only
  rw [h.left, h.right, h.openDirHandler]
  refine alike_bind_eq (alike_callOrNoEnt henv _ fun db db' _ => db.alike_getDentry db' _)
    fun dentries => ?_
  refine alike_bind_eq (alike_modify fun s t h => ?_) fun _ => alike_pure rfl
  exact { h with openDirHandler := by rw [h.openDirHandler] }

omit henv in
theorem alike_readdir (ino fh : ℕ) (offset : ℤ) (size : ℕ) :
    AlikeReplies (readdir env ino fh offset size : Handler X Reply)
      (readdir env' ino fh offset size) := by
  refine alike_bind alike_get fun s t h => ?_
  rw [h.openDirHandler]
  exact alike_bind_eq (alike_ofOption_eq rfl) fun _ => alike_pure rfl

omit henv in
theorem alike_releasedir (ino fh : ℕ) :
    AlikeReplies (releasedir env ino fh : Handler X Reply) (releasedir env' ino fh) := by
  refine alike_bind alike_get fun s t h => ?_
  dsimp only
  rw [h.openDirHandler]
  refine alike_bind_eq (alike_modify fun s t h => ?_) fun _ => alike_pure rfl
  exact { h with openDirHandler := by rw [h.openDirHandler] }

theorem alike_statfs : AlikeReplies (statfs env : Handler X Reply) (statfs env') := by
  unfold statfs
  rw [henv.statvfs]
  exact alike_bind_eq (alike_ofOption_eq rfl) fun _ => alike_pure rfl

theorem alike_setxattr (ino : ℕ) (name value : Bytes) (flags : ℕ) :
    AlikeReplies (setxattr env ino name value flags : Handler X Reply)
      (setxattr env' ino name value flags) := by
  refine alike_bind_eq alike_writable fun _ => alike_bind_eq (alike_toStr name) fun name => ?_
  refine alike_bind_eq (alike_when Iff.rfl ?_) fun _ => ?_
  · refine alike_bind (alike_call henv _ fun db db' _ => db.alike_getXattr db' _ _)
      fun r r' hr => ?_
    cases hr with
    | ok => exact alike_require Iff.rfl rfl
    | @error kind kind' h =>
      subst h
      cases kind
      case FsNoEnt => exact alike_require Iff.rfl rfl
      all_goals exact alike_stop rfl
  · exact alike_bind_eq (alike_callOrNoEnt henv _ fun db db' _ =>
      db.alike_setXattr db' _ _ _ _ _) fun _ => alike_pure rfl

theorem alike_getxattr (ino : ℕ) (name : Bytes) (size : ℕ) :
    AlikeReplies (getxattr env ino name size : Handler X Reply) (getxattr env' ino name size) := by
  refine alike_bind alike_get fun s t h => alike_bind_eq (alike_toStr name) fun name => ?_
  rw [h.left, h.right]
  exact alike_bind_eq (alike_callOr henv _ _ fun db db' _ => db.alike_getXattr db' _ _) fun _ =>
    alike_pure rfl

theorem alike_listxattr (ino size : ℕ) :
    AlikeReplies (listxattr env ino size : Handler X Reply) (listxattr env' ino size) := by
  refine alike_bind alike_get fun s t h => ?_
  dsimp only
  rw [h.left, h.right]
  exact alike_bind_eq (alike_callOr henv _ _ fun db db' _ => db.alike_listXattr db' _) fun _ =>
    alike_pure rfl

theorem alike_removexattr (ino : ℕ) (name : Bytes) :
    AlikeReplies (removexattr env ino name : Handler X Reply) (removexattr env' ino name) := by
  refine alike_bind_eq alike_writable fun _ => alike_bind_eq (alike_toStr name) fun name => ?_
  exact alike_bind_eq (alike_callOrNoEnt henv _ fun db db' _ =>
    db.alike_deleteXattr db' _ _ _ _) fun _ => alike_pure rfl

theorem alike_create (parent : ℕ) (name : Bytes) (mode : ℕ) :
    AlikeReplies (create env parent name mode : Handler X Reply)
      (create env' parent name mode) := by
  refine alike_bind_eq alike_writable fun _ => alike_bind_eq (alike_toStr name) fun name => ?_
  refine alike_bind (alike_callOrNoEnt henv _ fun db db' _ => db.alike_lookup db' _ _ _ _)
    fun o o' ho => ?_
  have hattr : AlikeHandlers DBFileAttr.SameButTimes
      (createInode env (asU32 parent) name mode o : Handler X DBFileAttr)
      (createInode env' (asU32 parent) name mode o') := by
    cases ho with
    | some hv => exact alike_pure hv
    | none =>
      refine alike_bind (alike_callOrNoEnt henv _ fun db db' _ => db.alike_getInode db' _)
        fun o o' ho => ?_
      refine alike_bind (alike_foundOrNoEnt ho) fun v v' hv => ?_
      obtain ⟨-, -, -, -, -, -, -, -, hperm, -, -, hgid, -⟩ := DBFileAttr.mk.inj hv.timeless
      dsimp only
      rw [hperm, hgid, henv.gid]
      have hnew := newAttr_sameButTimes henv .RegularFile (UInt16.ofNat mode)
      refine alike_bind_eq (alike_callOrNoEnt henv _ fun db db' _ =>
        db.alike_addInodeAndDentry db' _ _ _ _ (hnew _)) fun i => ?_
      exact alike_pure ((hnew _).withIno i)
  refine alike_bind hattr fun v v' hv => ?_
  have hino : v.ino = v'.ino := (DBFileAttr.mk.inj hv.timeless).1
  rw [hino]
  refine alike_bind_eq (alike_countLookup henv rfl _) fun _ => alike_pure ?_
  exact congrArg (fun fa => Reply.created oneSec fa 0 0 0) hv.getFileAttr

end Handlers

/-! ### Requests and runs -/

variable {s t : SqliteFs X}

theorem outcome_sameButTimes {x y : Handler X Reply} (hxy : AlikeReplies x y)
    (h : s.SameButTimes t) :
    (outcome x s).1.SameButTimes (outcome y t).1 ∧
      (outcome x s).2.timeless = (outcome y t).2.timeless := by
  obtain ⟨hst, hres⟩ := hxy s t h
  rw [outcome_fst, outcome_fst]
  refine ⟨hst, ?_⟩
  unfold outcome
  generalize x s = p at hres ⊢
  generalize y t = p' at hres ⊢
  obtain ⟨s', res⟩ := p
  obtain ⟨t', res'⟩ := p'
  cases hres with
  | ok hr => exact congrArg Outcome.replied hr
  | @error e e' he =>
    cases e <;> cases e'
    · exact congrArg Outcome.replied (Exit.reply.inj he)
    · exact absurd he (by simp [Exit.timeless])
    · exact absurd he (by simp [Exit.timeless])
    · exact congrArg Outcome.crashed (Exit.panic.inj he)

theorem silently_sameButTimes {x y : Handler X Unit} (hxy : AlikeHandlers Eq x y)
    (h : s.SameButTimes t) : (silently x s).1.SameButTimes (silently y t).1 ∧
      (silently x s).2.timeless = (silently y t).2.timeless := by
  obtain ⟨hst, hres⟩ := hxy s t h
  rw [silently_fst, silently_fst]
  refine ⟨hst, ?_⟩
  unfold silently
  generalize x s = p at hres ⊢
  generalize y t = p' at hres ⊢
  obtain ⟨s', res⟩ := p
  obtain ⟨t', res'⟩ := p'
  cases hres with
  | ok hr => rfl
  | @error e e' he =>
    cases e <;> cases e'
    · rfl
    · exact absurd he (by simp [Exit.timeless])
    · exact absurd he (by simp [Exit.timeless])
    · exact congrArg Outcome.crashed (Exit.panic.inj he)

end SqliteFs

/-- The times that the request sets can be stored. -/
def Request.TimesKept : Request → Prop
  | .setattr _ req => req.TimesKept
  | _ => True

namespace SqliteFs

variable {s t : SqliteFs X}

/-- A `destroy` deletes the same inodes in both: it goes through them in the same order, or no inode
without an entry holds entries. -/
def SameDeletions (env env' : Env) (s t : SqliteFs X) : Prop :=
  env.order s.lookupCount.keys = env'.order t.lookupCount.keys ∨ s.conn.UnnamedEmpty

theorem handle_destroy (env : Env) (s : SqliteFs X) : handle env .destroy s =
    (if s.readOnly = true then s
      else s.withConn (((env.order s.lookupCount.keys).filter fun i =>
        env.fails (.deleteInodeIfNoref i) = false).foldl Db.collect s.conn), .silent) := by
  obtain ⟨u, s', hs', heq⟩ := (@destroy_spec _ env s).exists_ok
  change silently (destroy env) s = _
  unfold silently
  rw [hs', heq]

/-- Where the orders differ, the same rows go. -/
theorem destroy_sameButTimes (henv : env.SameButClock env') (h : s.SameButTimes t)
    (hd : SameDeletions env env' s t) :
    (handle env .destroy s).1.SameButTimes (handle env' .destroy t).1 := by
  rw [handle_destroy, handle_destroy, ← h.readOnly]
  by_cases hro : s.readOnly = true
  · rw [if_pos hro, if_pos hro]
    exact h
  rw [if_neg hro, if_neg hro, henv.fails]
  refine { h with conn := ?_ }
  rcases hd with hd | hd
  · rw [hd]
    exact List.foldl_rel h.conn fun i _ _ _ h => h.collect i
  · have hempty : t.conn.UnnamedEmpty := by
      unfold Db.UnnamedEmpty
      rw [← h.conn.dentry]
      exact hd
    refine (hd.collectedTo_foldl _).sameButTimes (hempty.collectedTo_foldl _) h.conn fun i => ?_
    rw [List.mem_filter, List.mem_filter, (env.order_perm _).mem_iff, (env'.order_perm _).mem_iff,
      h.lookupCount]

/-- A link is made in a directory that was removed: one order deletes the directory and the link
with it, the other leaves the link. -/
example :
    let s := ((sample.after (.sample, .mkdir 1 [97] 0)).after (.sample, .rmdir 1 [97])).after
      (.sample, .symlink 2 [98] [99])
    ¬ (([2, 3].foldl Db.collect s.conn).metadata.find 3).isSome ∧
      (([3, 2].foldl Db.collect s.conn).metadata.find 3).isSome := by
  decide +kernel

/-- **A request does the same** to file systems that differ in times, and is replied the same up to
times. -/
theorem handle_sameButTimes (henv : env.SameButClock env') {r : Request} (hr : r.TimesKept)
    (hd : r = .destroy → SameDeletions env env' s t) (h : s.SameButTimes t) :
    (handle env r s).1.SameButTimes (handle env' r t).1 ∧
      (handle env r s).2.timeless = (handle env' r t).2.timeless := by
  cases r with
  | init => exact silently_sameButTimes (alike_init henv) h
  | destroy => exact ⟨destroy_sameButTimes henv h (hd rfl), by rw [handle_destroy, handle_destroy]⟩
  | forget ino n => exact silently_sameButTimes (alike_forget henv ino n) h
  | lookup p n => exact outcome_sameButTimes (alike_lookup henv p n) h
  | getattr ino => exact outcome_sameButTimes (alike_getattr henv ino) h
  | setattr ino req => exact outcome_sameButTimes (alike_setattr henv ino hr) h
  | readlink ino => exact outcome_sameButTimes (alike_readlink henv ino) h
  | mkdir p n mode => exact outcome_sameButTimes (alike_mkdir henv p n mode) h
  | unlink p n => exact outcome_sameButTimes (alike_unlink henv p n) h
  | rmdir p n => exact outcome_sameButTimes (alike_rmdir henv p n) h
  | symlink p n l => exact outcome_sameButTimes (alike_symlink henv p n l) h
  | rename p n q n' => exact outcome_sameButTimes (alike_rename henv p n q n') h
  | link ino q n => exact outcome_sameButTimes (alike_link henv ino q n) h
  | «open» ino flags => exact outcome_sameButTimes (alike_open ino flags) h
  | read ino fh offset size => exact outcome_sameButTimes (alike_read henv ino offset size) h
  | write ino fh offset data => exact outcome_sameButTimes (alike_write henv ino offset data) h
  | release ino fh => exact outcome_sameButTimes (alike_release ino fh) h
  | opendir ino => exact outcome_sameButTimes (alike_opendir henv ino) h
  | readdir ino fh offset size => exact outcome_sameButTimes (alike_readdir ino fh offset size) h
  | releasedir ino fh => exact outcome_sameButTimes (alike_releasedir ino fh) h
  | statfs ino => exact outcome_sameButTimes (alike_statfs henv) h
  | setxattr ino n v flags => exact outcome_sameButTimes (alike_setxattr henv ino n v flags) h
  | getxattr ino n size => exact outcome_sameButTimes (alike_getxattr henv ino n size) h
  | listxattr ino size => exact outcome_sameButTimes (alike_listxattr henv ino size) h
  | removexattr ino n => exact outcome_sameButTimes (alike_removexattr henv ino n) h
  | create p n mode => exact outcome_sameButTimes (alike_create henv p n mode) h
  | unimplemented => exact ⟨h, rfl⟩

/-- A mount of databases that differ in times fails on both or on none. -/
theorem mount_sameButTimes {db db' : Sqlite} (hext : db.extensions = db'.extensions)
    (now now' : Now)
    {conn conn' : Db X} (h : conn.SameButTimes conn') : Option.Rel SameButTimes
      (mount db now conn false false) (mount db' now' conn' false false) := by
  obtain ⟨hconn, hres⟩ := db.alike_init db' now now' conn conn' h
  unfold mount
  generalize db.init now conn = p at hconn hres ⊢
  generalize db'.init now' conn' = p' at hconn hres ⊢
  obtain ⟨conn₁, res⟩ := p
  obtain ⟨conn₁', res'⟩ := p'
  cases hres with
  | ok => exact .some ⟨hconn, hext, rfl, rfl, rfl, rfl, rfl, rfl⟩
  | error => exact .none

/-- The states of two mounts that are sent the same requests, with clocks of their own, and of which
each may record times or not. The databases were made by `init`. -/
inductive Twins : SqliteFs X → SqliteFs X → Prop
  | mounted {s t : SqliteFs X} {db db' : Sqlite} {now now' : Now} (clock clock' : ℕ → ℕ)
      (hext : db.extensions = db'.extensions)
      (hs : mount db now (Db.empty X clock) false false = some s)
      (ht : mount db' now' (Db.empty X clock') false false = some t) : Twins s t
  | handled {s t : SqliteFs X} {env env' : Env} (h : Twins s t) (henv : env.SameButClock env')
      (r : Request) (hr : r.TimesKept) (hd : r = .destroy → SameDeletions env env' s t) :
      Twins (s.after (env, r)) (t.after (env', r))
  | remounted {s t s' t' : SqliteFs X} {db db' : Sqlite} {now now' : Now} (h : Twins s t)
      (hext : db.extensions = db'.extensions)
      (hs : mount db now s.conn false false = some s')
      (ht : mount db' now' t.conn false false = some t') : Twins s' t'

theorem sameButTimes_of_mounts {db db' : Sqlite} (hext : db.extensions = db'.extensions)
    {now now' : Now} {conn conn' : Db X} (h : conn.SameButTimes conn')
    (hs : mount db now conn false false = some s) (ht : mount db' now' conn' false false = some t) :
    s.SameButTimes t := by
  have hmounts := mount_sameButTimes hext now now' h
  rw [hs, ht] at hmounts
  cases hmounts with
  | some h => exact h

theorem Twins.sameButTimes (h : Twins s t) : s.SameButTimes t := by
  induction h with
  | mounted clock clock' hext hs ht =>
    exact sameButTimes_of_mounts hext (Db.SameButTimes.empty clock clock') hs ht
  | handled _ henv r hr hd ih => exact (handle_sameButTimes henv hr hd ih).1
  | remounted _ hext hs ht ih => exact sameButTimes_of_mounts hext ih.conn hs ht

/-- **The mode of a mount does not matter but for times**: two mounts that are sent the same
requests hold the same, reply the same to the next request, and can both be mounted again or none of
them. -/
theorem Twins.serve_alike (h : Twins s t) : s.SameButTimes t ∧
    (∀ env env' : Env, ∀ r : Request, env.SameButClock env' → r.TimesKept →
      (handle env r s).2.timeless = (handle env' r t).2.timeless) ∧
    ∀ db db' : Sqlite, ∀ now now' : Now, db.extensions = db'.extensions →
      (mount db now s.conn false false).isSome = (mount db' now' t.conn false false).isSome := by
  have hst := h.sameButTimes
  refine ⟨hst, fun env env' r henv hr => ?_, ?_⟩
  · by_cases hd : r = .destroy
    · rw [hd, handle_destroy, handle_destroy]
    · exact (handle_sameButTimes henv hr (fun h => absurd h hd) hst).2
  intro db db' now now' hext
  have hmounts := mount_sameButTimes hext now now' hst.conn
  generalize mount db now s.conn false false = o at hmounts ⊢
  generalize mount db' now' t.conn false false = o' at hmounts ⊢
  cases hmounts <;> rfl

/-- Surroundings with a hash map that gives its keys in the opposite order. -/
def reversing : Env :=
  { Env.sample with
    order := List.reverse
    order_perm := List.reverse_perm }

/-- Two files are made and unlinked on a mount that records times and on one that does not, and
deleted in two orders when the mounts end. -/
theorem serve_alike_sample :
    let s := ((((sample.after (.sample, .create 1 [97] 0)).after (.sample, .create 1 [98] 0)).after
      (.sample, .unlink 1 [97])).after (.sample, .unlink 1 [98])).after (.sample, .destroy)
    let t := (((((newWithDb .newNoTimeRecording (Db.initialised .sample (· + 7)
      .newNoTimeRecording ⟨⟨5, 0⟩, by decide⟩)).after (reversing, .create 1 [97] 0)).after
        (reversing, .create 1 [98] 0)).after (reversing, .unlink 1 [97])).after
          (reversing, .unlink 1 [98])).after (reversing, .destroy)
    s.SameButTimes t ∧
      (∀ env env' : Env, ∀ r : Request, env.SameButClock env' → r.TimesKept →
        (handle env r s).2.timeless = (handle env' r t).2.timeless) ∧
      ∀ db db' : Sqlite, ∀ now now' : Now, db.extensions = db'.extensions →
        (mount db now s.conn false false).isSome = (mount db' now' t.conn false false).isSome := by
  have hs : mount .new epoch (Db.empty .sample id) false false = some sample := rfl
  have ht : mount .newNoTimeRecording ⟨⟨5, 0⟩, by decide⟩ (Db.empty .sample (· + 7)) false false =
    some (newWithDb .newNoTimeRecording (Db.initialised .sample (· + 7) .newNoTimeRecording
      ⟨⟨5, 0⟩, by decide⟩)) := rfl
  have hext : Sqlite.new.extensions = Sqlite.newNoTimeRecording.extensions := rfl
  have henv : Env.sample.SameButClock reversing := ⟨rfl, rfl, rfl, rfl, rfl⟩
  have hmade := ((Twins.mounted id (· + 7) hext hs ht).handled henv (.create 1 [97] 0) trivial
    (by simp)).handled henv (.create 1 [98] 0) trivial (by simp)
  have hgone := (hmade.handled henv (.unlink 1 [97]) trivial (by simp)).handled henv
    (.unlink 1 [98]) trivial (by simp)
  exact (hgone.handled henv .destroy trivial fun _ => Or.inr (by decide +kernel)).serve_alike

end SqliteFs

end TemporalFs
