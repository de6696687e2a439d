import Mathlib
import TemporalFs.Fs.Rules
import TemporalFs.Fuse.Session

/-!
# The answers of a session

A reply goes to the kernel as a message, which the kernel reads as an answer to the request whose
number it carries, and with a body of the kind that this request awaits. Here it is shown that this
works for every handler: what a handler replies is of the kind awaited, with an early reply as with
the last one, and so the kernel takes from the message what was replied.

A directory is read into a buffer of the size that the kernel gives. The body of the reply is what
`ReplyDirectory::add` has put there, entry by entry.

## Main definitions

* `Request.awaits`, `Packet.awaits`: the kind of body that answers a request.
* `SqliteFs.Failing`: a part of a handler that replies with errors only.
* `SqliteFs.Answering`: a handler that replies as the kernel awaits.
* `Answer.message`, `Answer.received`: what is sent to the kernel, and what it is to take from it.

## Main results

* `SqliteFs.lookup_answers`, `SqliteFs.mkdir_answers` and so on, one for each handler.
* `SqliteFs.handle_answers`: every handler replies as the kernel awaits.
* `SqliteFs.readdir_body`: the body of a directory reply.
* `Session.answers_received`: every packet is answered once, and the answer is received.
-/

namespace TemporalFs

variable {X : Externals}

/-- The kind of body that answers a request; `none` where a handler has nothing to reply with. The
size of an extended attribute, or of their list, is asked for with a size of zero. -/
def Request.awaits : Request → Option Awaits
  | .init => none
  | .destroy => none
  | .forget _ _ => none
  | .lookup _ _ => some .entry
  | .getattr _ => some .attr
  | .setattr _ _ => some .attr
  | .readlink _ => some .data
  | .mkdir _ _ _ => some .entry
  | .unlink _ _ => some .nothing
  | .rmdir _ _ => some .nothing
  | .symlink _ _ _ => some .entry
  | .rename _ _ _ _ => some .nothing
  | .link _ _ _ => some .entry
  | .open _ _ => some .opened
  | .read _ _ _ _ => some .data
  | .write _ _ _ _ => some .size
  | .release _ _ => some .nothing
  | .opendir _ => some .opened
  | .readdir _ _ _ _ => some .directory
  | .releasedir _ _ => some .nothing
  | .statfs _ => some .statfs
  | .setxattr _ _ _ _ => some .nothing
  | .getxattr _ _ size => some (if size = 0 then .size else .data)
  | .listxattr _ size => some (if size = 0 then .size else .data)
  | .removexattr _ _ => some .nothing
  | .create _ _ _ => some .created
  | .unimplemented => some .nothing

/-- What a handler has sent when it ends early is of the kind `k`. -/
def Exit.Answers (k : Awaits) : Exit → Prop
  | .reply r => r.Answers k
  | .panic sent => ∀ r ∈ sent, r.Answers k

/-- What a handler has sent is of the kind `k`, and it had something to reply with. -/
def Outcome.Answers (k : Awaits) : Outcome → Prop
  | .replied r => r.Answers k
  | .silent => False
  | .crashed sent => ∀ r ∈ sent, r.Answers k

/-- An error answers every request. -/
theorem Reply.answers_error (k : Awaits) (e : Errno) : (Reply.error e).Answers k :=
  fun _ h => absurd h (Option.not_mem_none _)

/-- A reply of the kind `k`. -/
theorem Reply.answers_of_awaited {k : Awaits} {r : Reply} (h : r.awaited = some k) :
    r.Answers k := by
  intro k' hk'
  rw [h] at hk'
  exact (Option.some.inj hk').symm

theorem Exit.Fails.answers {e : Exit} (h : e.Fails) (k : Awaits) : e.Answers k := by
  cases e with
  | reply r =>
    cases r with
    | error e => exact Reply.answers_error k e
    | _ => exact h.elim
  | panic sent =>
    cases sent with
    | none => exact fun r hr => absurd hr (Option.not_mem_none r)
    | some r => exact h.elim

namespace SqliteFs

open Proc

/-! ### Parts of handlers -/

/-- A part of a handler that replies with errors only, and panics before any reply. -/
abbrev Failing {α : Type} (x : Handler X α) : Prop := x.Preserves Exit.Fails fun _ => True

/-- A handler that replies as the kernel awaits, whatever the state is. -/
def Answering (k : Awaits) (x : Handler X Reply) : Prop :=
  ∀ s, x.Ensures s (fun r _ => r.Answers k) fun e _ => e.Answers k

section Rules

variable {α : Type} {env : Env} {k : Awaits}

theorem failing_call (c : Call) (m : Sqlite → Conn X α) : Failing (call env c m) := by
  intro s _
  rw [ensures_call]
  refine ⟨fun _ => trivial, fun _ => ensures_of_forall (fun _ _ => trivial) fun e _ => ?_⟩
  cases e with
  | err kind => trivial
  | panic => exact ⟨trivial, trivial⟩

theorem failing_callOr (c : Call) (m : Sqlite → Conn X α) (onErr : ErrorKind → Errno) :
    Failing (callOr env c m onErr) :=
  preserves_bind (failing_call c m) fun res => by
    cases res with
    | ok a => exact preserves_pure a
    | error kind => exact preserves_stop trivial

theorem failing_callOrNoEnt (c : Call) (m : Sqlite → Conn X α) :
    Failing (callOrNoEnt env c m) :=
  failing_callOr c m _

theorem failing_foundOrNoEnt (o : Option α) : Failing (foundOrNoEnt o : Handler X α) :=
  preserves_ofOption trivial

theorem failing_writable : Failing (writable : Handler X Unit) :=
  preserves_bind preserves_get fun _ => preserves_require trivial

theorem failing_toStr (name : Bytes) : Failing (toStr name : Handler X Name) :=
  preserves_bind (preserves_require trivial) fun _ => preserves_pure _

theorem failing_u32Add (a b : ℕ) : Failing (u32Add env none a b : Handler X ℕ) :=
  preserves_ite (preserves_pure _) (preserves_ite (preserves_stop trivial) (preserves_pure _))

theorem failing_u32Sub (a b : ℕ) : Failing (u32Sub env a b : Handler X ℕ) :=
  preserves_ite (preserves_pure _) (preserves_ite (preserves_stop trivial) (preserves_pure _))

theorem failing_slice (data : Bytes) (lo hi : ℕ) : Failing (slice data lo hi : Handler X Bytes) :=
  preserves_bind (preserves_require trivial) fun _ => preserves_pure _

theorem failing_setTime (present : SystemTime) (ts : Option Timespec) :
    Failing (setTime present ts : Handler X SystemTime) := by
  cases ts with
  | none => exact preserves_pure _
  | some ts => exact preserves_ofOption trivial

theorem failing_modify (f : SqliteFs X → SqliteFs X) : Failing (Proc.modify f) :=
  preserves_modify fun _ _ => trivial

theorem failing_deleteUnlessLookedUp (i : ℕ) :
    Failing (deleteUnlessLookedUp env i : Handler X Unit) :=
  preserves_bind preserves_get fun _ => preserves_when (failing_callOrNoEnt _ _)

theorem failing_readInode (i : ℕ) : Failing (readInode env i : Handler X DBFileAttr) :=
  preserves_bind preserves_get fun _ => preserves_bind (failing_callOrNoEnt _ _) fun _ =>
    failing_foundOrNoEnt _

theorem failing_readBlock (i b length : ℕ) :
    Failing (readBlock env i b length : Handler X Bytes) :=
  preserves_bind preserves_get fun _ => failing_callOrNoEnt _ _

/-- A count that comes before any reply. -/
theorem failing_countLookup (i : ℕ) : Failing (countLookup env none i : Handler X Unit) :=
  preserves_bind preserves_get fun _ => preserves_bind (failing_u32Add _ _) fun _ =>
    failing_modify _

theorem answering_pure {r : Reply} (h : r.Answers k) : Answering k (pure r : Handler X Reply) :=
  fun _ => h

theorem answering_reply {r : Reply} (h : r.awaited = some k) :
    Answering k (pure r : Handler X Reply) :=
  answering_pure (Reply.answers_of_awaited h)

/-- A part that replies with errors only goes first. -/
theorem answering_bind {x : Handler X α} {f : α → Handler X Reply} (hx : Failing x)
    (hf : ∀ a, Answering k (f a)) : Answering k (x >>= f) := by
  intro s
  rw [ensures_bind]
  exact (hx s trivial).mono (fun a s' _ => hf a s') fun e _ h => h.1.answers k

/-- The count goes last, behind a reply that was sent. -/
theorem answering_countLookup {r : Reply} (h : r.Answers k) (i : ℕ) :
    Answering k (countLookup env (some r) i >>= fun _ => (pure r : Handler X Reply)) := by
  intro s
  rw [ensures_bind]
  refine (countLookup_spec (some r) i).mono (fun _ _ _ => h) fun e _ he => ?_
  rw [he.1]
  intro r' hr'
  exact Option.some.inj hr' ▸ h

end Rules

/-! ### The handlers -/

section Handlers

variable {env : Env}

theorem failing_lastByte (offset size : ℕ) :
    Failing (lastByte env offset size : Handler X ℕ) :=
  preserves_bind (failing_u32Add _ _) fun _ => failing_u32Sub _ _

theorem failing_writeBlock (ino offset size : ℕ) (data : Bytes) (start_block end_block i : ℕ) :
    Failing (writeBlock env ino offset size data start_block end_block i : Handler X Unit) := by
  unfold writeBlock
  generalize blockSize = B
  refine preserves_bind (preserves_ite (preserves_bind (failing_lastByte _ _) fun _ =>
    preserves_pure _) (preserves_pure _)) fun b_end => ?_
  refine preserves_bind (preserves_ite ?_ ?_) fun block_data =>
    preserves_bind (failing_u32Add _ _) fun _ => failing_callOrNoEnt _ _
  · exact preserves_bind (failing_callOrNoEnt _ _) fun _ =>
      preserves_bind (failing_slice _ _ _) fun _ => preserves_bind (failing_u32Add _ _) fun _ =>
        preserves_bind (failing_u32Sub _ _) fun _ => preserves_bind (failing_slice _ _ _) fun _ =>
          preserves_bind (failing_slice _ _ _) fun _ => preserves_pure _
  · exact preserves_bind (failing_u32Add _ _) fun _ => failing_slice _ _ _

theorem failing_readLoop (ino fuel size offset : ℕ) (data : Bytes) :
    Failing (readLoop env ino fuel size offset data : Handler X Bytes) := by
  induction fuel generalizing size offset data with
  | zero => exact preserves_pure _
  | succ fuel ih =>
    unfold readLoop
    refine preserves_ite (preserves_pure _) ?_
    exact preserves_bind (failing_readBlock _ _ _) fun _ =>
      preserves_bind (failing_u32Add _ _) fun _ => preserves_bind (failing_slice _ _ _) fun _ =>
        preserves_bind (failing_u32Add _ _) fun _ => ih _ _ _

theorem failing_createInode (parent : ℕ) (name : Name) (mode : ℕ) (found : Option DBFileAttr) :
    Failing (createInode env parent name mode found : Handler X DBFileAttr) := by
  cases found with
  | some attr => exact preserves_pure _
  | none =>
    exact preserves_bind (failing_callOrNoEnt _ _) fun _ =>
      preserves_bind (failing_foundOrNoEnt _) fun _ =>
        preserves_bind (failing_callOrNoEnt _ _) fun _ => preserves_pure _

theorem failing_checkXattrFlags (flags : ℕ) (found : Except ErrorKind Bytes) :
    Failing (checkXattrFlags flags found : Handler X Unit) := by
  unfold checkXattrFlags
  split
  · exact preserves_require trivial
  · exact preserves_require trivial
  · exact preserves_stop trivial

theorem xattrReply_answers (size : ℕ) (data : Bytes) :
    (xattrReply size data).Answers (if size = 0 then .size else .data) := by
  unfold xattrReply
  by_cases hsize : size = 0
  · rw [if_pos hsize, if_pos hsize]
    exact Reply.answers_of_awaited rfl
  rw [if_neg hsize, if_neg hsize]
  split_ifs with hlarge
  · exact Reply.answers_error _ _
  · exact Reply.answers_of_awaited rfl

theorem outcome_answers {k : Awaits} {h : Handler X Reply} (hh : Answering k h)
    (s : SqliteFs X) : (outcome h s).2.Answers k := by
  refine outcome_of_ensures (P := fun _ out => out.Answers k) ((hh s).mono (fun _ _ hr => hr) ?_)
  intro e _ he
  cases e <;> exact he

theorem lookup_answers (parent : ℕ) (name : Bytes) :
    Answering .entry (lookup env parent name : Handler X Reply) := by
  refine answering_bind preserves_get fun self => ?_
  exact answering_bind (failing_toStr _) fun _ => answering_bind (failing_callOrNoEnt _ _)
    fun _ => answering_bind (failing_foundOrNoEnt _) fun _ =>
      answering_countLookup (Reply.answers_of_awaited rfl) _

theorem getattr_answers (ino : ℕ) : Answering .attr (getattr env ino : Handler X Reply) :=
  answering_bind (failing_readInode _) fun _ => answering_reply rfl

theorem setattr_answers (ino : ℕ) (attrs : SetAttr) :
    Answering .attr (setattr env ino attrs : Handler X Reply) := by
  refine answering_bind failing_writable fun _ => ?_
  exact answering_bind (failing_callOrNoEnt _ _) fun _ =>
    answering_bind (failing_foundOrNoEnt _) fun _ => answering_bind (failing_setTime _ _)
      fun _ => answering_bind (failing_setTime _ _) fun _ =>
        answering_bind (failing_setTime _ _) fun _ =>
          answering_bind (failing_callOrNoEnt _ _) fun _ => answering_reply rfl

theorem readlink_answers (ino : ℕ) : Answering .data (readlink env ino : Handler X Reply) := by
  refine answering_bind (failing_readInode _) fun attr => ?_
  exact answering_bind (preserves_require trivial) fun _ =>
    answering_bind (failing_readBlock _ _ _) fun _ => answering_reply rfl

theorem mkdir_answers (parent : ℕ) (name : Bytes) (mode : ℕ) :
    Answering .entry (mkdir env parent name mode : Handler X Reply) := by
  refine answering_bind failing_writable fun _ => ?_
  exact answering_bind (failing_callOrNoEnt _ _) fun _ =>
    answering_bind (failing_foundOrNoEnt _) fun _ => answering_bind (failing_toStr _) fun _ =>
      answering_bind (failing_callOrNoEnt _ _) fun _ =>
        answering_countLookup (Reply.answers_of_awaited rfl) _

theorem unlink_answers (parent : ℕ) (name : Bytes) :
    Answering .nothing (unlink env parent name : Handler X Reply) := by
  refine answering_bind failing_writable fun _ => ?_
  exact answering_bind (failing_toStr _) fun _ => answering_bind (failing_callOrNoEnt _ _)
    fun _ => answering_bind (failing_deleteUnlessLookedUp _) fun _ => answering_reply rfl

theorem rmdir_answers (parent : ℕ) (name : Bytes) :
    Answering .nothing (rmdir env parent name : Handler X Reply) := by
  refine answering_bind failing_writable fun _ => ?_
  exact answering_bind (failing_toStr _) fun _ => answering_bind (failing_callOrNoEnt _ _)
    fun _ => answering_bind (failing_foundOrNoEnt _) fun _ =>
      answering_bind (failing_callOrNoEnt _ _) fun _ =>
        answering_bind (preserves_require trivial) fun _ =>
          answering_bind (failing_callOrNoEnt _ _) fun _ =>
            answering_bind (failing_deleteUnlessLookedUp _) fun _ => answering_reply rfl

theorem symlink_answers (parent : ℕ) (name link : Bytes) :
    Answering .entry (symlink env parent name link : Handler X Reply) := by
  refine answering_bind failing_writable fun _ => ?_
  exact answering_bind (failing_toStr _) fun _ => answering_bind (failing_callOrNoEnt _ _)
    fun _ => answering_bind (failing_toStr _) fun _ =>
      answering_bind (preserves_require trivial) fun _ =>
        answering_bind (failing_callOrNoEnt _ _) fun _ =>
          answering_countLookup (Reply.answers_of_awaited rfl) _

theorem rename_answers (parent : ℕ) (name : Bytes) (newparent : ℕ) (newname : Bytes) :
    Answering .nothing (rename env parent name newparent newname : Handler X Reply) := by
  refine answering_bind failing_writable fun _ => ?_
  refine answering_bind (failing_toStr _) fun _ => answering_bind (failing_toStr _) fun _ =>
    answering_bind (failing_callOr _ _ _) fun entry =>
      answering_bind ?_ fun _ => answering_reply rfl
  cases entry with
  | some i => exact failing_deleteUnlessLookedUp _
  | none => exact preserves_pure _

theorem link_answers (ino newparent : ℕ) (newname : Bytes) :
    Answering .entry (link env ino newparent newname : Handler X Reply) := by
  refine answering_bind failing_writable fun _ => ?_
  exact answering_bind (failing_toStr _) fun _ => answering_bind (failing_callOr _ _ _)
    fun _ => answering_countLookup (Reply.answers_of_awaited rfl) _

theorem open_answers (ino flags : ℕ) :
    Answering .opened («open» env ino flags : Handler X Reply) := by
  refine answering_bind preserves_get fun self => ?_
  exact answering_bind (preserves_require trivial) fun _ =>
    answering_bind (failing_modify _) fun _ => answering_reply rfl

theorem read_answers (ino : ℕ) (offset : ℤ) (size : ℕ) :
    Answering .data (read env ino offset size : Handler X Reply) :=
  answering_bind (failing_readLoop _ _ _ _ _) fun _ => answering_reply rfl

theorem write_answers (ino : ℕ) (offset : ℤ) (data : Bytes) :
    Answering .size (write env ino offset data : Handler X Reply) := by
  refine answering_bind failing_writable fun _ => ?_
  exact answering_bind (failing_lastByte _ _) fun _ => answering_bind
    (preserves_each (fun i => failing_writeBlock _ _ _ _ _ _ i) _) fun _ => answering_reply rfl

theorem release_answers (ino fh : ℕ) :
    Answering .nothing (release env ino fh : Handler X Reply) :=
  answering_bind preserves_get fun _ =>
    answering_bind (failing_modify _) fun _ => answering_reply rfl

theorem opendir_answers (ino : ℕ) : Answering .opened (opendir env ino : Handler X Reply) := by
  refine answering_bind preserves_get fun self => ?_
  exact answering_bind (failing_callOrNoEnt _ _) fun _ =>
    answering_bind (failing_modify _) fun _ => answering_reply rfl

theorem readdir_answers (ino fh : ℕ) (offset : ℤ) (size : ℕ) :
    Answering .directory (readdir env ino fh offset size : Handler X Reply) :=
  answering_bind preserves_get fun _ =>
    answering_bind (failing_foundOrNoEnt _) fun _ => answering_reply rfl

theorem releasedir_answers (ino fh : ℕ) :
    Answering .nothing (releasedir env ino fh : Handler X Reply) :=
  answering_bind preserves_get fun _ =>
    answering_bind (failing_modify _) fun _ => answering_reply rfl

theorem statfs_answers : Answering .statfs (statfs env : Handler X Reply) :=
  answering_bind (preserves_ofOption trivial) fun _ => answering_reply rfl

theorem setxattr_answers (ino : ℕ) (name value : Bytes) (flags : ℕ) :
    Answering .nothing (setxattr env ino name value flags : Handler X Reply) := by
  refine answering_bind failing_writable fun _ => ?_
  exact answering_bind (failing_toStr _) fun _ => answering_bind (preserves_when
    (preserves_bind (failing_call _ _) fun _ => failing_checkXattrFlags _ _)) fun _ =>
      answering_bind (failing_callOrNoEnt _ _) fun _ => answering_reply rfl

theorem getxattr_answers (ino : ℕ) (name : Bytes) (size : ℕ) :
    Answering (if size = 0 then .size else .data)
      (getxattr env ino name size : Handler X Reply) := by
  refine answering_bind preserves_get fun self => ?_
  exact answering_bind (failing_toStr _) fun _ => answering_bind (failing_callOr _ _ _)
    fun _ => answering_pure (xattrReply_answers _ _)

theorem listxattr_answers (ino size : ℕ) :
    Answering (if size = 0 then .size else .data) (listxattr env ino size : Handler X Reply) := by
  refine answering_bind preserves_get fun self => ?_
  exact answering_bind (failing_callOr _ _ _) fun _ => answering_pure (xattrReply_answers _ _)

theorem removexattr_answers (ino : ℕ) (name : Bytes) :
    Answering .nothing (removexattr env ino name : Handler X Reply) := by
  refine answering_bind failing_writable fun _ => ?_
  exact answering_bind (failing_toStr _) fun _ =>
    answering_bind (failing_callOrNoEnt _ _) fun _ => answering_reply rfl

theorem create_answers (parent : ℕ) (name : Bytes) (mode : ℕ) :
    Answering .created (create env parent name mode : Handler X Reply) := by
  refine answering_bind failing_writable fun _ => ?_
  exact answering_bind (failing_toStr _) fun _ => answering_bind (failing_callOrNoEnt _ _)
    fun _ => answering_bind (failing_createInode _ _ _ _) fun _ =>
      answering_bind (failing_countLookup _) fun _ => answering_reply rfl

/-- **Every handler replies** as the kernel awaits. -/
theorem handle_answers {r : Request} {k : Awaits} (hk : r.awaits = some k) (s : SqliteFs X) :
    (handle env r s).2.Answers k := by
  cases r with
  | init => exact absurd hk (Option.some_ne_none k).symm
  | destroy => exact absurd hk (Option.some_ne_none k).symm
  | forget ino nlookup => exact absurd hk (Option.some_ne_none k).symm
  | lookup parent name =>
    obtain rfl := Option.some.inj hk
    exact outcome_answers (lookup_answers _ _) s
  | getattr ino =>
    obtain rfl := Option.some.inj hk
    exact outcome_answers (getattr_answers _) s
  | setattr ino attrs =>
    obtain rfl := Option.some.inj hk
    exact outcome_answers (setattr_answers _ _) s
  | readlink ino =>
    obtain rfl := Option.some.inj hk
    exact outcome_answers (readlink_answers _) s
  | mkdir parent name mode =>
    obtain rfl := Option.some.inj hk
    exact outcome_answers (mkdir_answers _ _ _) s
  | unlink parent name =>
    obtain rfl := Option.some.inj hk
    exact outcome_answers (unlink_answers _ _) s
  | rmdir parent name =>
    obtain rfl := Option.some.inj hk
    exact outcome_answers (rmdir_answers _ _) s
  | symlink parent name link =>
    obtain rfl := Option.some.inj hk
    exact outcome_answers (symlink_answers _ _ _) s
  | rename parent name newparent newname =>
    obtain rfl := Option.some.inj hk
    exact outcome_answers (rename_answers _ _ _ _) s
  | link ino newparent newname =>
    obtain rfl := Option.some.inj hk
    exact outcome_answers (link_answers _ _ _) s
  | «open» ino flags =>
    obtain rfl := Option.some.inj hk
    exact outcome_answers (open_answers _ _) s
  | read ino fh offset size =>
    obtain rfl := Option.some.inj hk
    exact outcome_answers (read_answers _ _ _) s
  | write ino fh offset data =>
    obtain rfl := Option.some.inj hk
    exact outcome_answers (write_answers _ _ _) s
  | release ino fh =>
    obtain rfl := Option.some.inj hk
    exact outcome_answers (@release_answers X env ino fh) s
  | opendir ino =>
    obtain rfl := Option.some.inj hk
    exact outcome_answers (opendir_answers _) s
  | readdir ino fh offset size =>
    obtain rfl := Option.some.inj hk
    exact outcome_answers (readdir_answers _ _ _ _) s
  | releasedir ino fh =>
    obtain rfl := Option.some.inj hk
    exact outcome_answers (@releasedir_answers X env ino fh) s
  | statfs ino =>
    obtain rfl := Option.some.inj hk
    exact outcome_answers statfs_answers s
  | setxattr ino name value flags =>
    obtain rfl := Option.some.inj hk
    exact outcome_answers (setxattr_answers _ _ _ _) s
  | getxattr ino name size =>
    obtain rfl := Option.some.inj hk
    exact outcome_answers (getxattr_answers _ _ _) s
  | listxattr ino size =>
    obtain rfl := Option.some.inj hk
    exact outcome_answers (listxattr_answers _ _) s
  | removexattr ino name =>
    obtain rfl := Option.some.inj hk
    exact outcome_answers (removexattr_answers _ _) s
  | create parent name mode =>
    obtain rfl := Option.some.inj hk
    exact outcome_answers (create_answers _ _ _) s
  | unimplemented => exact Reply.answers_error k .ENOSYS

/-- **The body of a directory reply** is what the buffer holds after the entries of the handle's
list were added, from the offset on. It has the size that the kernel gave. -/
theorem readdir_body {ino fh : ℕ} {offset : ℤ} {size : ℕ} {s : SqliteFs X} {entries : List Dirent}
    (h : (handle env (.readdir ino fh offset size) s).2.answer =
      some (.reply (.directory entries))) :
    ∃ list, ((s.openDirHandler.lookup (asU32 ino)).bind fun n => n.list.lookup fh) = some list ∧
      (Reply.directory entries).received.body =
        ((ReplyDirectory.new size).fill (list.zipIdx.drop (offset % 2 ^ 64).toNat)).data ∧
      (Reply.directory entries).received.body.length ≤ size := by
  have hspec : (readdir env ino fh offset size).Ensures s
      (fun r _ => ∃ list,
        ((s.openDirHandler.lookup (asU32 ino)).bind fun n => n.list.lookup fh) = some list ∧
          r = .directory (addDirents size (list.zipIdx.drop (offset % 2 ^ 64).toNat) 0))
      (fun e _ => e = .reply (.error .ENOENT)) := by
    unfold readdir
    simp only [ensures_bind, ensures_get, ensures_foundOrNoEnt, ensures_pure]
    exact ⟨fun list hlist => ⟨list, hlist, rfl⟩, fun _ => trivial⟩
  have hout : ∀ entries, (outcome (readdir env ino fh offset size) s).2.answer =
      some (.reply (.directory entries)) → ∃ list,
        ((s.openDirHandler.lookup (asU32 ino)).bind fun n => n.list.lookup fh) = some list ∧
          entries = addDirents size (list.zipIdx.drop (offset % 2 ^ 64).toNat) 0 := by
    refine outcome_of_ensures (P := fun _ out => ∀ entries,
      out.answer = some (.reply (.directory entries)) → ∃ list,
        ((s.openDirHandler.lookup (asU32 ino)).bind fun n => n.list.lookup fh) = some list ∧
          entries = addDirents size (list.zipIdx.drop (offset % 2 ^ 64).toNat) 0)
      (hspec.mono ?_ ?_)
    · rintro r _ ⟨list, hlist, rfl⟩ entries hentries
      have hreply := Answer.reply.inj (Option.some.inj hentries)
      exact ⟨list, hlist, (Reply.directory.inj hreply).symm⟩
    · rintro e _ rfl entries hentries
      exact absurd (Answer.reply.inj (Option.some.inj hentries)) Reply.noConfusion
  obtain ⟨list, hlist, rfl⟩ := hout entries h
  have hbody := (ReplyDirectory.new size).fill_data (list.zipIdx.drop (offset % 2 ^ 64).toNat)
  have hlen := (ReplyDirectory.new size).length_fill_le
    (list.zipIdx.drop (offset % 2 ^ 64).toNat) (Nat.zero_le _)
  refine ⟨list, hlist, hbody.symm, ?_⟩
  rw [hbody] at hlen
  exact hlen

end Handlers

end SqliteFs

/-! ### Answers as messages -/

/-- The kind of body that the kernel awaits in answer to a packet. -/
def Packet.awaits (p : Packet) : Awaits :=
  match p.op with
  | .init _ => .init
  | _ => (p.request.bind Request.awaits).getD .nothing

/-- The message that is sent. -/
def Answer.message (unique : ℕ) : Answer → Bytes
  | .reply r => r.message unique
  | .failed code => ReplyRaw.send unique code []
  | .init o => ReplyRaw.send unique 0 (Received.init o).body

/-- What an answer says. -/
def Answer.received : Answer → Received
  | .reply r => r.received
  | .failed code => .error code
  | .init o => .init o

/-- The numbers of an answer are in the range of their types. -/
def Answer.InRange : Answer → Prop
  | .reply r => r.InRange
  | .failed _ => True
  | .init o => o.major < 2 ^ 32 ∧ o.minor < 2 ^ 32 ∧ o.maxReadahead < 2 ^ 32 ∧ o.flags < 2 ^ 32 ∧
    o.unused < 2 ^ 32 ∧ o.maxWrite < 2 ^ 32

/-- An answer that the kernel can take where it awaits a body of kind `k`. -/
def Answer.Answers (k : Awaits) : Answer → Prop
  | .reply r => r.Answers k
  | .failed code => 0 < code ∧ code < 2 ^ 31
  | .init _ => k = .init

/-- What was answered is received. -/
theorem Answer.receive_message {a : Answer} (hrange : a.InRange) {k : Awaits} (hk : a.Answers k)
    {unique : ℕ} (hunique : unique < 2 ^ 64) (hlen : (a.message unique).length < 2 ^ 32) :
    receive k (a.message unique) = some (unique, a.received) := by
  cases a with
  | reply r => exact TemporalFs.receive_message hrange hk hunique hlen
  | failed code =>
    have hsend := receive_send k hunique hk.2 hlen
    rw [if_neg hk.1.ne', if_pos rfl] at hsend
    exact hsend
  | init o =>
    obtain rfl : k = .init := hk
    obtain ⟨hmajor, hminor, hreadahead, hflags, hunused, hwrite⟩ := hrange
    have hfits : FuseInitOut.codec.Fits o :=
      ⟨⟨hmajor, hminor, hreadahead, hflags, hunused, hwrite⟩, rfl⟩
    have hread : Awaits.init.read (Received.init o).body = some (.init o) := by
      rw [Received.body, Awaits.read, Codec.readOne_write _ hfits, Option.map_some]
    have hsend := @receive_send .init _ 0 hunique (by decide) _ hlen
    rw [if_pos rfl, hread] at hsend
    exact hsend

/-- A packet whose data have not the length that it gives, on which `dispatch` panics. -/
def Packet.Malformed (p : Packet) : Prop := p.op.Served ∧ p.request = none

/-- The kernel awaits nothing in answer to a `FORGET`. -/
def Packet.Forgets (p : Packet) : Prop :=
  match p.op with
  | .forget _ => True
  | _ => False

namespace Session

variable {env : Env} {p : Packet} {se : Session X}

/-- A handler that serves a packet has something to reply with. -/
theorem awaits_of_served (hop : p.op.Served) {req : Request} (hreq : p.request = some req) :
    ∃ k, req.awaits = some k := by
  obtain ⟨unique, nodeid, op⟩ := p
  cases op with
  | unknown => exact hop.elim
  | init arg => exact hop.elim
  | destroy => exact hop.elim
  | interrupt => exact hop.elim
  | forget nlookup => exact hop.elim
  | write fh offset size data =>
    obtain ⟨-, hreq⟩ := Option.ite_none_right_eq_some.1 hreq
    exact ⟨.size, Option.some.inj hreq ▸ rfl⟩
  | setxattr size flags name value =>
    obtain ⟨-, hreq⟩ := Option.ite_none_right_eq_some.1 hreq
    exact ⟨.nothing, Option.some.inj hreq ▸ rfl⟩
  | _ => exact Option.some.inj hreq ▸ ⟨_, rfl⟩

/-- What is served is answered as the kernel awaits, unless the packet is malformed. -/
theorem serve_answers (hop : p.op.Served) :
    ((serve env p.request se).2 = none ↔ p.Malformed) ∧
      ∀ a ∈ (serve env p.request se).2, a.Answers p.awaits := by
  cases hreq : p.request with
  | none => exact ⟨iff_of_true rfl ⟨hop, hreq⟩, fun a ha => absurd ha (Option.not_mem_none a)⟩
  | some req =>
    obtain ⟨k, hk⟩ := awaits_of_served hop hreq
    have hawaits : p.awaits = k := by
      have hbind : p.awaits = (p.request.bind Request.awaits).getD .nothing := by
        obtain ⟨unique, nodeid, op⟩ := p
        cases op <;> first | rfl | exact hop.elim
      rw [hbind, hreq, Option.bind_some, hk, Option.getD_some]
    have hhandled := @SqliteFs.handle_answers _ env _ _ hk se.filesystem
    have hwell : ¬ p.Malformed := fun h => Option.some_ne_none req (hreq.symm.trans h.2)
    rw [hawaits]
    change ((SqliteFs.handle env req se.filesystem).2.answer = none ↔ p.Malformed) ∧
      ∀ a ∈ (SqliteFs.handle env req se.filesystem).2.answer, a.Answers k
    generalize (SqliteFs.handle env req se.filesystem).2 = out at hhandled ⊢
    cases out with
    | replied r =>
      refine ⟨iff_of_false (Option.some_ne_none _) hwell, fun a ha => ?_⟩
      obtain rfl := Option.some.inj ha
      exact hhandled
    | silent => exact hhandled.elim
    | crashed sent =>
      cases sent with
      | none =>
        refine ⟨iff_of_false (Option.some_ne_none _) hwell, fun a ha => ?_⟩
        obtain rfl := Option.some.inj ha
        exact ⟨by decide, by decide⟩
      | some r =>
        refine ⟨iff_of_false (Option.some_ne_none _) hwell, fun a ha => ?_⟩
        obtain rfl := Option.some.inj ha
        exact hhandled r rfl

/-- What `dispatch` answers: nothing to a `FORGET` or to a malformed packet, if it gets past the
gates, and to every other packet what the kernel awaits. -/
theorem dispatch_answers (env : Env) (p : Packet) (se : Session X) :
    ((dispatch env p se).2 = none ↔
      (se.initialized = true ∧ se.destroyed = false) ∧ (p.Forgets ∨ p.Malformed)) ∧
      ∀ a ∈ (dispatch env p se).2, a.Answers p.awaits := by
  have hsent : ∀ {a : Answer}, ¬ ((se.initialized = true ∧ se.destroyed = false) ∧
      (p.Forgets ∨ p.Malformed)) → a.Answers p.awaits → (some a = none ↔
        (se.initialized = true ∧ se.destroyed = false) ∧ (p.Forgets ∨ p.Malformed)) ∧
      ∀ a' ∈ some a, a'.Answers p.awaits := by
    refine fun hnot ha => ⟨iff_of_false (Option.some_ne_none _) hnot, fun a' ha' => ?_⟩
    exact Option.some.inj ha' ▸ ha
  have hspec := dispatch_spec env p se
  generalize dispatch env p se = res at hspec ⊢
  obtain ⟨unique, nodeid, op⟩ := p
  cases hspec with
  | unknown hop =>
    obtain rfl : op = .unknown := hop
    exact hsent (fun h => h.2.elim id And.left) ⟨by decide, by decide⟩
  | @unsupported arg hop harg =>
    obtain rfl : op = .init arg := hop
    exact hsent (fun h => h.2.elim id And.left) ⟨by decide, by decide⟩
  | @opened arg se' hop harg hse =>
    obtain rfl : op = .init arg := hop
    exact hsent (fun h => h.2.elim id And.left) rfl
  | closed hop hinit =>
    obtain rfl : op = .destroy := hop
    exact hsent (fun h => h.2.elim id And.left) (Reply.answers_of_awaited rfl)
  | early hop hinit =>
    exact hsent (fun h => Bool.false_ne_true (hinit.symm.trans h.1.1)) ⟨by decide, by decide⟩
  | late hop hdest =>
    exact hsent (fun h => Bool.false_ne_true (h.1.2.symm.trans hdest)) ⟨by decide, by decide⟩
  | interrupt hop hinit hdest =>
    obtain rfl : op = .interrupt := hop
    exact hsent (fun h => h.2.elim id And.left) ⟨by decide, by decide⟩
  | @forgotten nlookup hop hinit hdest =>
    obtain rfl : op = .forget nlookup := hop
    exact ⟨iff_of_true rfl ⟨⟨hinit, hdest⟩, Or.inl trivial⟩,
      fun a ha => absurd ha (Option.not_mem_none a)⟩
  | served hop hinit hdest =>
    obtain ⟨hnone, hanswers⟩ := @serve_answers _ env _ se hop
    refine ⟨hnone.trans ⟨fun h => ⟨⟨hinit, hdest⟩, Or.inr h⟩, fun h => h.2.resolve_left ?_⟩,
      hanswers⟩
    cases op <;> first | exact id | exact hop.elim

/-- **Every packet is answered once, and the answer is received.** As long as no panic has ended the
program, only a `FORGET` and a malformed packet are not answered, and these only between `INIT` and
`DESTROY`. From the message of an answer the kernel takes the number of the packet and what was
answered, where it awaits the body of the operation. The entries that answer a `READDIR` are those
that `ReplyDirectory::add` has put into a buffer of the size asked for. -/
theorem answers_received (se : Session X) (env : Env) (p : Packet) (hunique : p.unique < 2 ^ 64) :
    (se.answer (env, p) = none ↔ se.crashed = true ∨
      (se.initialized = true ∧ se.destroyed = false) ∧ (p.Forgets ∨ p.Malformed)) ∧
    (∀ a, se.answer (env, p) = some a → a.InRange → (a.message p.unique).length < 2 ^ 32 →
      receive p.awaits (a.message p.unique) = some (p.unique, a.received)) ∧
    ∀ fh offset size entries, p.op = .readdir fh offset size →
      se.answer (env, p) = some (.reply (.directory entries)) →
      ∃ list, ((se.filesystem.openDirHandler.lookup (asU32 p.nodeid)).bind
          fun n => n.list.lookup fh) = some list ∧
        (Reply.directory entries).received.body =
          ((ReplyDirectory.new size).fill (list.zipIdx.drop (offset % 2 ^ 64).toNat)).data ∧
        (Reply.directory entries).received.body.length ≤ size := by
  by_cases hcrash : se.crashed = true
  · have hnone : se.answer (env, p) = none := if_pos hcrash
    rw [hnone]
    exact ⟨iff_of_true rfl (Or.inl hcrash), fun a ha => absurd ha (Option.some_ne_none a).symm,
      fun _ _ _ _ _ ha => absurd ha (Option.some_ne_none _).symm⟩
  obtain ⟨hnone, hanswers⟩ := dispatch_answers env p se
  rw [answer_of_alive (Bool.eq_false_of_not_eq_true hcrash), or_iff_right hcrash]
  refine ⟨hnone, fun a ha hrange hlen => a.receive_message hrange (hanswers a ha) hunique hlen, ?_⟩
  intro fh offset size entries hop ha
  obtain ⟨unique, nodeid, op⟩ := p
  obtain rfl : op = .readdir fh offset size := hop
  refine @SqliteFs.readdir_body _ env _ fh offset _ se.filesystem entries ?_
  by_cases hgate : se.initialized = false ∨ se.destroyed = true
  · have hrefused : dispatch env ⟨unique, nodeid, .readdir fh offset size⟩ se =
        (se, some (.failed EIO)) := if_pos hgate
    rw [hrefused] at ha
    exact absurd (Option.some.inj ha) Answer.noConfusion
  · have hserved : dispatch env ⟨unique, nodeid, .readdir fh offset size⟩ se =
        serve env (some (.readdir nodeid fh offset size)) se := if_neg hgate
    rw [hserved] at ha
    exact ha

/-- The names in the root are read back from the message that answers a `READDIR`. -/
theorem answers_received_sample :
    let opening : Env × Packet := (.sample, ⟨2, 0, .init ⟨7, 31, 131072, 3⟩⟩)
    let making : Env × Packet := (.sample, ⟨4, 1, .mkdir 0o755 [97]⟩)
    let listing : Env × Packet := (.sample, ⟨6, 1, .opendir⟩)
    let entries : List Dirent :=
      [⟨1, 1, .Directory, [46]⟩, ⟨1, 2, .Directory, [46, 46]⟩, ⟨2, 3, .Directory, [97]⟩]
    let a : Answer := .reply (.directory entries)
    (sample.run [opening, making, listing]).answer (.sample, ⟨8, 1, .readdir 0 0 4096⟩) = some a ∧
      receive .directory (a.message 8) = some (8, .directory entries) ∧
      (Reply.directory entries).received.body.length ≤ 4096 := by
  intro opening making listing entries a
  have hanswer : (sample.run [opening, making, listing]).answer
      (.sample, ⟨8, 1, .readdir 0 0 4096⟩) = some a := by
    decide +kernel
  obtain ⟨-, hreceived, hbody⟩ := answers_received (sample.run [opening, making, listing]) .sample
    ⟨8, 1, .readdir 0 0 4096⟩ (by decide)
  have hrange : a.InRange := by
    have hall : ∀ d ∈ entries, d.ino < 2 ^ 64 ∧ d.off < 2 ^ 63 ∧ d.name.length < 2 ^ 32 := by
      decide
    exact fun d hd => ⟨(hall d hd).1, (hall d hd).2.1, (hall d hd).2.2⟩
  obtain ⟨-, -, -, hlen⟩ := hbody 0 0 4096 entries rfl hanswer
  exact ⟨hanswer, hreceived a hanswer hrange (by decide +kernel), hlen⟩

end Session

end TemporalFs
