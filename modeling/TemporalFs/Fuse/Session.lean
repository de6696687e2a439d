import Mathlib
import TemporalFs.Fs.CrashRuns
import TemporalFs.Fuse.Replies

/-!
# The session with the kernel

`Request::dispatch` of `fuse/patches/request.rs`, for Linux. The kernel opens a session with `INIT`,
then sends operations, and closes it with `DESTROY`. The session refuses what comes too early or too
late, and passes the rest on to the file system. A packet is given with the arguments that its
operation fetches from it.

A reply that is dropped without being sent sends `EIO`, so that a handler that panics is answered
too. The panic ends the program, which dispatches nothing more.

The session keeps two flags. What it does with a packet is said here by the packets that came
before: whether one of them has opened the session, and whether a later one has closed it.

## Main definitions

* `Operation`, `Packet`: what the kernel sends.
* `Session.dispatch`: what the session does with a packet.
* `Session.run`: the session after a list of packets.
* `refusal`: the error that a packet is refused with, by the packets before it.
* `calls`: the calls of the file system that a list of packets makes.

## Main results

* `Session.dispatch_spec`: what a packet can do.
* `Session.Traced.run`: the flags say what has come before, and the file system has had the calls.
* `Session.packets_in_order`: which packets reach the file system, and what becomes of the others.
-/

namespace TemporalFs

variable {X : Externals}

/-! ### Packets -/

/-- `fuse_init_in`, the argument of `INIT`. -/
structure FuseInitIn where
  major : ℕ
  minor : ℕ
  maxReadahead : ℕ
  flags : ℕ

/-- `fuse_setattr_in`, without the fields that nothing reads. Which of them count is told by the
bits of `valid`. -/
structure FuseSetattrIn where
  valid : ℕ
  size : ℕ
  atime : ℤ
  mtime : ℤ
  atimensec : ℤ
  mtimensec : ℤ
  mode : ℕ
  uid : UInt32
  gid : UInt32

/-- `FATTR_MODE`. -/
def fattrMode : ℕ := 1

/-- `FATTR_UID`. -/
def fattrUid : ℕ := 2

/-- `FATTR_GID`. -/
def fattrGid : ℕ := 4

/-- `FATTR_SIZE`. -/
def fattrSize : ℕ := 8

/-- `FATTR_ATIME`. -/
def fattrAtime : ℕ := 16

/-- `FATTR_MTIME`. -/
def fattrMtime : ℕ := 32

/-- An argument of `setattr` that counts only where its bit is set. -/
def given {α : Type} (valid bit : ℕ) (a : α) : Option α :=
  if valid &&& bit = 0 then none else some a

/-- The attributes that a packet names; the rest is for macOS. -/
def FuseSetattrIn.attrs (arg : FuseSetattrIn) : SqliteFs.SetAttr where
  mode := given arg.valid fattrMode arg.mode
  uid := given arg.valid fattrUid arg.uid
  gid := given arg.valid fattrGid arg.gid
  size := given arg.valid fattrSize arg.size
  atime := given arg.valid fattrAtime ⟨arg.atime, arg.atimensec⟩
  mtime := given arg.valid fattrMtime ⟨arg.mtime, arg.mtimensec⟩
  crtime := none
  flags := none

/-- The operations, with the arguments that `dispatch` reads and `SqliteFs` does not ignore. -/
inductive Operation
  /-- A number that is no `fuse_opcode`. -/
  | unknown
  | init (arg : FuseInitIn)
  | destroy
  | interrupt
  | lookup (name : Bytes)
  | forget (nlookup : ℕ)
  | getattr
  | setattr (arg : FuseSetattrIn)
  | readlink
  | mkdir (mode : ℕ) (name : Bytes)
  | unlink (name : Bytes)
  | rmdir (name : Bytes)
  | symlink (name link : Bytes)
  | rename (newdir : ℕ) (name newname : Bytes)
  | link (oldnodeid : ℕ) (newname : Bytes)
  | open (flags : ℕ)
  | read (fh : ℕ) (offset : ℤ) (size : ℕ)
  | write (fh : ℕ) (offset : ℤ) (size : ℕ) (data : Bytes)
  | release (fh : ℕ)
  | opendir
  | readdir (fh : ℕ) (offset : ℤ) (size : ℕ)
  | releasedir (fh : ℕ)
  | statfs
  | setxattr (size flags : ℕ) (name value : Bytes)
  | getxattr (size : ℕ) (name : Bytes)
  | listxattr (size : ℕ)
  | removexattr (name : Bytes)
  | create (mode : ℕ) (name : Bytes)
  /-- `mknod`, `flush`, `fsync`, `fsyncdir`, `access`, `getlk`, `setlk` and `bmap`, which `SqliteFs`
  leaves to the trait. -/
  | unimplemented

/-- The operations that reach a handler with something to reply with. -/
def Operation.Served : Operation → Prop
  | .unknown | .init _ | .destroy | .interrupt | .forget _ => False
  | _ => True

/-- The operations that are passed on between `INIT` and `DESTROY` only. -/
def Operation.Gated : Operation → Prop
  | .unknown | .init _ | .destroy => False
  | _ => True

/-- A packet: the number of the request, the inode that it is about, and the operation. -/
structure Packet where
  unique : ℕ
  nodeid : ℕ
  op : Operation

/-- The call of the file system that a packet asks for; `none` where `dispatch` panics, as its
assertions on the length of the data do. -/
def Packet.request (p : Packet) : Option Request :=
  match p.op with
  | .unknown => none
  | .init _ => some .init
  | .destroy => some .destroy
  | .interrupt => none
  | .lookup name => some (.lookup p.nodeid name)
  | .forget nlookup => some (.forget p.nodeid nlookup)
  | .getattr => some (.getattr p.nodeid)
  | .setattr arg => some (.setattr p.nodeid arg.attrs)
  | .readlink => some (.readlink p.nodeid)
  | .mkdir mode name => some (.mkdir p.nodeid name mode)
  | .unlink name => some (.unlink p.nodeid name)
  | .rmdir name => some (.rmdir p.nodeid name)
  | .symlink name link => some (.symlink p.nodeid name link)
  | .rename newdir name newname => some (.rename p.nodeid name newdir newname)
  | .link oldnodeid newname => some (.link oldnodeid p.nodeid newname)
  | .open flags => some (.open p.nodeid flags)
  | .read fh offset size => some (.read p.nodeid fh offset size)
  | .write fh offset size data =>
    if data.length = size then some (.write p.nodeid fh offset data) else none
  | .release fh => some (.release p.nodeid fh)
  | .opendir => some (.opendir p.nodeid)
  | .readdir fh offset size => some (.readdir p.nodeid fh offset size)
  | .releasedir fh => some (.releasedir p.nodeid fh)
  | .statfs => some (.statfs p.nodeid)
  | .setxattr size flags name value =>
    if value.length = size then some (.setxattr p.nodeid name value flags) else none
  | .getxattr size name => some (.getxattr p.nodeid name size)
  | .listxattr size => some (.listxattr p.nodeid size)
  | .removexattr name => some (.removexattr p.nodeid name)
  | .create mode name => some (.create p.nodeid name mode)
  | .unimplemented => some .unimplemented

/-! ### Dispatch -/

/-- What the kernel is sent where a handler ends without a reply. -/
def EIO : ℕ := 5

/-- What the kernel is sent for a request that is not implemented. -/
def ENOSYS : ℕ := 38

/-- What the kernel is sent if its protocol is too old. -/
def EPROTO : ℕ := 71

/-- `FUSE_KERNEL_VERSION`. -/
def fuseKernelVersion : ℕ := 7

/-- `FUSE_KERNEL_MINOR_VERSION`. -/
def fuseKernelMinorVersion : ℕ := 8

/-- `FUSE_ASYNC_READ`. -/
def initFlags : ℕ := 1

/-- What is sent to the kernel for a packet: a reply of the file system, or one of the session. -/
inductive Answer
  | reply (r : Reply)
  | failed (code : ℕ)
  | init (o : FuseInitOut)
  deriving DecidableEq

/-- What is sent for a handler that was given something to reply with. -/
def Outcome.answer : Outcome → Option Answer
  | .replied r => some (.reply r)
  | .silent => none
  | .crashed (some r) => some (.reply r)
  | .crashed none => some (.failed EIO)

/-- `Session`, with the constant `MAX_WRITE_SIZE` of its module. Its two flags tell whether `INIT`
and `DESTROY` have come. -/
structure Session (X : Externals) where
  filesystem : SqliteFs X
  protoMajor : ℕ
  protoMinor : ℕ
  initialized : Bool
  destroyed : Bool
  maxWriteSize : ℕ
  /-- A panic has ended the program. -/
  crashed : Bool

/-- ABI versions before 7.6 are not supported, and `INIT` is refused for them. -/
def FuseInitIn.Supported (arg : FuseInitIn) : Prop :=
  ¬ (arg.major < 7 ∨ arg.major = 7 ∧ arg.minor < 6)

instance (arg : FuseInitIn) : Decidable arg.Supported := inferInstanceAs (Decidable (¬ _))

namespace Session

/-- The reply to `INIT`. -/
def initOut (se : Session X) (arg : FuseInitIn) : FuseInitOut where
  major := fuseKernelVersion
  minor := fuseKernelMinorVersion
  maxReadahead := arg.maxReadahead
  flags := arg.flags &&& initFlags
  unused := 0
  maxWrite := se.maxWriteSize

/-- Call the file system with a request. A panic of its handler ends the program. -/
def call (env : Env) (req : Request) (se : Session X) : Session X × Outcome :=
  let res := SqliteFs.handle env req se.filesystem
  ({ se with filesystem := res.1, crashed := decide res.2.Crashed }, res.2)

/-- Call the file system with something to reply with. Where the handler drops it, the kernel is
sent an error. -/
def serve (env : Env) (req : Option Request) (se : Session X) : Session X × Option Answer :=
  match req with
  | none => ({ se with crashed := true }, none)
  | some req => ((call env req se).1, (call env req se).2.answer)

/-- `Request::dispatch`: what a packet comes to, with the two gates that ask for `INIT` and against
`DESTROY`. -/
def dispatch (env : Env) (p : Packet) (se : Session X) : Session X × Option Answer :=
  match p.op with
  | .unknown => (se, some (.failed ENOSYS))
  | .init arg =>
    if ¬ arg.Supported then (se, some (.failed EPROTO))
    else
      let called := call env .init { se with protoMajor := arg.major, protoMinor := arg.minor }
      -- the reply is made before the call, so that a panic drops it
      if called.2.Crashed then (called.1, some (.failed EIO))
      else ({ called.1 with initialized := true }, some (.init (se.initOut arg)))
  | .destroy =>
    if se.initialized = false then (se, some (.failed EIO))
    else
      let called := call env .destroy se
      -- here the reply is made after the call
      if called.2.Crashed then (called.1, none)
      else ({ called.1 with destroyed := true }, some (.reply .ok))
  | .interrupt =>
    if se.initialized = false ∨ se.destroyed = true then (se, some (.failed EIO))
    else (se, some (.failed ENOSYS))
  | .forget nlookup =>
    if se.initialized = false ∨ se.destroyed = true then (se, some (.failed EIO))
    else ((call env (.forget p.nodeid nlookup) se).1, none)
  | _ =>
    if se.initialized = false ∨ se.destroyed = true then (se, some (.failed EIO))
    else serve env p.request se

/-- The session after a packet. A session in which a handler has panicked is over and takes no more.
-/
def next (se : Session X) (r : Env × Packet) : Session X :=
  if se.crashed then se else (dispatch r.1 r.2 se).1

/-- What is sent for a packet, `none` where nothing is. -/
def answer (se : Session X) (r : Env × Packet) : Option Answer :=
  if se.crashed then none else (dispatch r.1 r.2 se).2

/-- The session after a list of packets, each with the surroundings of its request. -/
def run (se : Session X) (ps : List (Env × Packet)) : Session X := ps.foldl next se

/-! ### What a packet can do -/

/-- `INIT` does not panic. -/
theorem not_crashed_init (env : Env) (se : Session X) : ¬ (call env .init se).2.Crashed :=
  (SqliteFs.crashed_iff_of_panicsIff_silently
    (SqliteFs.calm_init.panicsIff se.filesystem (P := False) id)).not.2 id

/-- Neither does `DESTROY`. -/
theorem not_crashed_destroy (env : Env) (se : Session X) : ¬ (call env .destroy se).2.Crashed :=
  (SqliteFs.crashed_iff_of_panicsIff_silently
    (SqliteFs.calm_destroy.panicsIff se.filesystem (P := False) id)).not.2 id

/-- What `dispatch` can come to: the packet is refused, it sets a flag, or it is passed on. -/
inductive Dispatched (env : Env) (p : Packet) (se : Session X) : Session X × Option Answer → Prop
  | unknown (hop : p.op = .unknown) : Dispatched env p se (se, some (.failed ENOSYS))
  | unsupported {arg : FuseInitIn} (hop : p.op = .init arg) (harg : ¬ arg.Supported) :
    Dispatched env p se (se, some (.failed EPROTO))
  | opened {arg : FuseInitIn} {se' : Session X} (hop : p.op = .init arg) (harg : arg.Supported)
      (hse : se' = { se with protoMajor := arg.major, protoMinor := arg.minor }) :
    Dispatched env p se
      ({ (call env .init se').1 with initialized := true }, some (.init (se.initOut arg)))
  | closed (hop : p.op = .destroy) (hinit : se.initialized = true) :
    Dispatched env p se ({ (call env .destroy se).1 with destroyed := true }, some (.reply .ok))
  /-- Before initialization. -/
  | early (hop : p.op = .destroy ∨ p.op.Gated) (hinit : se.initialized = false) :
    Dispatched env p se (se, some (.failed EIO))
  /-- After destroy. -/
  | late (hop : p.op.Gated) (hdest : se.destroyed = true) :
    Dispatched env p se (se, some (.failed EIO))
  | interrupt (hop : p.op = .interrupt) (hinit : se.initialized = true)
      (hdest : se.destroyed = false) : Dispatched env p se (se, some (.failed ENOSYS))
  | forgotten {nlookup : ℕ} (hop : p.op = .forget nlookup) (hinit : se.initialized = true)
      (hdest : se.destroyed = false) :
    Dispatched env p se ((call env (.forget p.nodeid nlookup) se).1, none)
  | served (hop : p.op.Served) (hinit : se.initialized = true)
      (hdest : se.destroyed = false) : Dispatched env p se (serve env p.request se)

/-- The two gates in front of an operation. -/
theorem dispatched_gates {env : Env} {p : Packet} {se : Session X}
    {res : Session X × Option Answer} (hop : p.op.Gated)
    (hres : se.initialized = true → se.destroyed = false → Dispatched env p se res) :
    Dispatched env p se
      (if se.initialized = false ∨ se.destroyed = true then (se, some (.failed EIO)) else res) := by
  by_cases hinit : se.initialized = false
  · rw [if_pos (Or.inl hinit)]
    exact .early (Or.inr hop) hinit
  by_cases hdest : se.destroyed = true
  · rw [if_pos (Or.inr hdest)]
    exact .late hop hdest
  rw [if_neg (not_or.2 ⟨hinit, hdest⟩)]
  exact hres (Bool.eq_true_of_not_eq_false hinit) (Bool.eq_false_of_not_eq_true hdest)

theorem dispatch_spec (env : Env) (p : Packet) (se : Session X) :
    Dispatched env p se (dispatch env p se) := by
  obtain ⟨unique, nodeid, op⟩ := p
  unfold dispatch
  cases op with
  | unknown => exact .unknown rfl
  | init arg =>
    dsimp only
    by_cases harg : arg.Supported
    · rw [if_neg (not_not.2 harg), if_neg (not_crashed_init _ _)]
      exact .opened rfl harg rfl
    · rw [if_pos harg]
      exact .unsupported rfl harg
  | destroy =>
    dsimp only
    by_cases hinit : se.initialized = false
    · rw [if_pos hinit]
      exact .early (Or.inl rfl) hinit
    · rw [if_neg hinit, if_neg (not_crashed_destroy _ _)]
      exact .closed rfl (Bool.eq_true_of_not_eq_false hinit)
  | interrupt => exact dispatched_gates trivial (.interrupt rfl)
  | forget nlookup => exact dispatched_gates trivial (.forgotten rfl)
  | _ => exact dispatched_gates trivial (.served trivial)

end Session

/-! ### What has come before -/

/-- The packet opens a session: an `INIT` of a version that is supported. -/
def Packet.Opens (p : Packet) : Prop :=
  match p.op with
  | .init arg => arg.Supported
  | _ => False

/-- The packet closes a session, if one is open: a `DESTROY`. -/
def Packet.Closes (p : Packet) : Prop :=
  match p.op with
  | .destroy => True
  | _ => False

instance (p : Packet) : Decidable p.Opens := by
  unfold Packet.Opens
  cases p.op <;> infer_instance

instance (p : Packet) : Decidable p.Closes := by
  unfold Packet.Closes
  cases p.op <;> infer_instance

/-- One of the packets has opened the session. -/
def Opened (before : List Packet) : Prop := ∃ p ∈ before, p.Opens

/-- One of the packets has opened the session, and a later one has closed it. -/
def Closed (before : List Packet) : Prop :=
  ¬ before.Pairwise fun p q => ¬ (p.Opens ∧ q.Closes)

instance (before : List Packet) : Decidable (Opened before) :=
  inferInstanceAs (Decidable (∃ p ∈ before, p.Opens))

instance (before : List Packet) : Decidable (Closed before) :=
  inferInstanceAs (Decidable (¬ before.Pairwise fun p q => ¬ (p.Opens ∧ q.Closes)))

/-- The error that a packet is refused with where these came before it; `none` where it is let
through. A session may be opened again, and closed again, at any time. -/
def refusal (before : List Packet) (p : Packet) : Option ℕ :=
  match p.op with
  | .unknown => some ENOSYS
  | .init arg => if arg.Supported then none else some EPROTO
  | .destroy => if Opened before then none else some EIO
  | .interrupt => some (if Opened before ∧ ¬ Closed before then ENOSYS else EIO)
  | _ => if Opened before ∧ ¬ Closed before then none else some EIO

/-- The call that a packet makes, where these came before it. -/
def Packet.call (before : List Packet) (r : Env × Packet) : Option (Env × Request) :=
  if refusal before r.2 = none then r.2.request.map (r.1, ·) else none

/-- The calls that packets make, where others came before them. -/
def callsAfter (before : List Packet) : List (Env × Packet) → List (Env × Request)
  | [] => []
  | r :: ps => (Packet.call before r).toList ++ callsAfter (before ++ [r.2]) ps

/-- The calls of the file system that a list of packets makes, in their order. -/
def calls (ps : List (Env × Packet)) : List (Env × Request) := callsAfter [] ps

theorem opened_append {before : List Packet} {p : Packet} :
    Opened (before ++ [p]) ↔ Opened before ∨ p.Opens := by
  simp only [Opened, List.mem_append, List.mem_singleton, or_and_right, exists_or, exists_eq_left]

theorem closed_append {before : List Packet} {p : Packet} :
    Closed (before ++ [p]) ↔ Closed before ∨ Opened before ∧ p.Closes := by
  unfold Closed Opened
  rw [List.pairwise_append, not_and_or]
  refine or_congr Iff.rfl ?_
  simp only [List.pairwise_singleton, true_and, List.mem_singleton, forall_eq, not_forall, not_not,
    exists_prop]
  exact ⟨fun ⟨q, hq, ho, hc⟩ => ⟨⟨q, hq, ho⟩, hc⟩, fun ⟨⟨q, hq, ho⟩, hc⟩ => ⟨q, hq, ho, hc⟩⟩

theorem callsAfter_append (before : List Packet) (ps : List (Env × Packet)) (r : Env × Packet) :
    callsAfter before (ps ++ [r]) =
      callsAfter before ps ++ (Packet.call (before ++ ps.map Prod.snd) r).toList := by
  induction ps generalizing before with
  | nil => rw [List.nil_append, callsAfter, callsAfter, callsAfter, List.map_nil, List.append_nil,
      List.append_nil, List.nil_append]
  | cons q ps ih =>
    rw [List.cons_append, callsAfter, callsAfter, ih, List.map_cons, List.append_assoc,
      List.append_assoc, List.singleton_append]

theorem calls_append (ps : List (Env × Packet)) (r : Env × Packet) :
    calls (ps ++ [r]) = calls ps ++ (Packet.call (ps.map Prod.snd) r).toList :=
  callsAfter_append [] ps r

/-- The operations behind the gates are refused alike. -/
theorem refusal_of_served {p : Packet} (h : p.op.Served) (before : List Packet) :
    refusal before p = if Opened before ∧ ¬ Closed before then none else some EIO := by
  obtain ⟨unique, nodeid, op⟩ := p
  cases op <;> first | rfl | exact h.elim

/-- What is sent for a packet that is let through. The kernel awaits nothing for a `FORGET`. -/
def Packet.answered (env : Env) (p : Packet) (se : Session X) : Option Answer :=
  match p.op with
  | .init arg => some (.init (se.initOut arg))
  | .destroy => some (.reply .ok)
  | .forget _ => none
  | _ => p.request.bind fun req => (SqliteFs.handle env req se.filesystem).2.answer

namespace Session

/-- A session that has received nothing: neither flag is set, and it is not over. -/
structure Fresh (se : Session X) : Prop where
  initialized : se.initialized = false
  destroyed : se.destroyed = false
  crashed : se.crashed = false

/-- The flags say what has come before, and the file system has had the calls. -/
structure Traced (start : SqliteFs X) (before : List (Env × Packet)) (se : Session X) : Prop where
  initialized : se.initialized = true ↔ Opened (before.map Prod.snd)
  destroyed : se.destroyed = true ↔ Closed (before.map Prod.snd)
  filesystem : se.filesystem = start.run (calls before)

theorem Fresh.traced {se : Session X} (h : se.Fresh) : Traced se.filesystem [] se where
  initialized := by
    rw [h.initialized]
    exact iff_of_false Bool.false_ne_true fun ⟨_, hmem, _⟩ => List.not_mem_nil hmem
  destroyed := by
    rw [h.destroyed]
    exact iff_of_false Bool.false_ne_true fun hclosed => hclosed .nil
  filesystem := rfl

section Traced

variable {start : SqliteFs X} {before : List (Env × Packet)} {se : Session X} {env : Env}
  {p : Packet}

theorem Traced.initialized_eq_false (h : Traced start before se) :
    se.initialized = false ↔ ¬ Opened (before.map Prod.snd) := by
  rw [← h.initialized, Bool.not_eq_true]

theorem Traced.destroyed_eq_false (h : Traced start before se) :
    se.destroyed = false ↔ ¬ Closed (before.map Prod.snd) := by
  rw [← h.destroyed, Bool.not_eq_true]

/-- What `dispatch` does with a packet that is let through. -/
structure LetThrough (env : Env) (p : Packet) (se : Session X)
    (res : Session X × Option Answer) : Prop where
  initialized : res.1.initialized = true ↔ se.initialized = true ∨ p.Opens
  destroyed : res.1.destroyed = true ↔ se.destroyed = true ∨ p.Closes
  filesystem : res.1.filesystem =
    p.request.elim se.filesystem fun req => se.filesystem.after (env, req)
  crashed : res.1.crashed = true ↔
    ∀ req, p.request = some req → (SqliteFs.handle env req se.filesystem).2.Crashed
  answered : res.2 = p.answered env se

/-- An operation that is served opens and closes nothing. -/
theorem served_letThrough (hop : p.op.Served) : LetThrough env p se (serve env p.request se) := by
  have hopens : ¬ p.Opens := by
    obtain ⟨unique, nodeid, op⟩ := p
    cases op <;> first | exact id | exact hop.elim
  have hcloses : ¬ p.Closes := by
    obtain ⟨unique, nodeid, op⟩ := p
    cases op <;> first | exact id | exact hop.elim
  have hanswered : p.answered env se =
      p.request.bind fun req => (SqliteFs.handle env req se.filesystem).2.answer := by
    obtain ⟨unique, nodeid, op⟩ := p
    cases op <;> first | rfl | exact hop.elim
  cases hreq : p.request with
  | none =>
    refine ⟨(or_iff_left hopens).symm, (or_iff_left hcloses).symm, ?_, ?_, ?_⟩
    · rw [hreq]
      rfl
    · rw [hreq]
      exact iff_of_true rfl fun req h => absurd h (Option.some_ne_none req).symm
    · rw [hanswered, hreq]
      rfl
  | some req =>
    refine ⟨(or_iff_left hopens).symm, (or_iff_left hcloses).symm, ?_, ?_, ?_⟩
    · rw [hreq]
      rfl
    · rw [hreq]
      exact decide_eq_true_iff.trans
        ⟨fun h req' hreq' => Option.some.inj hreq' ▸ h, fun h => h req rfl⟩
    · rw [hanswered, hreq]
      rfl

theorem refusal_of_gated {before : List Packet} (hop : p.op.Gated)
    (hgate : ¬ (Opened before ∧ ¬ Closed before)) : refusal before p = some EIO := by
  obtain ⟨unique, nodeid, op⟩ := p
  cases op <;> first | exact hop.elim | exact congrArg some (if_neg hgate) | exact if_neg hgate

/-- What becomes of a packet: it is refused and changes nothing, or it is let through. -/
inductive Settled (env : Env) (p : Packet) (se : Session X) :
    Option ℕ → Session X × Option Answer → Prop
  | refused (code : ℕ) : Settled env p se (some code) (se, some (.failed code))
  | letThrough {res : Session X × Option Answer} (hres : LetThrough env p se res) :
    Settled env p se none res

/-- **What has come before settles** what becomes of a packet. -/
theorem Traced.settled (h : Traced start before se) (env : Env) (p : Packet) :
    Settled env p se (refusal (before.map Prod.snd) p) (dispatch env p se) := by
  have hspec := dispatch_spec env p se
  generalize dispatch env p se = res at hspec ⊢
  cases hspec with
  | unknown hop =>
    have hrefusal : refusal (before.map Prod.snd) p = some ENOSYS := by
      unfold refusal
      rw [hop]
    rw [hrefusal]
    exact .refused ENOSYS
  | unsupported hop harg =>
    have hrefusal : refusal (before.map Prod.snd) p = some EPROTO := by
      unfold refusal
      rw [hop]
      exact if_neg harg
    rw [hrefusal]
    exact .refused EPROTO
  | @opened arg se' hop harg hse =>
    have hrefusal : refusal (before.map Prod.snd) p = none := by
      unfold refusal
      rw [hop]
      exact if_pos harg
    obtain ⟨unique, nodeid, op⟩ := p
    obtain rfl : op = .init arg := hop
    rw [hrefusal, hse]
    refine .letThrough ⟨?_, ?_, rfl, ?_, rfl⟩
    · exact iff_of_true rfl (Or.inr harg)
    · exact (or_iff_left id).symm
    · refine decide_eq_true_iff.trans ⟨fun hcrash req hreq => Option.some.inj hreq ▸ hcrash, ?_⟩
      exact fun hcrash => hcrash .init rfl
  | closed hop hinit =>
    have hrefusal : refusal (before.map Prod.snd) p = none := by
      unfold refusal
      rw [hop]
      exact if_pos (h.initialized.1 hinit)
    obtain ⟨unique, nodeid, op⟩ := p
    obtain rfl : op = .destroy := hop
    rw [hrefusal]
    refine .letThrough ⟨?_, ?_, rfl, ?_, rfl⟩
    · exact (or_iff_left id).symm
    · exact iff_of_true rfl (Or.inr trivial)
    · refine decide_eq_true_iff.trans ⟨fun hcrash req hreq => Option.some.inj hreq ▸ hcrash, ?_⟩
      exact fun hcrash => hcrash .destroy rfl
  | early hop hinit =>
    have hopen := h.initialized_eq_false.1 hinit
    have hrefusal : refusal (before.map Prod.snd) p = some EIO := by
      rcases hop with hop | hop
      · unfold refusal
        rw [hop]
        exact if_neg hopen
      · exact refusal_of_gated hop fun hgate => hopen hgate.1
    rw [hrefusal]
    exact .refused EIO
  | late hop hdest =>
    rw [refusal_of_gated hop fun hgate => hgate.2 (h.destroyed.1 hdest)]
    exact .refused EIO
  | interrupt hop hinit hdest =>
    have hrefusal : refusal (before.map Prod.snd) p = some ENOSYS := by
      unfold refusal
      rw [hop]
      exact congrArg some (if_pos ⟨h.initialized.1 hinit, h.destroyed_eq_false.1 hdest⟩)
    rw [hrefusal]
    exact .refused ENOSYS
  | @forgotten nlookup hop hinit hdest =>
    have hrefusal : refusal (before.map Prod.snd) p = none := by
      unfold refusal
      rw [hop]
      exact if_pos ⟨h.initialized.1 hinit, h.destroyed_eq_false.1 hdest⟩
    obtain ⟨unique, nodeid, op⟩ := p
    obtain rfl : op = .forget nlookup := hop
    rw [hrefusal]
    refine .letThrough ⟨(or_iff_left id).symm, (or_iff_left id).symm, rfl, ?_, rfl⟩
    refine decide_eq_true_iff.trans ⟨fun hcrash req hreq => Option.some.inj hreq ▸ hcrash, ?_⟩
    exact fun hcrash => hcrash (.forget nodeid nlookup) rfl
  | served hop hinit hdest =>
    rw [refusal_of_served hop, if_pos ⟨h.initialized.1 hinit, h.destroyed_eq_false.1 hdest⟩]
    exact .letThrough (served_letThrough hop)

/-- A packet that is refused does not open the session, and closes none that is open. -/
theorem opens_closes_of_refused {before : List Packet} {code : ℕ}
    (h : refusal before p = some code) : ¬ p.Opens ∧ ¬ (Opened before ∧ p.Closes) := by
  obtain ⟨unique, nodeid, op⟩ := p
  cases op with
  | init arg =>
    refine ⟨fun harg => ?_, fun hclose => hclose.2⟩
    have hnone : refusal before ⟨unique, nodeid, .init arg⟩ = none := if_pos harg
    exact Option.some_ne_none code (h.symm.trans hnone)
  | destroy =>
    refine ⟨id, fun hclose => ?_⟩
    have hnone : refusal before ⟨unique, nodeid, .destroy⟩ = none := if_pos hclose.1
    exact Option.some_ne_none code (h.symm.trans hnone)
  | _ => exact ⟨id, fun hclose => hclose.2⟩

/-- A packet that is let through closes only a session that was opened. -/
theorem opened_of_closes {before : List Packet} (h : refusal before p = none) (hclose : p.Closes) :
    Opened before := by
  obtain ⟨unique, nodeid, op⟩ := p
  cases op with
  | destroy =>
    by_contra hopen
    have hsome : refusal before ⟨unique, nodeid, .destroy⟩ = some EIO := if_neg hopen
    exact Option.some_ne_none EIO (hsome.symm.trans h)
  | _ => exact hclose.elim

theorem next_of_alive (halive : se.crashed = false) (env : Env) (p : Packet) :
    se.next (env, p) = (dispatch env p se).1 :=
  if_neg (Bool.not_eq_true _ ▸ halive)

theorem answer_of_alive (halive : se.crashed = false) (env : Env) (p : Packet) :
    se.answer (env, p) = (dispatch env p se).2 :=
  if_neg (Bool.not_eq_true _ ▸ halive)

/-- **One packet** keeps the flags true to what has come. -/
theorem Traced.next (h : Traced start before se) (halive : se.crashed = false) (env : Env)
    (p : Packet) : Traced start (before ++ [(env, p)]) (se.next (env, p)) := by
  have hsettled := h.settled env p
  rw [next_of_alive halive]
  have hcall : calls (before ++ [(env, p)]) =
      calls before ++ (Packet.call (before.map Prod.snd) (env, p)).toList := calls_append _ _
  have hpast : (before ++ [(env, p)]).map Prod.snd = before.map Prod.snd ++ [p] :=
    List.map_append
  generalize hcode : refusal (before.map Prod.snd) p = code at hsettled
  generalize dispatch env p se = res at hsettled ⊢
  cases hsettled with
  | refused code =>
    obtain ⟨hopens, hcloses⟩ := opens_closes_of_refused hcode
    have hnone : Packet.call (before.map Prod.snd) (env, p) = none :=
      if_neg (hcode ▸ Option.some_ne_none code)
    refine ⟨?_, ?_, ?_⟩
    · rw [hpast, opened_append, or_iff_left hopens]
      exact h.initialized
    · rw [hpast, closed_append, or_iff_left hcloses]
      exact h.destroyed
    · rw [hcall, hnone, Option.toList_none, List.append_nil]
      exact h.filesystem
  | letThrough hres =>
    have hsome : Packet.call (before.map Prod.snd) (env, p) = p.request.map (env, ·) := if_pos hcode
    refine ⟨?_, ?_, ?_⟩
    · rw [hpast, opened_append, hres.initialized, h.initialized]
    · rw [hpast, closed_append, hres.destroyed, h.destroyed]
      refine or_congr Iff.rfl ⟨fun hclose => ⟨opened_of_closes hcode hclose, hclose⟩, And.right⟩
    · rw [hcall, hsome, SqliteFs.run_append, ← h.filesystem, hres.filesystem]
      cases p.request <;> rfl

end Traced

theorem run_append_singleton (se : Session X) (ps : List (Env × Packet)) (r : Env × Packet) :
    se.run (ps ++ [r]) = (se.run ps).next r :=
  List.foldl_append

/-- **Every run** keeps them so, as long as no panic has ended the program. -/
theorem Traced.run {se : Session X} (hnew : se.Fresh) {before : List (Env × Packet)}
    (halive : (se.run before).crashed = false) :
    Traced se.filesystem before (se.run before) := by
  induction before using List.reverseRecOn with
  | nil => exact hnew.traced
  | append_singleton ps r ih =>
    rw [run_append_singleton] at halive ⊢
    have hbefore : (se.run ps).crashed = false := by
      by_contra hcrash
      have hsame : (se.run ps).next r = se.run ps := if_pos (Bool.eq_true_of_not_eq_false hcrash)
      rw [hsame] at halive
      exact hcrash halive
    exact (ih hbefore).next hbefore r.1 r.2

/-- **Packets reach the file system in order.** What the session does with a packet is settled by
the packets before it, as long as no panic has ended the program. The state of the file system is
that after the calls of the packets that were let through. A packet that is refused changes nothing
and is answered with an error; one that is let through is passed to its handler, and answered with
what that replies. -/
theorem packets_in_order {se : Session X} (hnew : se.Fresh) {before : List (Env × Packet)}
    (halive : (se.run before).crashed = false) (env : Env) (p : Packet) :
    (se.run before).filesystem = se.filesystem.run (calls before) ∧
      (∀ code, refusal (before.map Prod.snd) p = some code →
        (se.run before).next (env, p) = se.run before ∧
          (se.run before).answer (env, p) = some (.failed code)) ∧
      (refusal (before.map Prod.snd) p = none →
        ((se.run before).next (env, p)).filesystem = (p.request.elim (se.run before).filesystem
          fun req => (se.run before).filesystem.after (env, req)) ∧
        (((se.run before).next (env, p)).crashed = true ↔ ∀ req, p.request = some req →
          (SqliteFs.handle env req (se.run before).filesystem).2.Crashed) ∧
        (se.run before).answer (env, p) = p.answered env (se.run before)) := by
  have htraced := Traced.run hnew halive
  have hsettled := htraced.settled env p
  rw [next_of_alive halive, answer_of_alive halive]
  refine ⟨htraced.filesystem, fun code hcode => ?_, fun hnone => ?_⟩
  · rw [hcode] at hsettled
    generalize dispatch env p (se.run before) = res at hsettled ⊢
    cases hsettled
    exact ⟨rfl, rfl⟩
  · rw [hnone] at hsettled
    generalize dispatch env p (se.run before) = res at hsettled ⊢
    cases hsettled with
    | letThrough hres => exact ⟨hres.filesystem, hres.crashed, hres.answered⟩

/-- A session over a database just initialised, for samples. -/
def sample : Session .sample := ⟨SqliteFs.sample, 0, 0, false, false, 16777216, false⟩

theorem fresh_sample : sample.Fresh := ⟨rfl, rfl, rfl⟩

/-- A packet before `INIT` is refused, and those after it reach the file system. -/
theorem packets_in_order_sample :
    let early : Env × Packet := (.sample, ⟨2, 1, .getattr⟩)
    let opening : Env × Packet := (.sample, ⟨4, 0, .init ⟨7, 31, 131072, 3⟩⟩)
    let making : Env × Packet := (.sample, ⟨6, 1, .mkdir 0o755 [97]⟩)
    sample.answer early = some (.failed EIO) ∧
      (sample.run [early, opening, making]).filesystem =
        SqliteFs.sample.run [(.sample, .init), (.sample, .mkdir 1 [97] 0o755)] := by
  intro early opening making
  have hfirst := @packets_in_order _ _ fresh_sample [] rfl Env.sample ⟨2, 1, .getattr⟩
  have hmade := @packets_in_order _ _ fresh_sample [early, opening, making]
    (by decide +kernel) Env.sample ⟨8, 1, .getattr⟩
  exact ⟨(hfirst.2.1 EIO rfl).2, hmade.1⟩

end Session

end TemporalFs
