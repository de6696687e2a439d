import Mathlib
import TemporalFs.Fs.Handlers

/-!
# Requests and runs

The kernel sends requests one at a time and `SqliteFs` handles each to its end. A request is given
with its environment, so that a run is a list of both. The operations that `SqliteFs` does not
implement are answered with `ENOSYS` by the trait's defaults.

A handler that panics ends the program. A run goes on after a panic with the state the handler
left, so that what holds after every run holds whether or not the program was started again on
the same state.

## Main definitions

* `Request`, `SqliteFs.handle`: the requests and their dispatch.
* `Outcome`: what the kernel gets to see of a request.
* `SqliteFs.run`: the state after a list of requests.
* `SqliteFs.new`, `SqliteFs.newAtTime`, `SqliteFs.newReadOnly`: mounting.
-/

namespace TemporalFs

variable {X : Externals}

/-- The requests of the kernel. A request that the program does not implement is replied
`ENOSYS`. -/
inductive Request
  | init
  | destroy
  | lookup (parent : ℕ) (name : Bytes)
  | forget (ino nlookup : ℕ)
  | getattr (ino : ℕ)
  | setattr (ino : ℕ) (attrs : SqliteFs.SetAttr)
  | readlink (ino : ℕ)
  | mkdir (parent : ℕ) (name : Bytes) (mode : ℕ)
  | unlink (parent : ℕ) (name : Bytes)
  | rmdir (parent : ℕ) (name : Bytes)
  | symlink (parent : ℕ) (name link : Bytes)
  | rename (parent : ℕ) (name : Bytes) (newparent : ℕ) (newname : Bytes)
  | link (ino newparent : ℕ) (newname : Bytes)
  | open (ino flags : ℕ)
  | read (ino fh : ℕ) (offset : ℤ) (size : ℕ)
  | write (ino fh : ℕ) (offset : ℤ) (data : Bytes)
  | release (ino fh : ℕ)
  | opendir (ino : ℕ)
  | readdir (ino fh : ℕ) (offset : ℤ) (size : ℕ)
  | releasedir (ino fh : ℕ)
  | statfs (ino : ℕ)
  | setxattr (ino : ℕ) (name value : Bytes) (flags : ℕ)
  | getxattr (ino : ℕ) (name : Bytes) (size : ℕ)
  | listxattr (ino size : ℕ)
  | removexattr (ino : ℕ) (name : Bytes)
  | create (parent : ℕ) (name : Bytes) (mode : ℕ)
  | unimplemented

/-- What a request comes to: a reply, none where the kernel awaits none, or a panic after a reply
that may have been sent. -/
inductive Outcome
  | replied (r : Reply)
  | silent
  | crashed (sent : Option Reply)
  deriving DecidableEq

/-- Surroundings at the epoch in which no call fails, for samples. -/
def Env.sample : Env :=
  ⟨epoch, fun _ => epoch, fun _ => false, 0, 0, true, none, id, fun _ => .refl _⟩

namespace SqliteFs

/-- The outcome of a handler that replies: what it returns, or what it has exited with. -/
def outcome (h : Handler X Reply) (self : SqliteFs X) : SqliteFs X × Outcome :=
  match h self with
  | (self', .ok r) => (self', .replied r)
  | (self', .error (.reply r)) => (self', .replied r)
  | (self', .error (.panic sent)) => (self', .crashed sent)

/-- The outcome of a handler that does not reply, whether it has gone through or stopped. -/
def silently (h : Handler X Unit) (self : SqliteFs X) : SqliteFs X × Outcome :=
  match h self with
  | (self', .error (.panic sent)) => (self', .crashed sent)
  | (self', _) => (self', .silent)

theorem outcome_fst (h : Handler X Reply) (s : SqliteFs X) : (outcome h s).1 = (h s).1 := by
  unfold outcome
  rcases h s with ⟨s', (r | sent) | r⟩ <;> rfl

theorem silently_fst (h : Handler X Unit) (s : SqliteFs X) : (silently h s).1 = (h s).1 := by
  unfold silently
  rcases h s with ⟨s', (r | sent) | r⟩ <;> rfl

/-- The handler of a request. Most requests are replied, a few are not. -/
def handle (env : Env) : Request → SqliteFs X → SqliteFs X × Outcome
  | .init => silently (init env)
  | .destroy => silently (destroy env)
  | .lookup parent name => outcome (lookup env parent name)
  | .forget ino nlookup => silently (forget env ino nlookup)
  | .getattr ino => outcome (getattr env ino)
  | .setattr ino attrs => outcome (setattr env ino attrs)
  | .readlink ino => outcome (readlink env ino)
  | .mkdir parent name mode => outcome (mkdir env parent name mode)
  | .unlink parent name => outcome (unlink env parent name)
  | .rmdir parent name => outcome (rmdir env parent name)
  | .symlink parent name link => outcome (symlink env parent name link)
  | .rename parent name newparent newname => outcome (rename env parent name newparent newname)
  | .link ino newparent newname => outcome (link env ino newparent newname)
  | .open ino flags => outcome («open» env ino flags)
  | .read ino _ offset size => outcome (read env ino offset size)
  | .write ino _ offset data => outcome (write env ino offset data)
  | .release ino fh => outcome (release env ino fh)
  | .opendir ino => outcome (opendir env ino)
  | .readdir ino fh offset size => outcome (readdir env ino fh offset size)
  | .releasedir ino fh => outcome (releasedir env ino fh)
  | .statfs _ => outcome (statfs env)
  | .setxattr ino name value flags => outcome (setxattr env ino name value flags)
  | .getxattr ino name size => outcome (getxattr env ino name size)
  | .listxattr ino size => outcome (listxattr env ino size)
  | .removexattr ino name => outcome (removexattr env ino name)
  | .create parent name mode => outcome (create env parent name mode)
  | .unimplemented => fun self => (self, .replied (.error .ENOSYS))

/-- The state after a request, whatever its outcome. -/
def after (self : SqliteFs X) (r : Env × Request) : SqliteFs X := (handle r.1 r.2 self).1

/-- The state after a list of requests, each with its own surroundings. -/
def run (self : SqliteFs X) (rs : List (Env × Request)) : SqliteFs X := rs.foldl after self

@[simp] theorem run_nil (self : SqliteFs X) : self.run [] = self := rfl

@[simp] theorem run_cons (self : SqliteFs X) (r : Env × Request) (rs : List (Env × Request)) :
    self.run (r :: rs) = (self.after r).run rs := rfl

theorem run_append (self : SqliteFs X) (rs rs' : List (Env × Request)) :
    self.run (rs ++ rs') = (self.run rs).run rs' :=
  List.foldl_append

/-- What every request keeps, every run keeps. -/
theorem run_induction {I : SqliteFs X → Prop} (rs : List (Env × Request))
    (hstep : ∀ s, ∀ r ∈ rs, I s → I (s.after r)) (s : SqliteFs X) (hs : I s) : I (s.run rs) := by
  induction rs generalizing s with
  | nil => exact hs
  | cons r rs ih =>
    exact ih (fun s' r' hr' => hstep s' r' (List.mem_cons_of_mem _ hr')) _
      (hstep s r List.mem_cons_self hs)

/-! ### Mounting -/

/-- A file system over the settings `db` of a connection to the database `conn`. -/
def opened (db : Sqlite) (conn : Db X) (readOnly rewind : Bool) : SqliteFs X :=
  ⟨db, conn, ∅, ∅, ∅, readOnly, rewind⟩

/-- `SqliteFs::new_with_db`, which leaves `init` to the caller and starts with no lookups and no
handles. -/
def newWithDb (db : Sqlite) (conn : Db X) : SqliteFs X := opened db conn false false

/-- Open the connection and run `Sqlite::init`; `none` where that fails, so that there is no mount.
-/
def mount (db : Sqlite) (now : Now) (conn : Db X) (readOnly rewind : Bool) :
    Option (SqliteFs X) :=
  match db.init now conn with
  | (conn', .ok ()) => some (opened db conn' readOnly rewind)
  | (_, .error _) => none

/-- `SqliteFs::new`: a mount that accepts changes and records times. -/
def new (now : Now) (conn : Db X) : Option (SqliteFs X) := mount .new now conn false false

/-- `SqliteFs::new_no_time_recording`: a mount that accepts changes, on a connection that records no
times. -/
def newNoTimeRecording (now : Now) (conn : Db X) : Option (SqliteFs X) :=
  mount .newNoTimeRecording now conn false false

/-- `SqliteFs::new_at_time`: the file system as it was at the time. It is read-only, and its reads
go to the temporary tables. -/
def newAtTime (now : Now) (conn : Db X) (time : ℕ) : Option (SqliteFs X) :=
  mount (.newAtTime conn time) now conn true true

/-- `SqliteFs::new_read_only`: the present file system, read-only. -/
def newReadOnly (now : Now) (conn : Db X) : Option (SqliteFs X) :=
  mount .newReadOnly now conn true false

/-- A mount of a database just initialised, for samples. -/
def sample : SqliteFs .sample := newWithDb .new Sqlite.sampleDb

end SqliteFs

end TemporalFs
