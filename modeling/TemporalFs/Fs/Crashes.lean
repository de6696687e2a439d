import Mathlib
import TemporalFs.Db.Panics
import TemporalFs.Fs.Writing

/-!
# Crashes

A handler can panic on a name that is not UTF-8, on a count of lookups or a range of bytes that does
not fit into a `u32`, and on a time that `chrono` cannot represent. `SqliteFs.Panics` collects these
cases, request by request; there are no others, in a state whose stored times are dates and in which
only inodes that exist are counted.

## Main definitions

* `SqliteFs.Panics`: when a request panics.
* `SqliteFs.Sound`: what the handlers rely on.
* `SqliteFs.PanicsIff`, `SqliteFs.Calm`: programs that panic in one case only, or in none.

## Main results

* `SqliteFs.setattr_panics`, `SqliteFs.read_panics`, `SqliteFs.write_panics` and so on: each handler
  panics in its cases.
* `SqliteFs.calm_init`, `SqliteFs.calm_getattr` and so on: the handlers that do not panic.
-/

namespace TemporalFs

variable {X : Externals}

/-- The handler has panicked, whether it had sent a reply or not. -/
def Exit.IsPanic : Exit → Prop
  | .panic _ => True
  | .reply _ => False

/-- The request has ended in a panic, before or after a reply was sent. -/
def Outcome.Crashed : Outcome → Prop
  | .crashed _ => True
  | _ => False

instance (out : Outcome) : Decidable out.Crashed := by
  cases out <;> unfold Outcome.Crashed <;> infer_instance

/-- `toStr` accepts the name: all of its bytes make up characters. -/
abbrev IsUtf8 (name : Bytes) : Prop := isUtf8Aux 0 0 0 name = true

namespace SqliteFs

open Proc

/-! ### When a request panics -/

/-- `lookup` finds the inode with the attributes `v`, now or at the rewound time. -/
def Finds (s : SqliteFs X) (parent : ℕ) (name : Name) (v : DBFileAttr) : Prop :=
  if s.rewind then ∃ t, s.db.temp = some t ∧
    Sqlite.lookupAttrAtTime X parent name t = .ok (some v)
  else Sqlite.lookupAttr parent name s.conn = .ok (some v)

/-- The block can be read: the call does not fail, and a rewound connection has its temporary
tables. -/
def Readable (env : Env) (s : SqliteFs X) (block : ℕ) : Prop :=
  env.fails (.getData block) = false ∧ (s.rewind = true → s.db.temp ≠ none)

/-- A time that `NaiveDateTime::from_timestamp` does not accept, on which `setTime` panics. -/
def Unrepresentable (ts : Option Timespec) : Prop := ∃ t, ts = some t ∧ datetimeFrom t = none

/-- A time that it accepts, but that is no date once the leap second is carried. -/
def NoDate (ts : Option Timespec) : Prop :=
  ∃ t st, ts = some t ∧ datetimeFrom t = some st ∧ ¬ inChronoRange st.sec

/-- `setattr` of an inode with the attributes `old` panics: on a time that cannot be represented,
before the call of the method, or on one that is no date, within it. Where the size changes the time
of modification is not looked at. -/
def SetAttrPanics (env : Env) (old : DBFileAttr) (req : SetAttr) : Prop :=
  Unrepresentable req.atime ∨ Unrepresentable req.mtime ∨ Unrepresentable req.crtime ∨
    (env.fails .updateInode = false ∧ (NoDate req.atime ∨ NoDate req.crtime ∨
      (NoDate req.mtime ∧ (req.size.map UInt32.ofNat).getD old.size = old.size)))

/-- `read` of `size` bytes from `offset` on panics: an addition of `u32` overflows, in the first
round or in the last. -/
def ReadPanics (env : Env) (s : SqliteFs X) (offset size : ℕ) : Prop :=
  0 < size ∧
    ((2 ^ 32 ≤ size + offset % blockSize ∧ s.Readable env (offset / blockSize + 1)) ∨
      (env.checked = true ∧ 2 ^ 32 ≤ offset + size ∧
        ∀ b, offset / blockSize + 1 ≤ b → b ≤ 2 ^ 20 → s.Readable env b))

/-- `write` of `size` bytes from `offset` on panics: a build with checks cannot compute the last
byte of the range, one without finds no data to write at the wrapped end. -/
def WritePanics (env : Env) (offset size : ℕ) : Prop :=
  offset + size = 0 ∨ (env.checked = true ∧ 2 ^ 32 ≤ offset + size)

/-- When a request panics, told from the request, the surroundings and the state before it. A name
must be UTF-8, a counter must not overflow, a range must end within a `u32`, a time must be a date,
and `statvfs` must give its figures. -/
def Panics (env : Env) (s : SqliteFs X) : Request → Prop
  | .lookup parent name => ¬ IsUtf8 name ∨ (env.checked = true ∧ env.fails .lookup = false ∧
      ∃ v, s.Finds (asU32 parent) name v ∧ s.Overflows v.ino)
  | .setattr ino req => s.readOnly = false ∧ env.fails .getInode = false ∧
      ∃ old, inodeAttr (asU32 ino) s.conn = .ok (some old) ∧ SetAttrPanics env old req
  | .mkdir parent name _ => s.readOnly = false ∧ env.fails .getInode = false ∧
      (∃ a, inodeAttr (asU32 parent) s.conn = .ok (some a)) ∧ ¬ IsUtf8 name
  | .symlink parent name link => s.readOnly = false ∧ (¬ IsUtf8 name ∨
      (env.fails .addInodeAndDentry = false ∧ s.conn.CanAdd (asU32 parent) name ∧
        ¬ IsUtf8 link))
  | .unlink _ name => s.readOnly = false ∧ ¬ IsUtf8 name
  | .rmdir _ name => s.readOnly = false ∧ ¬ IsUtf8 name
  | .rename _ name _ newname => s.readOnly = false ∧ ¬ (IsUtf8 name ∧ IsUtf8 newname)
  | .link ino newparent newname => s.readOnly = false ∧ (¬ IsUtf8 newname ∨
      (env.checked = true ∧ env.fails .linkDentry = false ∧
        s.conn.CanLink (asU32 ino) (asU32 newparent) newname ∧ s.Overflows (asU32 ino)))
  | .read _ _ offset size => s.ReadPanics env (i64AsU32 offset) size
  | .write _ _ offset data => s.readOnly = false ∧
      WritePanics env (i64AsU32 offset) (asU32 data.length)
  | .statfs _ => env.statvfs = none
  | .setxattr _ name _ _ => s.readOnly = false ∧ ¬ IsUtf8 name
  | .getxattr _ name _ => ¬ IsUtf8 name
  | .removexattr _ name => s.readOnly = false ∧ ¬ IsUtf8 name
  | .create parent name _ => s.readOnly = false ∧ (¬ IsUtf8 name ∨
      (env.checked = true ∧ env.fails .lookup = false ∧
        ∃ v, Sqlite.lookupAttr (asU32 parent) name s.conn = .ok (some v) ∧ s.Overflows v.ino))
  | _ => False

/-! ### Programs that do not panic -/

/-- The program panics from the state `s` if and only if `P` holds; it may fail in any other way. -/
def PanicsIff {α : Type} (x : Handler X α) (s : SqliteFs X) (P : Prop) : Prop :=
  x.Ensures s (fun _ _ => ¬ P) fun e _ => e.IsPanic ↔ P

/-- The program does not panic, whatever the state is and whatever it returns. -/
abbrev Calm {α : Type} (x : Handler X α) : Prop := x.Preserves (¬ ·.IsPanic) fun _ => True

section Rules

variable {α β : Type} {env : Env} {s : SqliteFs X} {P : Prop}

theorem Calm.panicsIff {x : Handler X α} (h : Calm x) (s : SqliteFs X) (hP : ¬ P) :
    PanicsIff x s P :=
  (h s trivial).mono (fun _ _ _ => hP) fun _ _ he => iff_of_false he.1 hP

theorem PanicsIff.congr {P' : Prop} {x : Handler X α} (h : PanicsIff x s P) (hP : P ↔ P') :
    PanicsIff x s P' :=
  h.mono (fun _ _ hn => fun hP' => hn (hP.2 hP')) fun _ _ he => he.trans hP

theorem calm_call (c : Call) {m : Sqlite → Conn X α} (hm : ∀ db, NoPanic (m db)) :
    Calm (call env c m) := fun s _ => by
  rw [ensures_call]
  refine ⟨fun _ => trivial, fun _ => ((hm s.db).ensures s.conn).mono (fun _ _ _ => trivial)
    fun e _ he => ?_⟩
  cases e with
  | err kind => trivial
  | panic => exact absurd rfl he

theorem calm_callOr (c : Call) {m : Sqlite → Conn X α} (hm : ∀ db, NoPanic (m db))
    (onErr : ErrorKind → Errno) : Calm (callOr env c m onErr) :=
  preserves_bind (calm_call c hm) fun r => by
    cases r with
    | ok a => exact preserves_pure a
    | error kind => exact preserves_stop (by simp [Exit.IsPanic])

theorem calm_callOrNoEnt (c : Call) {m : Sqlite → Conn X α} (hm : ∀ db, NoPanic (m db)) :
    Calm (callOrNoEnt env c m) :=
  calm_callOr c hm _

theorem calm_callIgnoring (c : Call) {m : Sqlite → Conn X Unit} (hm : ∀ db, NoPanic (m db)) :
    Calm (callIgnoring env c m) :=
  preserves_bind (calm_call c hm) fun _ => preserves_pure _

theorem calm_foundOrNoEnt (o : Option α) : Calm (foundOrNoEnt o : Handler X α) :=
  preserves_ofOption (by simp [Exit.IsPanic])

theorem calm_require {c : Prop} [Decidable c] (r : Reply) :
    Calm (Proc.require c (.reply r) : Handler X Unit) :=
  preserves_require (by simp [Exit.IsPanic])

theorem calm_modify (f : SqliteFs X → SqliteFs X) : Calm (Proc.modify f) :=
  preserves_modify fun _ _ => trivial

theorem calm_deleteUnlessLookedUp (i : ℕ) :
    Calm (deleteUnlessLookedUp env i : Handler X Unit) :=
  preserves_bind preserves_get fun _ => preserves_when
    (calm_callOrNoEnt _ fun db => db.noPanic_deleteInodeIfNoref i)

/-- A call that does not panic goes first. If it fails there is no panic; if it returns, what
follows decides. -/
theorem panicsIff_callOr_bind {c : Call} {m : Sqlite → Conn X α} {onErr : ErrorKind → Errno}
    {f : α → Handler X β} (hm : NoPanic (m s.db)) (hfail : env.fails c = true → ¬ P)
    (hok : env.fails c = false → (m s.db).Ensures s.conn
      (fun a db => PanicsIff (f a) (s.withConn db) P) fun _ _ => ¬ P) :
    PanicsIff (callOr env c m onErr >>= f) s P := by
  unfold PanicsIff
  rw [ensures_bind, ensures_callOr]
  refine ⟨fun h => iff_of_false (by simp [Exit.IsPanic]) (hfail h), fun h => ?_⟩
  refine ((hok h).and (hm.ensures s.conn)).mono (fun _ _ h => h.1) fun e _ h => ?_
  cases e with
  | err kind => exact iff_of_false (by simp [Stop.exit, Exit.IsPanic]) h.1
  | panic => exact absurd rfl h.2

theorem panicsIff_writable_bind {f : Unit → Handler X α}
    (h : s.readOnly = false → PanicsIff (f ()) s P) :
    PanicsIff (writable >>= f) s (s.readOnly = false ∧ P) := by
  unfold PanicsIff
  rw [ensures_bind, ensures_writable]
  refine ⟨fun hro => (h hro).congr (by simp [hro]), fun hro => ?_⟩
  exact iff_of_false (by simp [Exit.IsPanic]) fun hc => hro hc.1

theorem panicsIff_toStr_bind {name : Bytes} {f : Name → Handler X α}
    (h : IsUtf8 name → PanicsIff (f name) s P) :
    PanicsIff (toStr name >>= f) s (¬ IsUtf8 name ∨ P) := by
  unfold PanicsIff
  rw [ensures_bind, ensures_toStr]
  refine ⟨fun hname => (h hname).congr (by simp [hname]), fun hname => ?_⟩
  exact iff_of_true trivial (Or.inl hname)

theorem panicsIff_require_bind {c : Prop} [Decidable c] {r : Reply} {f : Unit → Handler X α}
    (h : c → PanicsIff (f ()) s P) (hP : ¬ c → ¬ P) :
    PanicsIff (Proc.require c (.reply r) >>= f) s P := by
  unfold PanicsIff
  rw [ensures_bind, ensures_require]
  exact ⟨h, fun hc => iff_of_false (by simp [Exit.IsPanic]) (hP hc)⟩

theorem panicsIff_countLookup (sent : Option Reply) (i : ℕ) :
    PanicsIff (countLookup env sent i) s (env.checked = true ∧ s.Overflows i) := by
  unfold PanicsIff countLookup Overflows
  simp only [ensures_bind, ensures_get, ensures_u32Add, ensures_modify]
  refine ⟨fun h hc => by omega, fun h => ⟨fun hc => ?_, fun hc => by simp [hc]⟩⟩
  exact iff_of_true trivial ⟨hc, not_lt.1 h⟩

/-- The count goes last, and a reply follows. It is the only step that can panic then. -/
theorem panicsIff_countLookup_bind {sent : Option Reply} {i : ℕ} (r : Reply) :
    PanicsIff (countLookup env sent i >>= fun _ => pure r) s
      (env.checked = true ∧ s.Overflows i) := by
  unfold PanicsIff
  rw [ensures_bind]
  exact panicsIff_countLookup sent i

/-! ### The handlers -/

/-- What the handlers rely on: the stored times are dates, and no inode has been counted that does
not exist yet. -/
structure Sound (s : SqliteFs X) : Prop where
  dated : AllTimes TimeColumn.Dated s.conn.metadata
  counted : s.readOnly = false → ∀ i ∈ s.lookupCount, i ≤ s.conn.sqliteSequence

/-- The counts of a new inode start at one, so that its first lookup cannot overflow. -/
theorem Sound.not_overflows (h : s.Sound) (hro : s.readOnly = false) {child : ℕ}
    (hchild : child = s.conn.sqliteSequence + 1) (db : Db X) :
    ¬ (s.withConn db).Overflows child := by
  have hnone : s.lookupCount.lookup child = none := by
    rw [AList.lookup_eq_none]
    intro hmem
    have := h.counted hro child hmem
    omega
  unfold Overflows
  rw [lookupCount_withConn, hnone]
  decide

/-- The times read from a row are dates, which `updateInode` can be given again. -/
theorem Sound.dated_attr (h : s.Sound) {i : ℕ} {a : DBFileAttr}
    (ha : inodeAttr i s.conn = .ok (some a)) : inChronoRange a.atime.sec ∧
      inChronoRange a.mtime.sec ∧ inChronoRange a.crtime.sec := by
  obtain ⟨m, hm, hattr⟩ := inodeAttr_eq_ok_some ha
  obtain ⟨-, -, -, -, hat, hmt, hcrt⟩ := MetadataRow.attr_eq_some hattr
  obtain ⟨hta, htm, -, htc⟩ := h.dated i m hm
  exact ⟨hta _ hat, htm _ hmt, htc _ hcrt⟩

theorem newAttr_dated (env : Env) (kind : FileType) (perm : UInt16) (gid : UInt32) :
    (newAttr env kind perm gid).Dated :=
  ⟨env.start.inChronoRange, env.start.inChronoRange, env.start.inChronoRange,
    env.start.inChronoRange⟩

theorem panicsIff_get_bind {f : SqliteFs X → Handler X α} :
    PanicsIff (Proc.get >>= f) s P ↔ PanicsIff (f s) s P := Iff.rfl

theorem panicsIff_foundOrNoEnt_bind {o : Option α} {f : α → Handler X β}
    (hsome : ∀ a, o = some a → PanicsIff (f a) s P) (hnone : o = none → ¬ P) :
    PanicsIff (foundOrNoEnt o >>= f) s P := by
  unfold PanicsIff
  rw [ensures_bind, ensures_foundOrNoEnt]
  exact ⟨hsome, fun h => iff_of_false (by simp [Exit.IsPanic]) (hnone h)⟩

theorem lookup_panics (parent : ℕ) (name : Bytes) :
    PanicsIff (lookup env parent name) s (Panics env s (.lookup parent name)) := by
  unfold lookup
  rw [panicsIff_get_bind]
  refine panicsIff_toStr_bind fun _ => panicsIff_callOr_bind ?_ (fun h hc => ?_) fun hok => ?_
  · split_ifs
    · exact s.db.noPanic_lookupAtTime _ _
    · exact s.db.noPanic_lookup _ _ _
  · simp [h] at hc
  -- what the method finds decides
  have hfound : ∀ (found : Option DBFileAttr) (db : Db X),
      (∀ v, s.Finds (asU32 parent) name v ↔ found = some v) →
      PanicsIff (foundOrNoEnt found >>= fun v => do
          countLookup env (some (Reply.entry oneSec v.getFileAttr 0)) v.ino
          pure (Reply.entry oneSec v.getFileAttr 0)) (s.withConn db)
        (env.checked = true ∧ env.fails .lookup = false ∧
          ∃ v, s.Finds (asU32 parent) name v ∧ s.Overflows v.ino) := by
    intro found db h
    refine panicsIff_foundOrNoEnt_bind (fun v hv => ?_) fun hnone => ?_
    · refine (panicsIff_countLookup_bind _).congr (and_congr_right fun _ => ?_)
      refine ⟨fun hover => ⟨hok, v, (h v).2 hv, hover⟩, fun ⟨_, v', hv', hover⟩ => ?_⟩
      obtain rfl := Option.some.inj (hv.symm.trans ((h v').1 hv'))
      exact hover
    · rintro ⟨-, -, v, hv, -⟩
      rw [(h v).1 hv] at hnone
      simp at hnone
  have hnone : (∀ v, ¬ s.Finds (asU32 parent) name v) → ¬ (env.checked = true ∧
      env.fails .lookup = false ∧ ∃ v, s.Finds (asU32 parent) name v ∧ s.Overflows v.ino) :=
    fun h ⟨_, _, v, hv, _⟩ => h v hv
  unfold Finds at hfound hnone ⊢
  by_cases hre : s.rewind = true
  · simp only [hre, ↓reduceIte] at hfound hnone ⊢
    refine (s.db.queryTemp_returns _ s.conn).mono (fun found db h => ?_) fun e db h => ?_
    · obtain ⟨t, ht, hf⟩ := h
      refine hfound found db fun v => ⟨fun ⟨t', ht', hf'⟩ => ?_, fun hv => ⟨t, ht, hv ▸ hf⟩⟩
      obtain rfl := Option.some.inj (ht.symm.trans ht')
      exact Except.ok.inj (hf.symm.trans hf')
    · refine hnone fun v ⟨t, ht, hf⟩ => ?_
      rw [h t ht] at hf
      simp at hf
  · simp only [hre, Bool.false_eq_true, ↓reduceIte] at hfound hnone ⊢
    refine (s.db.lookup_returns _ _ _ s.conn).mono (fun found db h => ?_) fun e db h => ?_
    · exact hfound found db fun v => by rw [h, Except.ok.injEq]
    · exact hnone fun v hv => by simp [h] at hv

/-- The attributes that `setattr` and `mkdir` read first. Without them the request fails and does
not panic. -/
theorem panicsIff_getInode_bind {i : ℕ} {f : DBFileAttr → Handler X β}
    {Q : DBFileAttr → Prop} (hf : env.fails .getInode = false → ∀ a,
      inodeAttr i s.conn = .ok (some a) → PanicsIff (f a) s (Q a)) :
    PanicsIff (callOrNoEnt env .getInode (fun db => db.getInode i) >>= fun found =>
      foundOrNoEnt found >>= f) s
      (env.fails .getInode = false ∧ ∃ a, inodeAttr i s.conn = .ok (some a) ∧ Q a) := by
  refine panicsIff_callOr_bind (noPanic_getInodeLocal i) (fun h hc => by simp [h] at hc)
    fun hok => ?_
  refine (getInodeLocal_spec s.conn i).mono (fun found db h => ?_) fun e db h => ?_
  · obtain ⟨rfl, hfound⟩ := h
    refine panicsIff_foundOrNoEnt_bind (fun a ha => ?_) fun hnone => ?_
    · subst ha
      refine (hf hok a hfound).congr ⟨fun hQ => ⟨hok, a, hfound, hQ⟩, fun ⟨_, a', ha', hQ⟩ => ?_⟩
      obtain rfl := Option.some.inj (Except.ok.inj (hfound.symm.trans ha'))
      exact hQ
    · rintro ⟨-, a, ha, -⟩
      rw [hfound, hnone] at ha
      simp at ha
  · rintro ⟨-, a, ha, -⟩
    rw [h.2] at ha
    simp at ha

theorem setTime_panics (present : SystemTime) (ts : Option Timespec)
    (hpresent : inChronoRange present.sec) :
    (setTime present ts).Ensures s
      (fun t s' => s' = s ∧ ¬ Unrepresentable ts ∧ (¬ inChronoRange t.sec ↔ NoDate ts))
      (fun e _ => e.IsPanic ∧ Unrepresentable ts) := by
  unfold Unrepresentable NoDate
  cases ts with
  | none => exact ⟨rfl, by simp, by simp [hpresent]⟩
  | some ts =>
    unfold setTime
    rw [ensures_ofOption]
    exact ⟨fun t ht => ⟨rfl, by simp [ht], by simp [ht]⟩, fun hnone => ⟨trivial, ts, rfl, hnone⟩⟩

theorem setattr_panics (hs : s.Sound) (ino : ℕ) (req : SetAttr) :
    PanicsIff (setattr env ino req) s (Panics env s (.setattr ino req)) := by
  unfold setattr
  refine panicsIff_writable_bind fun _ => panicsIff_getInode_bind fun _ old hold => ?_
  obtain ⟨ha, hm, hc⟩ := hs.dated_attr hold
  unfold PanicsIff SetAttrPanics
  rw [ensures_bind]
  refine (setTime_panics old.atime req.atime ha).mono (fun atime s₁ h₁ => ?_) fun e _ h =>
    iff_of_true h.1 (Or.inl h.2)
  obtain ⟨rfl, hrep₁, hdate₁⟩ := h₁
  rw [ensures_bind]
  refine (setTime_panics old.mtime req.mtime hm).mono (fun mtime s₂ h₂ => ?_) fun e _ h =>
    iff_of_true h.1 (Or.inr (Or.inl h.2))
  obtain ⟨rfl, hrep₂, hdate₂⟩ := h₂
  rw [ensures_bind]
  refine (setTime_panics old.crtime req.crtime hc).mono (fun crtime s₃ h₃ => ?_) fun e _ h =>
    iff_of_true h.1 (Or.inr (Or.inr (Or.inl h.2)))
  obtain ⟨rfl, hrep₃, hdate₃⟩ := h₃
  have hino := ino_of_inodeAttr hold
  simp only [hrep₁, hrep₂, hrep₃, false_or, ← hdate₁, ← hdate₂, ← hdate₃]
  rw [ensures_bind, ensures_callOrNoEnt]
  refine ⟨fun hf => iff_of_false (by simp [Exit.IsPanic]) (by simp [hf]), fun hf => ?_⟩
  have hbad : ∀ attr : DBFileAttr, attr.ino = old.ino → attr.size =
      (req.size.map UInt32.ofNat).getD old.size → (Sqlite.BadTimes s₃.conn attr ↔
        (¬ inChronoRange attr.atime.sec ∨ ¬ inChronoRange attr.crtime.sec ∨
          (¬ inChronoRange attr.mtime.sec ∧
            (req.size.map UInt32.ofNat).getD old.size = old.size))) := by
    intro attr hai hasize
    unfold Sqlite.BadTimes
    rw [hai, hino, hold]
    constructor
    · rintro ⟨old', hold', h⟩
      obtain rfl := Option.some.inj (Except.ok.inj hold')
      rw [hasize] at h
      tauto
    · intro h
      refine ⟨old, rfl, ?_⟩
      rw [hasize]
      tauto
  have hexit : ∀ e : Stop, (e.exit fun _ => Errno.ENOENT).IsPanic ↔ e = .panic := by
    intro e
    cases e <;> simp [Stop.exit, Exit.IsPanic]
  refine (Sqlite.updateInode_panics _ _ _ _ _).mono (fun _ db h hc => ?_) fun e db h => ?_
  · exact h ((hbad _ (by rfl) (by rfl)).2 hc.2)
  · exact ((hexit e).trans h).trans ⟨fun hb => ⟨hf, (hbad _ (by rfl) (by rfl)).1 hb⟩,
      fun hc => (hbad _ (by rfl) (by rfl)).2 hc.2⟩

theorem mkdir_panics (hs : s.Sound) (parent : ℕ) (name : Bytes) (mode : ℕ) :
    PanicsIff (mkdir env parent name mode) s (Panics env s (.mkdir parent name mode)) := by
  unfold mkdir
  have hcongr : Panics env s (.mkdir parent name mode) ↔ s.readOnly = false ∧
      env.fails .getInode = false ∧ ∃ a, inodeAttr (asU32 parent) s.conn = .ok (some a) ∧
        (¬ IsUtf8 name ∨ False) := by
    unfold Panics
    simp only [or_false, exists_and_right]
  rw [hcongr]
  refine panicsIff_writable_bind fun hro => panicsIff_getInode_bind fun _ a _ =>
    panicsIff_toStr_bind fun _ => panicsIff_callOr_bind ?_ (fun _ => id) fun _ => ?_
  · exact s.db.noPanic_addInodeAndDentry _ _ _ (newAttr_dated ..)
  · refine (Sqlite.addInodeAndDentry_spec _ _ _ _ _ _).mono (fun child db h => ?_) fun _ _ _ => id
    exact (panicsIff_countLookup_bind _).congr (iff_of_false (fun hc =>
      hs.not_overflows hro h.child_eq db hc.2) id)

theorem symlink_panics (hs : s.Sound) (parent : ℕ) (name link : Bytes) :
    PanicsIff (symlink env parent name link) s (Panics env s (.symlink parent name link)) := by
  unfold symlink
  refine panicsIff_writable_bind fun hro => panicsIff_toStr_bind fun _ =>
    panicsIff_callOr_bind ?_ (fun h hc => by simp [h] at hc) fun hok => ?_
  · exact s.db.noPanic_addInodeAndDentry _ _ _ (newAttr_dated ..)
  refine ((Sqlite.addInodeAndDentry_spec _ _ _ _ _ _).and
    (Sqlite.addInodeAndDentry_returns s.db _ _ _ (by simp [newAttr])
      (newAttr_dated ..) s.conn)).mono (fun child db h => ?_) fun _ _ h hc => h.2 hc.2.1
  refine (panicsIff_toStr_bind (P := False) fun _ => ?_).congr
    (by simp only [hok, h.2, or_false, true_and])
  refine panicsIff_require_bind (fun _ => panicsIff_callOr_bind ?_ (fun _ => id) fun _ => ?_)
    fun _ => id
  · exact (s.withConn db).db.noPanic_writeData _ _ _ _ _
  · refine (Sqlite.writeData_spec _ _ _ _ _ _ _).mono (fun _ db₂ _ => ?_) fun _ _ _ => id
    exact (panicsIff_countLookup_bind _).congr (iff_of_false (fun hc =>
      hs.not_overflows hro h.1.child_eq db₂ hc.2) id)

theorem unlink_panics (parent : ℕ) (name : Bytes) :
    PanicsIff (unlink env parent name) s (Panics env s (.unlink parent name)) := by
  refine panicsIff_writable_bind fun _ => (panicsIff_toStr_bind (P := False) fun _ => ?_).congr
    (or_false _).to_iff
  exact Calm.panicsIff (preserves_bind (calm_callOrNoEnt _ fun db => db.noPanic_deleteDentry _ _ _)
    fun ino => preserves_bind (calm_deleteUnlessLookedUp ino) fun _ => preserves_pure _) s id

theorem rmdir_panics (parent : ℕ) (name : Bytes) :
    PanicsIff (rmdir env parent name) s (Panics env s (.rmdir parent name)) := by
  refine panicsIff_writable_bind fun _ => (panicsIff_toStr_bind (P := False) fun _ => ?_).congr
    (or_false _).to_iff
  refine Calm.panicsIff (preserves_bind (calm_callOrNoEnt _ fun db => db.noPanic_lookup _ _ _)
    fun found => preserves_bind (calm_foundOrNoEnt found) fun attr => ?_) s id
  refine preserves_bind (calm_callOrNoEnt _ fun db => db.noPanic_checkDirectoryIsEmpty _)
    fun empty => preserves_bind (calm_require _) fun _ => ?_
  exact preserves_bind (calm_callOrNoEnt _ fun db => db.noPanic_deleteDentry _ _ _)
    fun ino => preserves_bind (calm_deleteUnlessLookedUp ino) fun _ => preserves_pure _

theorem rename_panics (parent : ℕ) (name : Bytes) (newparent : ℕ) (newname : Bytes) :
    PanicsIff (rename env parent name newparent newname) s
      (Panics env s (.rename parent name newparent newname)) := by
  refine panicsIff_writable_bind fun _ => (panicsIff_toStr_bind fun _ =>
    panicsIff_toStr_bind (P := False) fun _ => ?_).congr (by rw [or_false, not_and_or])
  refine Calm.panicsIff (preserves_bind (calm_callOr _ (fun db => db.noPanic_moveDentry _ _ _ _ _)
    _) fun entry => preserves_bind ?_ fun _ => preserves_pure _) s id
  cases entry with
  | none => exact preserves_pure _
  | some ino => exact calm_deleteUnlessLookedUp ino

theorem link_panics (ino parent : ℕ) (name : Bytes) :
    PanicsIff (link env ino parent name) s (Panics env s (.link ino parent name)) := by
  refine panicsIff_writable_bind fun _ => panicsIff_toStr_bind fun _ =>
    panicsIff_callOr_bind ?_ (fun h hc => by simp [h] at hc) fun hok => ?_
  · exact s.db.noPanic_linkDentry _ _ _ _
  · refine (s.db.linkDentry_returns _ _ _ _ s.conn).mono (fun attr db h => ?_)
      fun _ _ h hc => h hc.2.2.1
    exact (panicsIff_countLookup_bind _).congr (and_congr_right fun _ =>
      ⟨fun hover => ⟨hok, h, hover⟩, fun hc => hc.2.2⟩)

theorem statfs_panics (ino : ℕ) : PanicsIff (statfs env) s (Panics env s (.statfs ino)) := by
  unfold PanicsIff statfs
  rw [ensures_bind, ensures_ofOption]
  exact ⟨fun stat h hnone => by simp [Panics, h] at hnone, fun h => iff_of_true trivial h⟩

theorem setxattr_panics (ino : ℕ) (name value : Bytes) (flags : ℕ) :
    PanicsIff (setxattr env ino name value flags) s
      (Panics env s (.setxattr ino name value flags)) := by
  refine panicsIff_writable_bind fun _ => (panicsIff_toStr_bind (P := False) fun _ => ?_).congr
    (or_false _).to_iff
  refine Calm.panicsIff (preserves_bind (preserves_when (preserves_bind
    (calm_call _ fun db => db.noPanic_getXattr _ _) fun found => ?_)) fun _ => preserves_bind
      (calm_callOrNoEnt _ fun db => db.noPanic_setXattr _ _ _ _) fun _ => preserves_pure _) s id
  unfold checkXattrFlags
  split
  · exact calm_require _
  · exact calm_require _
  · exact preserves_stop (by simp [Exit.IsPanic])

theorem getxattr_panics (ino : ℕ) (name : Bytes) (size : ℕ) :
    PanicsIff (getxattr env ino name size) s (Panics env s (.getxattr ino name size)) := by
  unfold getxattr
  rw [panicsIff_get_bind]
  refine (panicsIff_toStr_bind (P := False) fun _ => ?_).congr (or_false _).to_iff
  refine Calm.panicsIff (preserves_bind (calm_callOr _ (fun db => ?_) _) fun _ => preserves_pure _)
    s id
  split_ifs
  · exact db.noPanic_getXattrAtTime _ _
  · exact db.noPanic_getXattr _ _

theorem removexattr_panics (ino : ℕ) (name : Bytes) :
    PanicsIff (removexattr env ino name) s (Panics env s (.removexattr ino name)) := by
  refine panicsIff_writable_bind fun _ => (panicsIff_toStr_bind (P := False) fun _ => ?_).congr
    (or_false _).to_iff
  exact Calm.panicsIff (preserves_bind (calm_callOrNoEnt _ fun db => db.noPanic_deleteXattr _ _ _)
    fun _ => preserves_pure _) s id

theorem create_panics (hs : s.Sound) (parent : ℕ) (name : Bytes) (mode : ℕ) :
    PanicsIff (create env parent name mode) s (Panics env s (.create parent name mode)) := by
  refine panicsIff_writable_bind fun hro => panicsIff_toStr_bind fun _ =>
    panicsIff_callOr_bind ?_ (fun h hc => by simp [h] at hc) fun hok => ?_
  · exact s.db.noPanic_lookup _ _ _
  refine ((s.db.lookup_returns _ _ _ s.conn).and (s.db.lookup_spec _ s.conn _ _)).mono
    (fun found db h => ?_) fun e db h => ?_
  rotate_left
  · rintro ⟨-, -, v, hv, -⟩
    rw [h.1] at hv
    simp at hv
  obtain ⟨hfound, -, hdb⟩ := h
  cases found with
  | some v =>
    refine (panicsIff_countLookup_bind _).congr (and_congr_right fun _ => ?_)
    refine ⟨fun hover => ⟨hok, v, hfound, hover⟩, fun ⟨_, v', hv', hover⟩ => ?_⟩
    obtain rfl := Option.some.inj (Except.ok.inj (hfound.symm.trans hv'))
    exact hover
  | none =>
    -- a new inode has not been counted before
    have hP : ¬ (env.checked = true ∧ env.fails .lookup = false ∧
        ∃ v, Sqlite.lookupAttr (asU32 parent) name s.conn = .ok (some v) ∧
          s.Overflows v.ino) := by
      rintro ⟨-, -, v, hv, -⟩
      rw [hfound] at hv
      simp at hv
    unfold PanicsIff createInode
    simp only [ensures_bind, ensures_callOrNoEnt, ensures_foundOrNoEnt]
    have hreply : ∀ e : Errno, (Exit.reply (.error e)).IsPanic ↔ (env.checked = true ∧
        env.fails .lookup = false ∧
          ∃ v, Sqlite.lookupAttr (asU32 parent) name s.conn = .ok (some v) ∧
            s.Overflows v.ino) :=
      fun e => iff_of_false (by simp [Exit.IsPanic]) hP
    have hstop : ∀ e : Stop, e ≠ .panic → ((e.exit fun _ => Errno.ENOENT).IsPanic ↔
        (env.checked = true ∧ env.fails .lookup = false ∧
          ∃ v, Sqlite.lookupAttr (asU32 parent) name s.conn = .ok (some v) ∧
            s.Overflows v.ino)) := by
      intro e he
      cases e with
      | err kind => exact hreply _
      | panic => exact absurd rfl he
    refine ⟨fun _ => hreply _, fun _ => ?_⟩
    refine ((getInode_spec _ _ _).and ((noPanic_getInodeLocal _).ensures _)).mono
      (fun found db' h => ?_) fun e db' h => hstop e h.2
    obtain ⟨⟨rfl, -⟩, -⟩ := h
    refine ⟨fun a _ => ⟨fun _ => hreply _, fun _ => ?_⟩, fun _ => hreply _⟩
    refine ((Sqlite.addInodeAndDentry_spec _ _ _ _ _ _).and
      (NoPanic.ensures (Sqlite.noPanic_addInodeAndDentry _ _ _ _ (newAttr_dated ..)) _)).mono
      (fun child db₂ h => ?_) fun e db₂ h => hstop e h.2
    refine (panicsIff_countLookup none child).mono (fun _ _ _ => hP) fun e _ he => ?_
    refine iff_of_false (fun hpanic => ?_) hP
    have hchild := h.1.child_eq
    exact hs.not_overflows hro (hchild.trans (congrArg (· + 1) hdb.sqliteSequence)) db₂
      (he.1 hpanic).2

/-! ### Requests that never panic -/

theorem calm_readInode (i : ℕ) : Calm (readInode env i : Handler X DBFileAttr) :=
  preserves_bind preserves_get fun _ => preserves_bind (calm_callOrNoEnt _ fun db => by
    split_ifs
    · exact db.noPanic_getInodeAtTime i
    · exact noPanic_getInodeLocal i) fun found => calm_foundOrNoEnt found

theorem calm_readBlock (i k length : ℕ) : Calm (readBlock env i k length : Handler X Bytes) :=
  preserves_bind preserves_get fun _ => calm_callOrNoEnt _ fun db => by
    split_ifs
    · exact db.noPanic_getDataAtTime _ _ _ _
    · exact db.noPanic_getData _ _ _ _

theorem calm_getattr (ino : ℕ) : Calm (getattr env ino : Handler X Reply) :=
  preserves_bind (calm_readInode _) fun _ => preserves_pure _

theorem calm_readlink (ino : ℕ) : Calm (readlink env ino : Handler X Reply) :=
  preserves_bind (calm_readInode _) fun _ => preserves_bind (calm_require _) fun _ =>
    preserves_bind (calm_readBlock _ _ _) fun _ => preserves_pure _

theorem calm_open (ino flags : ℕ) : Calm («open» env ino flags : Handler X Reply) :=
  preserves_bind preserves_get fun _ => preserves_bind (calm_require _) fun _ =>
    preserves_bind (calm_modify _) fun _ => preserves_pure _

theorem calm_release (ino fh : ℕ) : Calm (release env ino fh : Handler X Reply) :=
  preserves_bind preserves_get fun _ => preserves_bind (calm_modify _) fun _ => preserves_pure _

theorem calm_releasedir (ino fh : ℕ) : Calm (releasedir env ino fh : Handler X Reply) :=
  preserves_bind preserves_get fun _ => preserves_bind (calm_modify _) fun _ => preserves_pure _

theorem calm_opendir (ino : ℕ) : Calm (opendir env ino : Handler X Reply) :=
  preserves_bind preserves_get fun _ => preserves_bind (calm_callOrNoEnt _ fun db => by
    split_ifs
    · exact db.noPanic_getDentryAtTime _
    · exact db.noPanic_getDentry _) fun _ => preserves_bind (calm_modify _) fun _ =>
      preserves_pure _

theorem calm_readdir (ino fh : ℕ) (offset : ℤ) (size : ℕ) :
    Calm (readdir env ino fh offset size : Handler X Reply) :=
  preserves_bind preserves_get fun _ => preserves_bind (calm_foundOrNoEnt _) fun _ =>
    preserves_pure _

theorem calm_listxattr (ino size : ℕ) : Calm (listxattr env ino size : Handler X Reply) :=
  preserves_bind preserves_get fun _ => preserves_bind (calm_callOr _ (fun db => by
    split_ifs
    · exact db.noPanic_listXattrAtTime _
    · exact db.noPanic_listXattr _) _) fun _ => preserves_pure _

theorem calm_init : Calm (init env : Handler X Unit) :=
  preserves_bind preserves_get fun _ => preserves_when
    (calm_callIgnoring _ fun db => db.noPanic_deleteAllNorefInode)

theorem calm_destroy : Calm (destroy env : Handler X Unit) :=
  preserves_bind preserves_get fun _ => preserves_when (preserves_each (fun _ =>
    calm_callIgnoring _ fun db => db.noPanic_deleteInodeIfNoref _) _)

/-- `forget` gives back what was handed out. -/
theorem forget_panics {ino nlookup : ℕ}
    (h : asU32 nlookup ≤ (s.lookupCount.lookup (asU32 ino)).getD 0) :
    PanicsIff (forget env ino nlookup) s (Panics env s (.forget ino nlookup)) := by
  refine (forget_spec ino nlookup).mono (fun _ _ _ => id) ?_
  rintro e s' ⟨sent, rfl, hf⟩
  refine absurd hf fun hf => ?_
  cases hf with
  | too_much _ hlt => omega

/-! ### Reading -/

theorem readBlock_panics (i k length : ℕ) :
    (readBlock env i k length).Ensures s
      (fun _ s' => s.Readable env k ∧ ∃ db, s' = s.withConn db)
      (fun e s' => ¬ e.IsPanic ∧ ¬ s.Readable env k ∧ s' = s) := by
  refine (Ensures.and (R := fun _ s' => s.Readable env k ∧ ∃ db, s' = s.withConn db)
    (F := fun _ s' => ¬ s.Readable env k ∧ s' = s) (calm_readBlock i k length s trivial) ?_).mono
    (fun _ _ h => h.2) fun _ _ h => ⟨h.1.1, h.2⟩
  unfold readBlock Readable
  rw [ensures_bind, ensures_get, ensures_callOrNoEnt]
  refine ⟨fun hf => ⟨fun hc => by simp [hf] at hc, rfl⟩, fun hf => ?_⟩
  by_cases hre : s.rewind = true
  · simp only [hre, hf, ↓reduceIte, true_and, true_implies, Sqlite.getDataAtTime,
      Sqlite.queryTemp, ensures_atomically, ensures_bind, ensures_ofOption, ensures_pure,
      ensures_when]
    exact ⟨fun t ht => ⟨fun _ => ⟨by simp [ht], _, rfl⟩, fun _ => ⟨by simp [ht], _, rfl⟩⟩,
      fun hnone => ⟨by simp [hnone], rfl⟩⟩
  · simp only [hre, hf, Bool.false_eq_true, ↓reduceIte, true_and, false_implies]
    exact (Sqlite.getData_spec _ _ _ _ _ _).mono (fun _ db _ => ⟨db, rfl⟩)
      fun _ _ h => h.elim

theorem end_of_round (n : ℕ) :
    (if n / blockSize ≥ 1 then blockSize else n) = min blockSize n := by
  unfold blockSize
  split_ifs <;> omega

theorem length_of_round (block : Bytes) (n : ℕ) :
    n ≤ (if block.length < n then resize block n else block).length := by
  split_ifs with h
  · rw [resize_eq_padTo, length_padTo]
  · exact not_lt.1 h

/-- One round of `read` that has got its block. -/
theorem read_round {α : Type} {n o : ℕ} {block : Bytes} (hn : 0 < n) (hn' : n < 2 ^ 32)
    (f : ℕ → ℕ → Bytes → Handler X α) (P : Prop)
    (hfirst : 2 ^ 32 ≤ n + o % blockSize → P)
    (hlast : n + o % blockSize < 2 ^ 32 →
      2 ^ 32 ≤ o + (min blockSize (n + o % blockSize) - o % blockSize) →
      env.checked = true → P)
    (hnext : ∀ m part, n + o % blockSize < 2 ^ 32 →
      m = min blockSize (n + o % blockSize) - o % blockSize →
      (2 ^ 32 ≤ o + m → env.checked = false) → PanicsIff (f (n - m) ((o + m) % 2 ^ 32) part) s P) :
    PanicsIff (do
      let wanted ← u32Add env none n (o % blockSize)
      let b_end := if wanted / blockSize ≥ 1 then blockSize else wanted
      let block_data := if block.length < b_end then resize block b_end else block
      let part ← slice block_data (o % blockSize) b_end
      let offset ← u32Add env none o (b_end - o % blockSize)
      f (n - (b_end - o % blockSize)) offset part) s P := by
  unfold PanicsIff
  have hmod : o % blockSize < blockSize := Nat.mod_lt _ (by decide)
  have hpanic : P → ((Exit.panic none).IsPanic ↔ P) := fun h => iff_of_true trivial h
  rw [ensures_bind, ensures_u32Add]
  dsimp only
  refine ⟨fun hlt => ?_, fun hge => ⟨fun _ => hpanic (hfirst (not_lt.1 hge)), fun _ => ?_⟩⟩
  · rw [end_of_round (n + o % blockSize)]
    have hlo : o % blockSize ≤ min blockSize (n + o % blockSize) := by omega
    rw [ensures_bind, ensures_slice]
    refine ⟨fun _ => ?_, fun hc => absurd ⟨hlo, length_of_round block _⟩ hc⟩
    rw [ensures_bind, ensures_u32Add]
    refine ⟨fun hfits => ?_, fun hover => ⟨fun hc => hpanic (hlast hlt (not_lt.1 hover) hc),
      fun hc => ?_⟩⟩
    · have := hnext _ ((List.take (min blockSize (n + o % blockSize)) (if block.length <
        min blockSize (n + o % blockSize) then resize block (min blockSize (n + o % blockSize))
        else block)).drop (o % blockSize)) hlt rfl fun h => absurd hfits (not_lt.2 h)
      rwa [Nat.mod_eq_of_lt hfits] at this
    · exact hnext _ _ hlt rfl fun _ => (Bool.not_eq_true _).mp hc
  · -- the wrapped end lies before the start
    have hwrap : (n + o % blockSize) % 2 ^ 32 < o % blockSize := by omega
    rw [end_of_round ((n + o % blockSize) % 2 ^ 32), ensures_bind, ensures_slice]
    refine ⟨fun hc => ?_, fun _ => hpanic (hfirst (not_lt.1 hge))⟩
    omega

/-- Whether the rest of a `read` panics, after a round that has read `m` bytes. -/
theorem ReadPanics.next {o n m : ℕ} (ho : o < 2 ^ 32) (hn' : n < 2 ^ 32)
    (hread : s.Readable env (o / blockSize + 1)) (hlt : n + o % blockSize < 2 ^ 32)
    (hm : m = min blockSize (n + o % blockSize) - o % blockSize)
    (hwrap : 2 ^ 32 ≤ o + m → env.checked = false) :
    s.ReadPanics env ((o + m) % 2 ^ 32) (n - m) ↔ s.ReadPanics env o n := by
  unfold ReadPanics
  have hfirst : ¬ 2 ^ 32 ≤ n + o % blockSize := not_le.2 hlt
  by_cases hfits : o + m < 2 ^ 32
  · rw [Nat.mod_eq_of_lt hfits]
    unfold blockSize at *
    have hfirst' : ¬ (0 < n - m ∧ 2 ^ 32 ≤ n - m + (o + m) % 4096) := by omega
    constructor
    · rintro ⟨hpos, h | ⟨hc, hover, hall⟩⟩
      · exact absurd ⟨hpos, h.1⟩ hfirst'
      · refine ⟨by omega, Or.inr ⟨hc, by omega, fun b hb hb' => ?_⟩⟩
        rcases hb.eq_or_lt with rfl | hb
        · exact hread
        · exact hall b (by omega) hb'
    · rintro ⟨hpos, h | ⟨hc, hover, hall⟩⟩
      · exact absurd h.1 hfirst
      · exact ⟨by omega, Or.inr ⟨hc, by omega, fun b hb hb' => hall b (by omega) hb'⟩⟩
  · have hc : env.checked = false := hwrap (not_lt.1 hfits)
    unfold blockSize at *
    have hzero : (o + m) % 2 ^ 32 = 0 := by omega
    refine iff_of_false ?_ ?_
    · rintro ⟨-, h | ⟨h, -⟩⟩
      · have := h.1
        omega
      · simp [hc] at h
    · rintro ⟨-, h | ⟨h, -⟩⟩
      · exact hfirst h.1
      · simp [hc] at h

theorem readLoop_panics (ino fuel : ℕ) {n o : ℕ} (hfuel : n ≤ fuel) (hn : n < 2 ^ 32)
    (ho : o < 2 ^ 32) (data : Bytes) :
    PanicsIff (readLoop env ino fuel n o data) s (s.ReadPanics env o n) := by
  induction fuel generalizing s n o data with
  | zero =>
    unfold readLoop
    exact fun h => absurd h.1 (by omega)
  | succ fuel ih =>
    unfold readLoop
    rcases Nat.eq_zero_or_pos n with rfl | hpos
    · rw [if_pos rfl]
      exact fun h => absurd h.1 (by omega)
    · rw [if_neg hpos.ne']
      unfold PanicsIff
      rw [ensures_bind]
      have hmod : o / blockSize + 1 ≤ 2 ^ 20 := by
        unfold blockSize
        omega
      refine (readBlock_panics _ _ _).mono (fun block s₁ h₁ => ?_) fun e s₁ h₁ => ?_
      · obtain ⟨hread, db, rfl⟩ := h₁
        refine read_round hpos hn (fun n o part => readLoop env ino fuel n o (data ++ part))
          _ (fun h => ⟨hpos, Or.inl ⟨h, hread⟩⟩)
            (fun hlt hover hc => ?_) fun m part hlt hm hwrap => ?_
        · refine ⟨hpos, Or.inr ⟨hc, ?_, fun b hb hb' => ?_⟩⟩
          · unfold blockSize at *
            omega
          · have hb'' : b = o / blockSize + 1 := by
              unfold blockSize at *
              omega
            exact hb'' ▸ hread
        · refine (ih ?_ (by omega) (Nat.mod_lt _ (by decide)) _).congr
            (ReadPanics.next (s := s) ho hn hread hlt hm hwrap)
          unfold blockSize at *
          omega
      · refine iff_of_false h₁.1 ?_
        rintro ⟨-, h | ⟨-, -, hall⟩⟩
        · exact h₁.2.1 h.2
        · exact h₁.2.1 (hall _ le_rfl hmod)

theorem read_panics (ino fh : ℕ) (offset : ℤ) {size : ℕ} (hsize : size < 2 ^ 32) :
    PanicsIff (read env ino offset size) s (Panics env s (.read ino fh offset size)) := by
  unfold PanicsIff read
  rw [ensures_bind]
  refine readLoop_panics ino size le_rfl hsize ?_ []
  unfold i64AsU32
  omega

/-! ### Writing -/

variable (env) in
theorem calm_writeData (i k : ℕ) (bytes : Bytes) (size : UInt32) :
    Calm (callOrNoEnt env (.writeData k) fun db =>
      db.writeData (env.now (.writeData k)) i k bytes size : Handler X Unit) :=
  calm_callOrNoEnt _ fun db => db.noPanic_writeData _ _ _ _ _

/-- A block of the range is written without a panic, also where the end of the range is zero. -/
theorem writeBlock_calm {ino o n i : ℕ} {data : Bytes} (hpos : 1 ≤ o + n)
    (hfits : EndFits env o n) (hn : n < 2 ^ 32) (hlen : n ≤ data.length)
    (hi : o / blockSize + 1 ≤ i) (hi' : i ≤ (o + n - 1) / blockSize + 1) :
    (writeBlock env ino o n data (o / blockSize + 1) ((o + n - 1) / blockSize + 1) i).Ensures s
      (fun _ _ => True) (fun e _ => ¬ e.IsPanic) := by
  have h := inRange hpos hi hi'
  have hstore : ∀ (bytes : Bytes) (s : SqliteFs X),
      (u32Add env none ((i - 1) * blockSize) (blockHi o n i) >>= fun new_size =>
        callOrNoEnt env (.writeData i) fun db => db.writeData (env.now (.writeData i)) ino i
          bytes (UInt32.ofNat new_size)).Ensures s (fun _ _ => True) (fun e _ => ¬ e.IsPanic) := by
    intro bytes s
    have hcall := fun new_size => (calm_writeData env ino i bytes new_size s trivial).mono
      (R := fun _ _ => True) (F := fun e _ => ¬ e.IsPanic) (fun _ _ _ => trivial) fun _ _ h => h.1
    rw [ensures_bind, ensures_u32Add]
    refine ⟨fun _ => hcall _, fun hover => ⟨fun hc => ?_, fun _ => hcall _⟩⟩
    have hend := h.end_eq.trans_le h.end_le
    rcases hfits with hfits | ⟨hc', -⟩
    · exact absurd (hend.trans_lt hfits) hover
    · simp [hc'] at hc
  unfold writeBlock
  rw [ensures_bind, ensures_blockHi hpos hfits, ensures_bind]
  refine (ensures_ite _ _ _).2 ⟨fun _ => ?_, fun hfull => ?_⟩
  · rw [ensures_bind]
    refine (get_block_spec s ino i).mono (fun pre s₁ h₁ => ?_) fun e s' h' => by
      rw [h'.1]
      exact id
    obtain ⟨hpre, db₁, rfl, -⟩ := h₁
    have hfilled := getD_filled_block (s.conn.blocks ino i) blockSize blockSize
    rw [← hpre] at hfilled
    exact (change_block_spec h hn hlen hfilled.1).mono (fun bytes s₂ h₂ => hstore bytes s₂)
      fun _ _ h => h.elim
  · push Not at hfull
    have hfill := fill_fits h hn hfull.1 hfull.2
    rw [ensures_filled (by exact hfill.1) (by exact hfill.2.trans hlen)]
    exact hstore _ _

/-- A range whose end has wrapped and lies before its start, in the same block: the difference
wraps back, so that the data are stored as they come. -/
theorem write_wrapped_block_calm {ino o n e : ℕ} {data : Bytes} (hc : env.checked = false)
    (he : o + n = e + 2 ^ 32) (hpos : 1 ≤ e) (ho : o < 2 ^ 32) (hn : n < 2 ^ 32)
    (hlen : n ≤ data.length) (hsame : (e - 1) / blockSize = o / blockSize) :
    (writeBlock env ino o n data (o / blockSize + 1) (o / blockSize + 1)
        (o / blockSize + 1)).Ensures s (fun _ _ => True) (fun e _ => ¬ e.IsPanic) := by
  have hlast : ∀ (Q : ℕ → SqliteFs X → Prop) (E : Exit → SqliteFs X → Prop),
      (lastByte env o n).Ensures s Q E ↔ Q (e - 1) s := by
    intro Q E
    unfold lastByte
    simp only [ensures_bind, ensures_u32Add, ensures_u32Sub, he, hc,
      show ¬ e + 2 ^ 32 < 2 ^ 32 by omega, show (e + 2 ^ 32) % 2 ^ 32 = e by omega, hpos,
      not_false_eq_true, not_true_eq_false, false_implies, true_implies, and_true, true_and,
      Bool.false_eq_true]
  have hcall := fun (bytes : Bytes) new_size (s : SqliteFs X) =>
    (calm_writeData env ino (o / blockSize + 1) bytes new_size s trivial).mono
      (R := fun _ _ => True) (F := fun e _ => ¬ e.IsPanic) (fun _ _ _ => trivial) fun _ _ h => h.1
  have hbs : (e - 1) % blockSize + 1 < o % blockSize ∧ o % blockSize < blockSize := by
    unfold blockSize at *
    omega
  unfold writeBlock
  rw [ensures_bind, if_pos rfl, ensures_bind, hlast, ensures_pure, ensures_bind, if_pos rfl,
    if_pos (Or.inl (by omega)), ensures_bind]
  refine (get_block_spec s ino _).mono (fun pre s₁ h₁ => ?_) fun e s' h' => by
    rw [h'.1]
    exact id
  have hfilled := getD_filled_block (s.conn.blocks ino (o / blockSize + 1)) blockSize
    blockSize
  rw [← h₁.1] at hfilled
  have hwrapped : (e - 1) % blockSize + 1 + 2 ^ 32 - o % blockSize = n := by
    unfold blockSize at *
    omega
  have hnew : (o / blockSize + 1 - 1) * blockSize + ((e - 1) % blockSize + 1) < 2 ^ 32 := by
    unfold blockSize at *
    omega
  rw [if_neg (lt_irrefl _)]
  generalize (e - 1) % blockSize + 1 = hi at *
  rw [ensures_bind, ensures_slice]
  refine ⟨fun _ => ?_, fun h => absurd ⟨Nat.zero_le _, by omega⟩ h⟩
  rw [ensures_bind, ensures_u32Add, Nat.zero_add]
  refine ⟨fun _ => ?_, fun h => absurd (by omega) h⟩
  rw [ensures_bind, ensures_u32Sub]
  refine ⟨fun h => absurd h (by omega), fun _ => ⟨fun h => by simp [hc] at h, fun _ => ?_⟩⟩
  rw [hwrapped, ensures_bind, ensures_slice]
  refine ⟨fun _ => ?_, fun h => absurd ⟨Nat.zero_le _, hlen⟩ h⟩
  rw [ensures_bind, ensures_slice]
  refine ⟨fun _ => ?_, fun h => absurd ⟨by omega, hfilled.1⟩ h⟩
  rw [ensures_pure, ensures_bind, ensures_u32Add]
  exact ⟨fun _ => hcall _ _ _, fun h => absurd hnew h⟩

/-- A build without checks goes through the blocks of an empty range at zero up to the last one,
and has no data for the first. -/
theorem write_nothing_panics {ino last : ℕ} {data : Bytes} (hdata : data = []) (hlast : 1 < last) :
    (writeBlock env ino 0 0 data 1 last 1).Ensures s (fun _ _ => False) (fun e _ => e.IsPanic) := by
  subst hdata
  unfold writeBlock
  rw [ensures_bind, if_neg hlast.ne, ensures_pure, ensures_bind, if_pos rfl, Nat.zero_mod,
    if_neg (by simp), if_neg (lt_irrefl 1), ensures_bind, ensures_u32Add, Nat.zero_add]
  refine ⟨fun _ => ?_, fun h => absurd (by decide) h⟩
  rw [ensures_slice]
  exact ⟨fun h => absurd h.2 (by decide), fun _ => trivial⟩

theorem write_panics (ino fh : ℕ) (offset : ℤ) {data : Bytes} (hdata : data.length < 2 ^ 32) :
    PanicsIff (write env ino offset data) s (Panics env s (.write ino fh offset data)) := by
  unfold write
  refine panicsIff_writable_bind fun _ => ?_
  have hn : asU32 data.length = data.length := Nat.mod_eq_of_lt hdata
  have ho : i64AsU32 offset < 2 ^ 32 := by
    unfold i64AsU32
    omega
  dsimp only
  rw [hn]
  generalize i64AsU32 offset = o at *
  -- what follows when no block panics
  have hloop : ∀ (l : List ℕ) (first last : ℕ), ¬ WritePanics env o data.length →
      (∀ i ∈ l, ∀ s : SqliteFs X,
        (writeBlock env (asU32 ino) o data.length data first last i).Ensures s (fun _ _ => True)
          (fun e _ => ¬ e.IsPanic)) →
      PanicsIff (Proc.each (writeBlock env (asU32 ino) o data.length data first last) l >>=
        fun _ => pure (Reply.written data.length)) s (WritePanics env o data.length) := by
    intro l first last hP hl
    unfold PanicsIff
    rw [ensures_bind]
    exact (ensures_each (I := fun _ => True) (fun i hi s _ => hl i hi s) trivial).mono
      (fun _ _ _ => hP) fun _ _ he => iff_of_false he hP
  unfold PanicsIff at hloop ⊢
  rw [ensures_bind]
  rcases Nat.eq_zero_or_pos (o + data.length) with hzero | hpos
  · have hP : WritePanics env o data.length := Or.inl hzero
    obtain rfl : o = 0 := by omega
    have hnil : data = [] := List.length_eq_zero_iff.1 (by omega)
    have hlen : data.length = 0 := by omega
    rw [hlen] at hP ⊢
    unfold lastByte
    simp only [ensures_bind, ensures_u32Add, ensures_u32Sub, Nat.zero_add,
      show ¬ 1 ≤ 0 by omega, false_implies, true_implies, not_false_eq_true, true_and,
      not_true_eq_false, and_true, Nat.two_pow_pos]
    refine ⟨fun _ => iff_of_true trivial hP, fun _ => ?_⟩
    have hlist : List.range' (0 / blockSize + 1) ((2 ^ 32 - 1) / blockSize + 1 + 1 -
        (0 / blockSize + 1)) = 1 :: List.range' 2 (2 ^ 20 - 1) := by
      unfold blockSize
      rw [show (2 ^ 32 - 1) / 4096 + 1 + 1 - (0 / 4096 + 1) = (2 ^ 20 - 1) + 1 by omega,
        List.range'_succ]
    rw [hlist]
    refine (ensures_bind _ _).2 ((write_nothing_panics hnil (by decide)).mono
      (fun _ _ h => h.elim) fun _ _ he => iff_of_true he hP)
  · by_cases hfits : EndFits env o data.length
    · rw [ensures_lastByte hpos hfits]
      refine hloop _ _ _ ?_ fun i hi s => ?_
      · rintro (h | ⟨hc, h⟩)
        · omega
        · rcases hfits with h' | ⟨hc', -⟩
          · omega
          · simp [hc'] at hc
      · rw [List.mem_range'_1] at hi
        exact writeBlock_calm hpos hfits hdata le_rfl hi.1 (by omega)
    · have hover : 2 ^ 32 ≤ o + data.length := not_lt.1 fun h => hfits (Or.inl h)
      cases hc : env.checked with
      | true =>
        unfold lastByte
        rw [ensures_bind, ensures_u32Add]
        exact ⟨fun h => absurd h (not_lt.2 hover), fun _ => ⟨fun _ =>
          iff_of_true trivial (Or.inr ⟨hc, hover⟩), fun h => absurd hc h⟩⟩
      | false =>
        have hP : ¬ WritePanics env o data.length := by
          rintro (h | ⟨h, -⟩)
          · omega
          · simp [hc] at h
        obtain ⟨e, he⟩ : ∃ e, o + data.length = e + 2 ^ 32 := ⟨o + data.length - 2 ^ 32, by omega⟩
        have hpos : 1 ≤ e := by
          rcases Nat.eq_zero_or_pos e with rfl | h
          · exact absurd (Or.inr ⟨hc, by omega⟩) hfits
          · exact h
        unfold lastByte
        simp only [ensures_bind, ensures_u32Add, ensures_u32Sub, he, hc,
          show ¬ e + 2 ^ 32 < 2 ^ 32 by omega, show (e + 2 ^ 32) % 2 ^ 32 = e by omega, hpos,
          not_false_eq_true, not_true_eq_false, false_implies, true_implies, and_true, true_and,
          Bool.false_eq_true]
        simp only [ensures_bind] at hloop
        refine hloop _ _ _ hP fun i hi s => ?_
        rw [List.mem_range'_1] at hi
        have hsame : (e - 1) / blockSize = o / blockSize ∧ i = o / blockSize + 1 := by
          unfold blockSize at *
          omega
        rw [hsame.2, hsame.1]
        exact write_wrapped_block_calm hc he hpos ho hdata le_rfl hsame.1

end Rules

end SqliteFs

end TemporalFs
