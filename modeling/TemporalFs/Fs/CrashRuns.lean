import Mathlib
import TemporalFs.Fs.ReadOnly
import TemporalFs.Fs.LookupCount
import TemporalFs.Fs.Times

/-!
# Crashes in runs

What the handlers rely on holds in every state that a mount reaches: the times that are stored are
dates, and no inode has been counted that does not exist yet. So in every run a request crashes the
file system in the cases of `SqliteFs.Panics` and in no others.

## Main definitions

* `SqliteFs.Mounted`: a mount of any kind, with what its handlers rely on.
* `SqliteFs.KernelSends`: what the kernel may send.

## Main results

* `SqliteFs.mounted_new`, `SqliteFs.mounted_newNoTimeRecording`,
  `SqliteFs.mounted_newReadOnly`, `SqliteFs.mounted_newAtTime`: the constructors make mounts.
* `SqliteFs.Mounted.after`: a request leaves a mount one.
* `SqliteFs.crashes_iff`: which requests crash the file system.
-/

namespace TemporalFs

variable {X : Externals}

namespace SqliteFs

open Proc

variable {env : Env} {s s' : SqliteFs X} {r : Request} {out : Outcome}

/-! ### Counts of inodes that exist -/

/-- What the kernel may send in the state `s`. The lookup count of an inode is what was handed out
of it and has not been given back. -/
def KernelSends (s : SqliteFs X) : Request → Prop
  | .forget ino nlookup => asU32 nlookup ≤ (s.lookupCount.lookup (asU32 ino)).getD 0
  | .read _ _ offset size => 0 ≤ offset ∧ size < 2 ^ 32
  | .write _ _ offset data => 0 ≤ offset ∧ data.length < 2 ^ 32
  | .readdir _ _ offset _ => 0 ≤ offset
  | _ => True

theorem CountedTo.mem_lookupCount {db : Db X} {i j : ℕ} (h : s.CountedTo db i s')
    (hj : j ∈ s'.lookupCount) : j ∈ s.lookupCount ∨ j = i := by
  rcases h with rfl | ⟨rfl, -⟩
  · exact ((AList.mem_insert _).1 hj).symm
  · exact Or.inl hj

/-- An inode counted after a request was counted before, or has been handed out. -/
theorem Effect.mem_lookupCount (h : Effect env s r s' out) (hr : s.KernelSends r) {i : ℕ}
    (hi : i ∈ s'.lookupCount) : i ∈ s.lookupCount ∨ out.named = some i := by
  have hcounted : ∀ {db : Db X} {j : ℕ}, s.CountedTo db j s' → out.named = some j →
      i ∈ s.lookupCount ∨ out.named = some i := fun hs hn =>
    (hs.mem_lookupCount hi).imp_right fun hij => by rw [hn, hij]
  have hsame : s'.lookupCount = s.lookupCount → i ∈ s.lookupCount ∨ out.named = some i :=
    fun heq => Or.inl (heq ▸ hi)
  cases h with
  | quiet h => exact hsame h.lookupCount
  | looked_up _ _ _ hs hn => exact hcounted hs hn
  | made _ _ _ _ hs hn => exact hcounted hs hn
  | half_made _ _ _ hs => exact hsame (hs ▸ rfl)
  | linked _ hs hn => exact hcounted hs hn
  | removed _ _ _ _ hs => exact hsame hs.lookupCount_eq.1
  | renamed _ _ hs => exact hsame hs.lookupCount_eq.1
  | renamed_onto_itself _ _ hs => exact hsame hs.lookupCount_eq.1
  | @forgot ino nlookup _ _ h =>
    have hle : asU32 nlookup ≤ (s.lookupCount.lookup (asU32 ino)).getD 0 := hr
    cases h with
    | ignored => exact Or.inl hi
    | counted_down _ hcount =>
      rw [mem_lookupCount_iff, hcount] at hi
      refine Or.inl ((mem_lookupCount_iff s i).2 ?_)
      split_ifs at hi with hj h₀
      · simp at hi
      · -- what is left of a count that covers the request was counted
        rw [forgottenCount, if_pos hle] at h₀
        rw [hj]
        cases hl : s.lookupCount.lookup (asU32 ino) with
        | none =>
          rw [hl] at h₀
          exact absurd (Nat.zero_sub _) h₀
        | some n => rfl
      · exact hi
    | too_much _ hlt => omega
  | swept _ hs => exact hsame (hs ▸ rfl)
  | destroyed _ hs => exact hsame (hs ▸ rfl)
  | wrote _ hs => exact hsame (hs ▸ rfl)
  | updated _ _ _ hs => exact hsame (hs ▸ rfl)
  | xattr_changed _ _ hs => exact hsame (hs ▸ rfl)

/-! ### Mounts -/

/-- A mount of any kind, with what its handlers rely on. -/
structure Mounted (s : SqliteFs X) : Prop where
  kind : s.WritableMount ∨ s.ReadOnlyMount
  sound : s.Sound

/-- A mount of a database whose times are dates, as the constructors make it. -/
theorem mounted_opened {db : Sqlite} {conn : Db X} {readOnly rewind : Bool}
    (hmode : (readOnly = false ∧ rewind = false) ∨ (readOnly = true ∧ db.readOnly = true ∧
      (rewind = false → db.timeRecording = false)))
    (hlt : conn.sqliteSequence < 2 ^ 32) (hdated : AllTimes TimeColumn.Dated conn.metadata) :
    (opened db conn readOnly rewind).Mounted where
  kind := hmode.imp (fun h => ⟨h.1, h.2, hlt⟩) fun h => ⟨h.1, h.2.1, h.2.2⟩
  sound := ⟨hdated, fun _ i hi => absurd hi (AList.notMem_empty i)⟩

/-- **Every constructor makes a mount**, of a database whose times are dates and whose inode numbers
fit into a `u32`. -/
theorem mounted_of_mount {db : Sqlite} {now : Now} {conn : Db X} {readOnly rewind : Bool}
    (hmode : (readOnly = false ∧ rewind = false) ∨ (readOnly = true ∧ db.readOnly = true ∧
      (rewind = false → db.timeRecording = false)))
    (hlt : conn.sqliteSequence < 2 ^ 32) (hdated : AllTimes TimeColumn.Dated conn.metadata)
    (hs : mount db now conn readOnly rewind = some s) : s.Mounted := by
  obtain ⟨conn', ⟨hlt', hdated'⟩, rfl⟩ :=
    opened_of_mount hs (allTimes_init clockwork_dated.readings db now conn hlt hdated)
  exact mounted_opened hmode hlt' hdated'

section Constructors

variable {now : Now} {conn : Db X} (hlt : conn.sqliteSequence < 2 ^ 32)
  (hdated : AllTimes TimeColumn.Dated conn.metadata)

include hlt hdated

theorem mounted_new (hs : new now conn = some s) : s.Mounted :=
  mounted_of_mount (Or.inl ⟨rfl, rfl⟩) hlt hdated hs

theorem mounted_newNoTimeRecording (hs : newNoTimeRecording now conn = some s) : s.Mounted :=
  mounted_of_mount (Or.inl ⟨rfl, rfl⟩) hlt hdated hs

theorem mounted_newReadOnly (hs : newReadOnly now conn = some s) : s.Mounted :=
  mounted_of_mount (Or.inr ⟨rfl, rfl, fun _ => rfl⟩) hlt hdated hs

theorem mounted_newAtTime {time : ℕ} (hs : newAtTime now conn time = some s) : s.Mounted :=
  mounted_of_mount (Or.inr ⟨rfl, rfl, fun h => absurd h Bool.noConfusion⟩) hlt hdated hs

end Constructors

/-- **A request leaves a mount one.** -/
theorem Mounted.after (h : s.Mounted) (r : Env × Request) (hr : s.KernelSends r.2) :
    (s.after r).Mounted := by
  obtain ⟨hw | hro, hs⟩ := h
  · have heff := hw.handle_effect r
    refine ⟨Or.inl (hw.after r), heff.allTimes clockwork_dated hs.dated, fun _ i hi => ?_⟩
    rcases heff.mem_lookupCount hr hi with hi | hn
    · exact (hs.counted hw.readOnly i hi).trans heff.sequence_le
    · exact (s.after r).conn.sequence_bound i (heff.row_of_named hn)
  · obtain ⟨hsame, hdated⟩ := hro.keeps (I := fun db => AllTimes TimeColumn.Dated db.metadata)
      r.1 r.2 hs.dated (fun _ _ _ => hs.dated.deleteAll _) fun _ _ i _ db now hdb =>
        (Db.SameUpTo.accessed db i now).metadata.times _
          clockwork_dated.readings.clockIn hdb
    refine ⟨Or.inr (hsame.readOnlyMount hro), hdated, fun h => ?_⟩
    have := hsame.readOnly.symm.trans h
    rw [hro.readOnly] at this
    simp at this

theorem crashed_iff_of_panicsIff {h : Handler X Reply} {P : Prop} (hh : PanicsIff h s P) :
    (outcome h s).2.Crashed ↔ P := by
  refine outcome_of_ensures (P := fun _ out => (out.Crashed ↔ P)) (hh.mono (fun _ _ hn => ?_)
    fun e _ he => ?_)
  · exact iff_of_false id hn
  · cases e <;> exact he

theorem crashed_iff_of_panicsIff_silently {h : Handler X Unit} {P : Prop}
    (hh : PanicsIff h s P) : (silently h s).2.Crashed ↔ P := by
  unfold silently
  unfold PanicsIff Ensures at hh
  rcases heq : h s with ⟨s', (reply | sent) | u⟩ <;> rw [heq] at hh
  · exact hh
  · exact hh
  · exact iff_of_false id hh

/-- One request. -/
theorem handle_crashes_iff (h : s.Mounted) (env : Env) {r : Request} (hr : s.KernelSends r) :
    (handle env r s).2.Crashed ↔ Panics env s r := by
  have hcalm : ∀ {x : Handler X Reply}, Calm x → ((outcome x s).2.Crashed ↔ False) :=
    fun hx => crashed_iff_of_panicsIff (hx.panicsIff s id)
  have hs := h.sound
  cases r with
  | init => exact crashed_iff_of_panicsIff_silently (calm_init.panicsIff s id)
  | destroy => exact crashed_iff_of_panicsIff_silently (calm_destroy.panicsIff s id)
  | lookup parent name => exact crashed_iff_of_panicsIff (lookup_panics parent name)
  | forget ino nlookup => exact crashed_iff_of_panicsIff_silently (forget_panics hr)
  | getattr ino => exact hcalm (calm_getattr ino)
  | setattr ino attrs => exact crashed_iff_of_panicsIff (setattr_panics hs ino attrs)
  | readlink ino => exact hcalm (calm_readlink ino)
  | mkdir parent name mode => exact crashed_iff_of_panicsIff (mkdir_panics hs parent name mode)
  | unlink parent name => exact crashed_iff_of_panicsIff (unlink_panics parent name)
  | rmdir parent name => exact crashed_iff_of_panicsIff (rmdir_panics parent name)
  | symlink parent name link => exact crashed_iff_of_panicsIff (symlink_panics hs parent name link)
  | rename p n p' n' => exact crashed_iff_of_panicsIff (rename_panics p n p' n')
  | link ino parent name => exact crashed_iff_of_panicsIff (link_panics ino parent name)
  | «open» ino flags => exact hcalm (calm_open ino flags)
  | read ino fh offset size => exact crashed_iff_of_panicsIff (read_panics ino fh offset hr.2)
  | write ino fh offset data => exact crashed_iff_of_panicsIff (write_panics ino fh offset hr.2)
  | release ino fh => exact hcalm (calm_release ino fh)
  | opendir ino => exact hcalm (calm_opendir ino)
  | readdir ino fh offset size => exact hcalm (calm_readdir ino fh offset size)
  | releasedir ino fh => exact hcalm (calm_releasedir ino fh)
  | statfs ino => exact crashed_iff_of_panicsIff (statfs_panics ino)
  | setxattr ino name value flags =>
    exact crashed_iff_of_panicsIff (setxattr_panics ino name value flags)
  | getxattr ino name size => exact crashed_iff_of_panicsIff (getxattr_panics ino name size)
  | listxattr ino size => exact hcalm (calm_listxattr ino size)
  | removexattr ino name => exact crashed_iff_of_panicsIff (removexattr_panics ino name)
  | create parent name mode => exact crashed_iff_of_panicsIff (create_panics hs parent name mode)
  | unimplemented => exact Iff.rfl

theorem Mounted.run (h : s.Mounted) (rs : List (Env × Request))
    (hrs : ∀ rs₁ r rs₂, rs = rs₁ ++ r :: rs₂ → (s.run rs₁).KernelSends r.2) :
    (s.run rs).Mounted := by
  induction rs using List.reverseRecOn with
  | nil => exact h
  | append_singleton rs r ih =>
    rw [run_append]
    exact (ih fun rs₁ r' rs₂ heq => hrs rs₁ r' (rs₂ ++ [r]) (by simp [heq])).after r
      (hrs rs r [] rfl)

/-- **Which requests crash the file system**, in any run of a mount of any kind, whatever calls
fail: those of `Panics`, which can be told from the request and the state before it. -/
theorem crashes_iff {s₀ : SqliteFs X} (h₀ : s₀.Mounted) (rs : List (Env × Request))
    (hrs : ∀ rs₁ r rs₂, rs = rs₁ ++ r :: rs₂ → (s₀.run rs₁).KernelSends r.2) :
    ∀ rs₁ r rs₂, rs = rs₁ ++ r :: rs₂ →
      ((handle r.1 r.2 (s₀.run rs₁)).2.Crashed ↔ Panics r.1 (s₀.run rs₁) r.2) := by
  rintro rs₁ r rs₂ rfl
  refine handle_crashes_iff (h₀.run rs₁ fun rs₁' r' rs₂' heq => ?_) r.1 (hrs rs₁ r rs₂ rfl)
  exact hrs rs₁' r' (rs₂' ++ r :: rs₂) (by simp [heq])

/-- A name that is not UTF-8 crashes the file system. -/
theorem lookup_of_bytes_crashes : (sample.KernelSends (.lookup 1 [0xff])) ∧
    (handle .sample (.lookup 1 [0xff]) sample).2.Crashed := by
  refine ⟨trivial, ?_⟩
  decide

theorem mounted_sample : sample.Mounted :=
  @mounted_new _ sample epoch (Db.empty .sample id) (by decide) (allTimes_empty _ id) rfl

/-- A file is made, and a name is looked up that is not UTF-8. -/
theorem crashes_iff_sample :
    let rs : List (Env × Request) := [(.sample, .create 1 [97] 0), (.sample, .lookup 1 [0xff])]
    ∀ rs₁ r rs₂, rs = rs₁ ++ r :: rs₂ →
      ((handle r.1 r.2 (sample.run rs₁)).2.Crashed ↔ Panics r.1 (sample.run rs₁) r.2) := by
  refine crashes_iff mounted_sample _ fun rs₁ r rs₂ heq => ?_
  have hmem : r ∈ rs₁ ++ r :: rs₂ := by simp
  rw [← heq] at hmem
  simp only [List.mem_cons, List.not_mem_nil, or_false] at hmem
  rcases hmem with rfl | rfl <;> trivial

end SqliteFs

end TemporalFs
