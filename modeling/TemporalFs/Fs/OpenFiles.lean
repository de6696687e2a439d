import Mathlib
import TemporalFs.Fs.Handles
import TemporalFs.Fs.LookupCount

/-!
# Handles of open files

The kernel keeps the handles of open files until it releases them. Those that `open` hands out are
distinct, and each has its record. `create` hands out the handle 0 without a record.

A handle counts as held from the reply of `open` or `create` to the `release` that names it. The
counter of an inode is never set back, so that `open` hands out a number that no handle in use has.
But `create` does not ask the table at all: the next `open` of the file hands out its 0 again. The
runs in which a `create` succeeds are therefore the ones that the condition leaves out.

## Main definitions

* `FileHandle`, `unreleased`: the handles that the kernel holds after a run.
* `SqliteFs.HandlesKept`: they are distinct, and each has its record.

## Main results

* `SqliteFs.Tracked.after`: a request that does not hand out a handle by `create` keeps track.
* `SqliteFs.handles_kept`: so does every run.
-/

namespace TemporalFs

variable {X : Externals}

/-- A handle that was handed out, with the flags of `open`. -/
structure FileHandle where
  ino : ℕ
  fh : ℕ
  flags : Option ℕ
  deriving DecidableEq

/-- The inode and the number of a handle. -/
def FileHandle.key (h : FileHandle) : ℕ × ℕ := (h.ino, h.fh)

/-- The handle that an event hands out. -/
def handedHandle : Request × Outcome → Option FileHandle
  | (.open ino flags, .replied (.opened fh _)) => some ⟨asU32 ino, fh, some flags⟩
  | (.create .., .replied (.created _ attr _ fh _)) => some ⟨attr.ino, fh, none⟩
  | _ => none

/-- The handles that the kernel holds after one more event. -/
def holdOn (l : List FileHandle) (e : Request × Outcome) : List FileHandle :=
  match e.1 with
  | .release ino fh => l.eraseP fun h => h.key = (asU32 ino, fh)
  | _ => (handedHandle e).toList ++ l

/-- The handles that were handed out and not yet released. -/
def unreleased (t : List (Request × Outcome)) : List FileHandle := t.foldl holdOn []

/-- The record holds the flags that the file was opened with; the access mode is in the two lowest
bits. -/
structure OpenFileStat.Holds (stat : OpenFileStat) (flags : ℕ) : Prop where
  readonly : stat.readonly = true ↔ flags % 4 = SqliteFs.oRdonly
  append : stat.append = SqliteFs.hasFlag flags SqliteFs.oAppend
  noatime : stat.noatime = SqliteFs.hasFlag flags SqliteFs.oNoatime

/-- The test for `O_RDONLY`, which is 0, never succeeds. -/
theorem SqliteFs.openFileStat_holds_iff (flags : ℕ) :
    (openFileStat flags).Holds flags ↔ flags % 4 ≠ oRdonly := by
  have hnever : hasFlag flags oRdonly = false := by simp [hasFlag, oRdonly]
  refine ⟨fun h hmode => ?_, fun hmode => ⟨?_, rfl, rfl⟩⟩
  · have hread := h.readonly.2 hmode
    simp [openFileStat, hnever] at hread
  · simp [openFileStat, hnever, hmode]

namespace SqliteFs

variable {s : SqliteFs X} {l : List FileHandle}

/-- The handles are distinct, each has a record, and releasing one of them leaves the records of the
others alone. -/
structure HandlesDistinct (s : SqliteFs X) (l : List FileHandle) : Prop where
  distinct : (l.map FileHandle.key).Nodup
  record : ∀ h ∈ l, (s.fileHandles.find h.ino h.fh).isSome
  release : ∀ env ino fh, ∀ h ∈ l, h.key ≠ (asU32 ino, fh) →
    (s.after (env, .release ino fh)).fileHandles.find h.ino h.fh = s.fileHandles.find h.ino h.fh

/-- Moreover, each record holds the flags that the file was opened with. -/
structure HandlesKept (s : SqliteFs X) (l : List FileHandle) : Prop
    extends s.HandlesDistinct l where
  flags : ∀ h ∈ l, ∀ flags, h.flags = some flags →
    ∀ stat, s.fileHandles.find h.ino h.fh = some stat → stat.Holds flags

/-- The handles all come from `open` and are in the table. -/
structure Tracked (s : SqliteFs X) (l : List FileHandle) : Prop where
  fresh : s.fileHandles.Fresh
  opened : ∀ h ∈ l, h.flags.isSome
  issued : s.fileHandles.Issued (l.map fun h => (h.ino, h.fh, openFileStat (h.flags.getD 0)))

theorem Tracked.distinct (h : s.Tracked l) : (l.map FileHandle.key).Nodup := by
  have hdistinct := h.issued.distinct
  rwa [List.map_map] at hdistinct

theorem Tracked.find (h : s.Tracked l) {x : FileHandle} (hx : x ∈ l) :
    s.fileHandles.find x.ino x.fh = some (openFileStat (x.flags.getD 0)) :=
  h.issued.find _ (List.mem_map.2 ⟨x, hx, rfl⟩)

/-- A table that is the same keeps track of the same handles. -/
theorem Tracked.congr {s' : SqliteFs X} (h : s.Tracked l)
    (hs : s'.openFileHandler = s.openFileHandler) : s'.Tracked l := by
  have heq := fileHandles_congr hs
  exact ⟨heq ▸ h.fresh, h.opened, heq ▸ h.issued⟩

/-- **A request keeps track of the handles** unless it is a `create` that hands one out. -/
theorem Tracked.after (h : s.Tracked l) (r : Env × Request)
    (hr : ∀ p n m, r.2 = .create p n m → handedHandle (r.2, (handle r.1 r.2 s).2) = none) :
    (s.after r).Tracked (holdOn l (r.2, (handle r.1 r.2 s).2)) := by
  obtain ⟨env, req⟩ := r
  by_cases hopen : ∃ ino flags, req = .open ino flags
  · obtain ⟨ino, flags, rfl⟩ := hopen
    have hspec := handle_open env s ino flags
    unfold SqliteFs.after
    dsimp only
    generalize handle env (.open ino flags) s = res at hspec
    obtain ⟨s', out⟩ := res
    cases hspec with
    | refused e hs => exact hs ▸ h
    | opened hfh hfiles =>
      rename_i fh
      subst hfh
      refine ⟨hfiles ▸ h.fresh.opened _ _, fun x hx => ?_, ?_⟩
      · rcases List.mem_cons.1 hx with rfl | hx
        · rfl
        · exact h.opened x hx
      · exact hfiles ▸ h.issued.opened h.fresh (asU32 ino) (openFileStat flags)
  by_cases hrelease : ∃ ino fh, req = .release ino fh
  · obtain ⟨ino, fh, rfl⟩ := hrelease
    obtain ⟨hfiles, -⟩ := handle_release env h.fresh ino fh
    have hold : holdOn l (.release ino fh, (handle env (.release ino fh) s).2) =
        l.filter fun x => ¬ x.key = (asU32 ino, fh) :=
      HandleTable.eraseP_eq_filter FileHandle.key (asU32 ino, fh) l h.distinct
    have hafter : (s.after (env, .release ino fh)).fileHandles =
        s.fileHandles.released (asU32 ino) fh := hfiles
    rw [hold]
    refine ⟨?_, fun x hx => h.opened x (List.mem_of_mem_filter hx), ?_⟩
    · exact hafter ▸ h.fresh.released _ _
    · have hissued := h.issued.released (asU32 ino) fh
      rw [← hafter, List.filter_map] at hissued
      refine Eq.mp (congrArg _ (congrArg _ (List.filter_congr fun x _ => ?_))) hissued
      simp [FileHandle.key]
  · have hsame : (s.after (env, req)).openFileHandler = s.openFileHandler := by
      by_cases hsteady : req.opensOrCloses = false
      · exact (handle_steady hsteady).1
      · cases req with
        | «open» => exact absurd ⟨_, _, rfl⟩ hopen
        | release => exact absurd ⟨_, _, rfl⟩ hrelease
        | opendir ino =>
          have hspec := handle_opendir env s ino
          unfold SqliteFs.after
          generalize handle env (.opendir ino) s = res at hspec
          obtain ⟨s', out⟩ := res
          cases hspec with
          | refused _ hs => exact hs.1
          | opened _ _ hfiles => exact hfiles
        | releasedir ino fh => rfl
        | _ => exact absurd rfl hsteady
    have hhold : holdOn l (req, (handle env req s).2) = l := by
      cases req with
      | «open» => exact absurd ⟨_, _, rfl⟩ hopen
      | release => exact absurd ⟨_, _, rfl⟩ hrelease
      | create p n m =>
        simp only [holdOn, hr p n m rfl, Option.toList_none, List.nil_append]
      | _ => simp [holdOn, handedHandle]
    rw [hhold]
    exact h.congr hsame

theorem Tracked.handlesDistinct (h : s.Tracked l) : s.HandlesDistinct l where
  distinct := h.distinct
  record x hx := by rw [h.find hx]; rfl
  release env ino fh x _ hne := by
    have hafter : (s.after (env, .release ino fh)).fileHandles =
        s.fileHandles.released (asU32 ino) fh := (handle_release env h.fresh ino fh).1
    rw [hafter, HandleTable.find_released_of_ne]
    exact fun hc => hne (Prod.ext hc.1 hc.2)

theorem Tracked.handlesKept_iff (h : s.Tracked l) : s.HandlesKept l ↔
    ∀ x ∈ l, ∀ flags, x.flags = some flags → flags % 4 ≠ oRdonly := by
  have hfind : ∀ x ∈ l, ∀ flags, x.flags = some flags →
      s.fileHandles.find x.ino x.fh = some (openFileStat flags) := by
    intro x hx flags hflags
    rw [h.find hx, hflags, Option.getD_some]
  refine ⟨fun hkept x hx flags hflags => ?_, fun hmode => ⟨h.handlesDistinct, ?_⟩⟩
  · exact (openFileStat_holds_iff flags).1
      (hkept.flags x hx flags hflags _ (hfind x hx flags hflags))
  · intro x hx flags hflags stat hstat
    obtain rfl := Option.some.inj ((hfind x hx flags hflags).symm.trans hstat)
    exact (openFileStat_holds_iff flags).2 (hmode x hx flags hflags)

/-- A run that hands out no handle by `create` keeps track of the handles. -/
theorem tracked_run {s₀ : SqliteFs X} (hempty : s₀.openFileHandler = ∅)
    (rs : List (Env × Request))
    (hrs : ∀ e ∈ s₀.events rs, ∀ p n m, e.1 = .create p n m → handedHandle e = none) :
    (s₀.run rs).Tracked (unreleased (s₀.events rs)) := by
  induction rs using List.reverseRecOn with
  | nil =>
    refine ⟨fun i f hf => ?_, fun h hh => by simp [events, unreleased] at hh, ?_, ?_⟩
    · simp [fileHandles, HandleTable.ofLists, hempty] at hf
    · simp [events, unreleased]
    · simp [events, unreleased]
  | append_singleton rs r ih =>
    rw [events_append] at hrs
    have ih := ih fun e he => hrs e (List.mem_append_left _ he)
    have hstep := ih.after r fun p n m hr =>
      hrs (r.2, (handle r.1 r.2 (s₀.run rs)).2) (List.mem_append_right _ List.mem_cons_self) p n m
        hr
    rw [run_append, events_append]
    unfold unreleased at hstep ⊢
    rw [List.foldl_append]
    exact hstep

/-- **Open file handles are distinct** after every run in which `create` hands out none: no two
handles of an inode that are not released are the same. Their records hold the flags unless a file
was opened for reading only. -/
theorem handles_kept {s₀ : SqliteFs X} (hempty : s₀.openFileHandler = ∅)
    (rs : List (Env × Request))
    (hrs : ∀ e ∈ s₀.events rs, ∀ p n m, e.1 = .create p n m → handedHandle e = none) :
    (s₀.run rs).HandlesDistinct (unreleased (s₀.events rs)) ∧
      ((s₀.run rs).HandlesKept (unreleased (s₀.events rs)) ↔
        ∀ x ∈ unreleased (s₀.events rs), ∀ flags, x.flags = some flags →
          flags % 4 ≠ oRdonly) :=
  ⟨(tracked_run hempty rs hrs).handlesDistinct, (tracked_run hempty rs hrs).handlesKept_iff⟩

/-- The first of two handles is released, and a third one opened. -/
theorem handles_kept_sample :
    let rs : List (Env × Request) := [(.sample, .open 1 2), (.sample, .open 1 1),
      (.sample, .release 1 0), (.sample, .open 1 1)]
    (sample.run rs).HandlesDistinct (unreleased (sample.events rs)) ∧
      ((sample.run rs).HandlesKept (unreleased (sample.events rs)) ↔
        ∀ x ∈ unreleased (sample.events rs), ∀ flags, x.flags = some flags →
          flags % 4 ≠ oRdonly) := by
  refine handles_kept rfl _ fun e he p n m hr => ?_
  simp only [events, List.mem_cons, List.not_mem_nil, or_false] at he
  rcases he with rfl | rfl | rfl | rfl <;> exact absurd hr (by simp)

/-- A file that is created and opened once more has two handles 0. -/
theorem created_handle_is_handed_out_again :
    let rs : List (Env × Request) := [(.sample, .create 1 [97] 0), (.sample, .open 2 2)]
    ¬ (sample.run rs).HandlesKept (unreleased (sample.events rs)) := by
  intro rs h
  exact absurd h.distinct (by decide)

end SqliteFs

end TemporalFs
