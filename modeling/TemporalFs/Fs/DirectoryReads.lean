import Mathlib
import TemporalFs.Fs.Handles

/-!
# Reading a directory

`opendir` takes a snapshot of the entries of a directory, and `readdir` gives it out in pages. A
page ends before the first entry that does not fit, and the next page starts at the offset of the
last entry received. Whatever else happens before the handle is released, the pages together are
the snapshot.

## Main definitions

* `ReadStep`, `SqliteFs.readAll`: reading a directory page by page, with other requests in between.
* `PagesFit`: each page has room for one more entry.
* `ListsDirectory`: the entries of a directory in the order of their names.

## Main results

* `SqliteFs.HoldsDir.after`: a snapshot stays until its handle is released.
* `SqliteFs.directory_reads_complete`: the pages together are the snapshot.
-/

namespace TemporalFs

variable {X : Externals}

/-! ### Pages -/

/-- The reply for an entry at a position of the snapshot. -/
def direntOf (x : DEntry × ℕ) : Dirent := ⟨x.1.childIno, x.2 + 1, x.1.fileType, x.1.filename⟩

/-- The replies for the entries from a position on. -/
def direntsFrom (l : List DEntry) (offset : ℕ) : List Dirent := (l.zipIdx.drop offset).map direntOf

/-- The page of the given size at an offset. -/
def pageAt (l : List DEntry) (offset size : ℕ) : List Dirent :=
  SqliteFs.addDirents size (l.zipIdx.drop offset) 0

/-- Each of the pages has room for one more entry, where there is one. -/
def PagesFit (l : List DEntry) : ℕ → List ℕ → Prop
  | _, [] => True
  | offset, size :: sizes =>
    (∀ e, l[offset]? = some e → SqliteFs.direntSize e.filename ≤ size) ∧
      PagesFit l (offset + (pageAt l offset size).length) sizes

/-- A page holds the first few entries, and at least one if that fits. -/
theorem addDirents_eq_take (capacity : ℕ) (l : List (DEntry × ℕ)) (used : ℕ) :
    ∃ k ≤ l.length, SqliteFs.addDirents capacity l used = (l.take k).map direntOf ∧
      (∀ x l', l = x :: l' → used + SqliteFs.direntSize x.1.filename ≤ capacity → 0 < k) := by
  induction l generalizing used with
  | nil => exact ⟨0, le_rfl, rfl, fun x l' h => by simp at h⟩
  | cons y l ih =>
    obtain ⟨entry, i⟩ := y
    unfold SqliteFs.addDirents
    split_ifs with hfull
    · refine ⟨0, Nat.zero_le _, rfl, fun x l' h hle => ?_⟩
      obtain ⟨rfl, -⟩ := List.cons.inj h
      exact absurd hle (not_le.2 hfull)
    · obtain ⟨k, hk, heq, -⟩ := ih (used + SqliteFs.direntSize entry.filename)
      refine ⟨k + 1, Nat.succ_le_succ hk, ?_, fun _ _ _ _ => Nat.succ_pos k⟩
      rw [heq]
      rfl

/-- A page and the entries after it. -/
theorem pageAt_append (l : List DEntry) {offset : ℕ} (size : ℕ) (hle : offset ≤ l.length) :
    offset + (pageAt l offset size).length ≤ l.length ∧
      pageAt l offset size ++ direntsFrom l (offset + (pageAt l offset size).length) =
        direntsFrom l offset ∧
      ((∀ e, l[offset]? = some e → SqliteFs.direntSize e.filename ≤ size) →
        pageAt l offset size = [] → offset = l.length) := by
  obtain ⟨k, hk, heq, hpos⟩ := addDirents_eq_take size (l.zipIdx.drop offset) 0
  rw [List.length_drop, List.length_zipIdx] at hk
  have hlen : (pageAt l offset size).length = k := by
    rw [pageAt, heq, List.length_map, List.length_take, List.length_drop, List.length_zipIdx]
    omega
  rw [hlen]
  refine ⟨by omega, ?_, fun hfits hempty => ?_⟩
  · rw [pageAt, heq, direntsFrom, direntsFrom, ← List.map_append, ← List.drop_drop,
      List.take_append_drop]
  · by_contra hne
    have hlt : offset < l.length := by omega
    have hlt' : offset < l.zipIdx.length := by rwa [List.length_zipIdx]
    have hcons := List.drop_eq_getElem_cons hlt'
    have hk₀ : k = 0 := by rw [← hlen, hempty]; rfl
    have hlarge := hpos _ _ hcons (by
      rw [Nat.zero_add, List.getElem_zipIdx]
      exact hfits _ (List.getElem?_eq_getElem hlt))
    omega

/-- The offset of the last entry of a page is where the next page starts. -/
theorem off_of_getLast {l : List DEntry} {offset size : ℕ} {e : Dirent}
    (h : (pageAt l offset size).getLast? = some e) :
    e.off = offset + (pageAt l offset size).length := by
  obtain ⟨k, hk, heq, -⟩ := addDirents_eq_take size (l.zipIdx.drop offset) 0
  rw [List.length_drop, List.length_zipIdx] at hk
  rw [pageAt, heq] at h ⊢
  rw [List.getLast?_map, List.getLast?_eq_getElem?, List.length_take, List.length_drop,
    List.length_zipIdx, Nat.min_eq_left hk] at h
  rw [List.length_map, List.length_take, List.length_drop, List.length_zipIdx, Nat.min_eq_left hk]
  obtain ⟨⟨x, i⟩, hx, rfl⟩ := Option.map_eq_some_iff.1 h
  obtain ⟨hlt, hx⟩ := List.getElem?_eq_some_iff.1 hx
  rw [List.getElem_take, List.getElem_drop, List.getElem_zipIdx] at hx
  rw [List.length_take, List.length_drop, List.length_zipIdx] at hlt
  have hi : 0 + (offset + (k - 1)) = i := congrArg Prod.snd hx
  have hoff : (direntOf (x, i)).off = i + 1 := rfl
  rw [hoff]
  omega

/-! ### The order of names -/

/-- The entries are those of the directory `i`, each once, in the order of their names. -/
structure ListsDirectory (rows : List DentryRow) (i : ℕ) (entries : List Dirent) : Prop where
  sorted : entries.Pairwise fun a b => a.name ≤ b.name
  perm : (entries.map fun d => (d.name, d.ino, d.kind)).Perm
    ((rows.filter fun e => e.parentId = i).map fun e => (e.name, e.childId, e.fileType))

/-- The names of byte strings are ordered. -/
theorem pairwise_insertionSort_of_key {α : Type} (key : α → List UInt8) (l : List α) :
    (l.insertionSort fun a b => key a ≤ key b).Pairwise fun a b => key a ≤ key b :=
  haveI : Std.Total fun a b : α => key a ≤ key b := ⟨fun a b => List.le_total (key a) (key b)⟩
  haveI : IsTrans α fun a b => key a ≤ key b := ⟨fun _ _ _ => List.le_trans⟩
  List.pairwise_insertionSort _ l

theorem listsDirectory_dentryList (rows : List DentryRow) (i : ℕ) :
    ListsDirectory rows i (direntsFrom (Sqlite.dentryList rows i) 0) := by
  have hnames : ∀ {β : Type} (g : Dirent → β) (g' : DEntry → β),
      (∀ x, g (direntOf x) = g' x.1) → ∀ l : List DEntry,
        (direntsFrom l 0).map g = l.map g' := by
    intro β g g' hg l
    rw [direntsFrom, List.drop_zero, List.map_map, show g ∘ direntOf = g' ∘ Prod.fst from funext hg,
      ← List.map_map, List.zipIdx_map_fst]
  constructor
  · have hsorted := pairwise_insertionSort_of_key DentryRow.name
      (rows.filter fun e => e.parentId = i)
    rw [← List.pairwise_map (f := Dirent.name) (R := fun a b => a ≤ b),
      hnames Dirent.name DEntry.filename fun _ => rfl, Sqlite.dentryList, List.map_map]
    exact List.pairwise_map.2 hsorted
  · rw [hnames (fun d => (d.name, d.ino, d.kind)) (fun e => (e.filename, e.childIno, e.fileType))
      fun _ => rfl, Sqlite.dentryList, List.map_map]
    exact (List.perm_insertionSort _ _).map _

/-! ### Reading -/

/-- One step of reading a directory: other requests, and then a page of the given size. -/
structure ReadStep where
  between : List (Env × Request)
  env : Env
  size : ℕ

namespace SqliteFs

variable {s : SqliteFs X} {l : List DEntry}

/-- The entries received until an empty page; `none` where the steps do not come to one. -/
def readAll (ino fh : ℕ) (s : SqliteFs X) (offset : ℕ) : List ReadStep → Option (List Dirent)
  | [] => none
  | step :: steps =>
    match handle step.env (.readdir ino fh offset step.size) (s.run step.between) with
    | (s', .replied (.directory page)) =>
      match page.getLast? with
      | none => some []
      | some e => (readAll ino fh s' e.off steps).map (page ++ ·)
    | _ => none

/-- The request gives back the handle `fh` of the directory `i`. -/
def Releases (i fh : ℕ) (r : Request) : Prop := ∃ ino, r = .releasedir ino fh ∧ asU32 ino = i

/-- The handle `fh` of the directory `i` is open, with the snapshot `l`. -/
structure HoldsDir (s : SqliteFs X) (i fh : ℕ) (l : List DEntry) : Prop where
  fresh : s.dirHandles.Fresh
  find : s.dirHandles.find i fh = some l

/-- What a request does to the snapshots. -/
theorem dirHandles_after (h : s.dirHandles.Fresh) (r : Env × Request) :
    (s.after r).dirHandles = s.dirHandles ∨
      (∃ i l, (s.after r).dirHandles = s.dirHandles.opened i l) ∨
        ∃ ino fh, r.2 = .releasedir ino fh ∧
          (s.after r).dirHandles = s.dirHandles.released (asU32 ino) fh := by
  obtain ⟨env, req⟩ := r
  by_cases hsteady : req.opensOrCloses = false
  · have hs : HandlesAre s.openFileHandler s.openDirHandler (s.after (env, req)) :=
      handle_steady hsteady
    exact Or.inl (dirHandles_congr hs.2)
  cases req with
  | «open» ino flags =>
    have hspec := handle_open env s ino flags
    unfold SqliteFs.after
    generalize handle env (.open ino flags) s = res at hspec ⊢
    obtain ⟨s', out⟩ := res
    cases hspec with
    | refused _ hs => exact Or.inl (hs ▸ rfl)
    | opened _ _ hdirs => exact Or.inl (dirHandles_congr hdirs)
  | release ino fh => exact Or.inl rfl
  | opendir ino =>
    have hspec := handle_opendir env s ino
    unfold SqliteFs.after
    generalize handle env (.opendir ino) s = res at hspec ⊢
    obtain ⟨s', out⟩ := res
    cases hspec with
    | refused _ hs => exact Or.inl (dirHandles_congr hs.2)
    | opened _ hdirs => exact Or.inr (Or.inl ⟨_, _, hdirs⟩)
  | releasedir ino fh => exact Or.inr (Or.inr ⟨ino, fh, rfl, (handle_releasedir env h ino fh).1⟩)
  | _ => exact absurd rfl hsteady

theorem fresh_after (h : s.dirHandles.Fresh) (r : Env × Request) :
    (s.after r).dirHandles.Fresh := by
  rcases dirHandles_after h r with heq | ⟨i, l, heq⟩ | ⟨ino, fh, -, heq⟩
  · exact heq ▸ h
  · exact heq ▸ h.opened i l
  · exact heq ▸ h.released _ fh

/-- **A snapshot stays** until its handle is released. -/
theorem HoldsDir.after {i fh : ℕ} (h : s.HoldsDir i fh l) (r : Env × Request)
    (hr : ¬ Releases i fh r.2) : (s.after r).HoldsDir i fh l := by
  refine ⟨fresh_after h.fresh r, ?_⟩
  rcases dirHandles_after h.fresh r with heq | ⟨i', l', heq⟩ | ⟨ino, fh', hreq, heq⟩
  · exact heq ▸ h.find
  · exact heq ▸ h.fresh.find_opened h.find
  · rw [heq, HandleTable.find_released_of_ne, h.find]
    rintro ⟨rfl, rfl⟩
    exact hr ⟨ino, hreq, rfl⟩

theorem HoldsDir.run {i fh : ℕ} (h : s.HoldsDir i fh l) (rs : List (Env × Request))
    (hrs : ∀ r ∈ rs, ¬ Releases i fh r.2) : (s.run rs).HoldsDir i fh l :=
  run_induction (I := fun s => s.HoldsDir i fh l) rs (fun _ r hr h => h.after r (hrs r hr)) s h

/-- `readdir` gives out a page of the snapshot. -/
theorem HoldsDir.readdir {ino fh : ℕ} (h : s.HoldsDir (asU32 ino) fh l) (env : Env)
    {offset : ℕ} (hoffset : offset < 2 ^ 64) (size : ℕ) :
    handle env (.readdir ino fh offset size) s =
      (s, .replied (.directory (pageAt l offset size))) := by
  have hfind : (s.openDirHandler.lookup (asU32 ino)).bind (fun n => n.list.lookup fh) = some l :=
    h.find
  have hcast : ((offset : ℤ) % 2 ^ 64).toNat = offset := by
    rw [Int.emod_eq_of_lt (Int.natCast_nonneg offset) (by exact_mod_cast hoffset)]
    rfl
  have hspec : (SqliteFs.readdir env ino fh offset size).Ensures s
      (fun reply s' => reply = .directory (pageAt l offset size) ∧ s' = s) (fun _ _ => False) := by
    unfold SqliteFs.readdir
    simp only [Proc.ensures_bind, Proc.ensures_get, ensures_foundOrNoEnt, Proc.ensures_pure, hfind,
      hcast, Option.some.injEq, reduceCtorEq, false_implies, and_true]
    rintro l' rfl
    rfl
  obtain ⟨reply, s', heq, hreply, hs⟩ := hspec.exists_ok
  rw [handle, outcome, heq, hreply, hs]

/-- Reading on from an offset gives the entries from there. -/
theorem HoldsDir.readAll {ino fh : ℕ} (hlen : l.length < 2 ^ 64) (steps : List ReadStep)
    (hsteps : ∀ step ∈ steps, ∀ r ∈ step.between, ¬ Releases (asU32 ino) fh r.2) {offset : ℕ}
    (hoffset : offset ≤ l.length) (hfit : PagesFit l offset (steps.map ReadStep.size))
    (h : s.HoldsDir (asU32 ino) fh l) :
    (∀ entries, s.readAll ino fh offset steps = some entries → entries = direntsFrom l offset) ∧
      (l.length < offset + steps.length → (s.readAll ino fh offset steps).isSome) := by
  induction steps generalizing s offset with
  | nil =>
    refine ⟨fun entries h => by simp [SqliteFs.readAll] at h, fun hlt => ?_⟩
    exact absurd hlt (by simpa using hoffset)
  | cons step steps ih =>
    obtain ⟨hfits, hfit⟩ := hfit
    have hrun := h.run step.between (hsteps step List.mem_cons_self)
    obtain ⟨hle, happend, hempty⟩ := pageAt_append l step.size hoffset
    have hpage := hrun.readdir step.env (hoffset.trans_lt hlen) step.size
    simp only [SqliteFs.readAll, hpage]
    cases hlast : (pageAt l offset step.size).getLast? with
    | none =>
      have hend := hempty hfits (List.getLast?_eq_none_iff.1 hlast)
      refine ⟨fun entries hentries => ?_, fun _ => rfl⟩
      rw [← Option.some.inj hentries, direntsFrom, hend, List.drop_of_length_le, List.map_nil]
      rw [List.length_zipIdx]
    | some e =>
      have hoff := off_of_getLast hlast
      have hne : (pageAt l offset step.size).length ≠ 0 := by
        intro hzero
        rw [List.length_eq_zero_iff.1 hzero] at hlast
        simp at hlast
      obtain ⟨ihall, ihsome⟩ := ih (fun step hstep => hsteps step (List.mem_cons_of_mem _ hstep))
        (hoff ▸ hle) (hoff ▸ hfit) hrun
      refine ⟨fun entries hentries => ?_, fun hlt => ?_⟩
      · obtain ⟨rest, hrest, rfl⟩ := Option.map_eq_some_iff.1 hentries
        rw [ihall rest hrest, hoff]
        exact happend
      · rw [Option.isSome_map]
        rw [List.length_cons] at hlt
        exact ihsome (by omega)

/-- **Directory reads are complete snapshots.** The pages that are read until an empty one hold the
entries that the directory had when it was opened, each once and in the order of their names, and
an empty page comes at the latest after as many pages as there are entries. -/
theorem directory_reads_complete {s₀ : SqliteFs X} (hempty : s₀.openDirHandler = ∅)
    (rs : List (Env × Request)) (env : Env) (ino : ℕ) {fh flags : ℕ}
    (hopen : (handle env (.opendir ino) (s₀.run rs)).2 = .replied (.opened fh flags))
    (hlen : (Sqlite.dentryList (s₀.run rs).shownEntries (asU32 ino)).length < 2 ^ 64)
    (steps : List ReadStep)
    (hsteps : ∀ step ∈ steps, ∀ r ∈ step.between, ¬ Releases (asU32 ino) fh r.2)
    (hfit : PagesFit (Sqlite.dentryList (s₀.run rs).shownEntries (asU32 ino)) 0
      (steps.map ReadStep.size)) :
    (∀ entries, ((s₀.run rs).after (env, .opendir ino)).readAll ino fh 0 steps = some entries →
        ListsDirectory (s₀.run rs).shownEntries (asU32 ino) entries) ∧
      ((Sqlite.dentryList (s₀.run rs).shownEntries (asU32 ino)).length < steps.length →
        (((s₀.run rs).after (env, .opendir ino)).readAll ino fh 0 steps).isSome) := by
  have hfresh₀ : s₀.dirHandles.Fresh := by
    intro i f hf
    simp [dirHandles, HandleTable.ofLists, hempty] at hf
  have hfresh := run_induction (I := fun s => s.dirHandles.Fresh) rs
    (fun _ r _ h => fresh_after h r) s₀ hfresh₀
  generalize s₀.run rs = s at *
  have hholds : (s.after (env, .opendir ino)).HoldsDir (asU32 ino) fh
      (Sqlite.dentryList s.shownEntries (asU32 ino)) := by
    refine ⟨fresh_after hfresh _, ?_⟩
    have hspec := handle_opendir env s ino
    unfold SqliteFs.after
    generalize handle env (.opendir ino) s = res at hspec hopen ⊢
    obtain ⟨s', out⟩ := res
    subst hopen
    cases hspec with
    | refused hfail => exact hfail.elim
    | opened hfh hdirs =>
      rw [hdirs, ← hfh]
      exact HandleTable.find_opened_self _ _ _
  obtain ⟨hall, hsome⟩ := hholds.readAll hlen steps hsteps (Nat.zero_le _) hfit
  refine ⟨fun entries hentries => ?_, fun hlt => hsome (by omega)⟩
  rw [hall entries hentries]
  exact listsDirectory_dentryList _ _

/-- The root is opened while it holds the file `a`, which is deleted before the first page. -/
theorem directory_reads_complete_sample :
    let s := sample.run [(.sample, .create 1 [97] 0)]
    let steps : List ReadStep := [⟨[(.sample, .unlink 1 [97])], .sample, 4096⟩,
      ⟨[(.sample, .opendir 1)], .sample, 4096⟩]
    (∀ entries, (s.after (.sample, .opendir 1)).readAll 1 0 0 steps = some entries →
        ListsDirectory s.shownEntries 1 entries) ∧
      ((Sqlite.dentryList s.shownEntries 1).length < steps.length →
        ((s.after (.sample, .opendir 1)).readAll 1 0 0 steps).isSome) := by
  intro s steps
  refine @directory_reads_complete _ sample rfl [(.sample, .create 1 [97] 0)] .sample 1 0 0
    (by decide) (by decide) steps ?_ ⟨fun e he => ?_, fun e he => ?_, trivial⟩
  · simp only [steps, List.mem_cons, List.not_mem_nil, or_false, forall_eq_or_imp, forall_eq]
    exact ⟨by rintro ⟨ino, hr, -⟩; exact absurd hr (by simp),
      by rintro ⟨ino, hr, -⟩; exact absurd hr (by simp)⟩
  · obtain rfl : e = ⟨1, 1, .Directory, dot⟩ := Option.some.inj (he.symm.trans (by decide))
    decide
  · exact absurd (he.symm.trans (show _ = none by decide)) (by simp)

end SqliteFs

end TemporalFs
