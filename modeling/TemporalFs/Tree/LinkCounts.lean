import Mathlib
import TemporalFs.Attr.LookupBlocks
import TemporalFs.Tree.Mounts

/-!
# Link counts

The link count of an inode is not stored: it is the number of entries that name it, the entries
`.` and `..` of directories among them. It is right as long as every entry lies in a linked
directory. A rename over an empty directory leaves the entries `.` and `..` of that directory
behind, and from then on its parent has one link too many.

## Main definitions

* `Db.Tidy`: a tree in which every entry lies in a linked directory.
* `Db.linkCount`: the link count that an inode should have.
* `Db.LinkCountsRight`: what `getInode` and `lookup` say agrees with it.

## Main results

* `Db.Tidy.count`: the number of entries that name an inode.
* `SqliteFs.link_counts_right`: in every run without a rename over a directory.
-/

namespace TemporalFs

variable {X : Externals}

namespace Db

variable {db db' : Db X}

/-- A tree in which every entry lies in a linked directory. -/
structure Tidy (db : Db X) : Prop where
  tree : db.Tree
  tidy : ∀ k e, db.dentry.find k = some e → db.LinkedDir e.parentId

/-- The name `n'` in `p'`, which a rename is about to replace, leads to no directory, or the rename
is refused. -/
def ReplacesNoDir (db : Db X) (p : ℕ) (n : Name) (p' : ℕ) (n' : Name) : Prop :=
  db.CanMove p n p' n' → ∀ v, db.next p' n' = some v → ¬ db.IsDir v

/-- A linked directory that does not lose its name stays linked. -/
theorem LinkedDir.of_setName {p d : ℕ} {n : Name} {o : Option ℕ} (hd : db.LinkedDir d)
    (hnext : db'.next = setName db.next p n o) (hne : db.next p n ≠ some d) :
    d = 1 ∨ ∃ q m, db'.next q m = some d := by
  refine hd.2.imp_right ?_
  rintro ⟨q, m, hq⟩
  refine ⟨q, m, ?_⟩
  rw [hnext, setName_of_ne, hq]
  rintro ⟨rfl, rfl⟩
  exact hne hq

theorem tidy_added {p child : ℕ} {n : Name} {attr : DBFileAttr} (h : db.Tidy)
    (hadd : db.Added p n attr child db') (hn : ¬ IsDots n) (hp : db.LinkedDir p) : db'.Tidy := by
  have htree := h.tree.added hadd hn hp
  refine ⟨htree, fun k e he => ⟨htree.held k e he, ?_⟩⟩
  have hnext := next_added hadd hn
  have hlinked : ∀ {d}, db.LinkedDir d → d = 1 ∨ ∃ q m, db'.next q m = some d := fun hd =>
    hd.of_setName hnext (by simp [next_eq_none_of_free hadd.free])
  have hchild : child = 1 ∨ ∃ q m, db'.next q m = some child :=
    Or.inr ⟨p, n, by rw [hnext, setName_self]⟩
  rw [hadd.dentry] at he
  split_ifs at he
  · exact Option.some.inj he ▸ hchild
  · exact Option.some.inj he ▸ hchild
  · exact Option.some.inj he ▸ hlinked hp
  · exact hlinked (h.tidy k e he)

theorem tidy_linked {i p : ℕ} {n : Name} {attr : DBFileAttr} (h : db.Tidy)
    (hlink : db.Linked i p n attr db') (hn : ¬ IsDots n) (hp : db.LinkedDir p) : db'.Tidy := by
  have htree := h.tree.linked hlink hn hp
  refine ⟨htree, fun k e he => ⟨htree.held k e he, ?_⟩⟩
  have hlinked : ∀ {d}, db.LinkedDir d → d = 1 ∨ ∃ q m, db'.next q m = some d := fun hd =>
    hd.of_setName (next_linked hlink hn) (by simp [next_eq_none_of_free hlink.free])
  rw [hlink.dentry] at he
  split_ifs at he
  · exact Option.some.inj he ▸ hlinked hp
  · exact hlinked (h.tidy k e he)

theorem tidy_unlinked {p child : ℕ} {n : Name} (h : db.Tidy) (hun : db.Unlinked p n child db')
    (hn : ¬ IsDots n) (hleaf : ∀ m, db.next child m = none) : db'.Tidy := by
  have htree := h.tree.unlinked hun hn hleaf
  refine ⟨htree, fun k e he => ⟨htree.held k e he, ?_⟩⟩
  rw [hun.dentry] at he
  split_ifs at he
  obtain ⟨he, hne⟩ := Option.filter_eq_some_iff.1 he
  simp only [ne_eq, decide_not, Bool.not_eq_true', decide_eq_false_iff_not] at hne
  refine (h.tidy k e he).of_setName (next_unlinked hun hn hleaf) fun hq => hne ?_
  exact Option.some.inj (hq.symm.trans (hun.next_eq hn))

theorem tidy_moved {p p' : ℕ} {n n' : Name} {e : DentryRow} {res : Option ℕ} (h : db.Tidy)
    (hmove : db.Moved p n p' n' e res db') (hn : ¬ IsDots n) (hn' : ¬ IsDots n')
    (hp' : db.LinkedDir p') (hbelow : ¬ db.Below e.childId p') (hne : (p, n) ≠ (p', n'))
    (hdir : ∀ v, db.next p' n' = some v → ¬ db.IsDir v) : db'.Tidy := by
  have htree := h.tree.moved hmove hn hn' hp' hbelow hne
  refine ⟨htree, fun k x hx => ⟨htree.held k x hx, ?_⟩⟩
  have hnext := next_moved hmove hn hn'
  have hmoved : ∃ q m, db'.next q m = some e.childId :=
    ⟨p', n', by rw [hnext, NameTree.moved, setName_self]⟩
  have hlinked : ∀ {d}, db.LinkedDir d → d = 1 ∨ ∃ q m, db'.next q m = some d := by
    rintro d ⟨hd, hd' | ⟨q, m, hq⟩⟩
    · exact Or.inl hd'
    by_cases hqm : q = p ∧ m = n
    · rw [hqm.1, hqm.2, hmove.next_eq hn] at hq
      exact Or.inr (Option.some.inj hq ▸ hmoved)
    · refine Or.inr ⟨q, m, ?_⟩
      rw [hnext, NameTree.moved, setName_of_ne, setName_of_ne hqm, hq]
      rintro ⟨rfl, rfl⟩
      exact hdir d hq hd
  rw [hmove.dentry, movedEntry] at hx
  split_ifs at hx with h₁ h₂ h₃ h₄ h₅
  · obtain ⟨y, hy, rfl⟩ := Option.map_eq_some_iff.1 hx
    exact Option.some.inj hy ▸ hlinked hp'
  · exact absurd hx (by simp)
  · obtain ⟨y, hy, rfl⟩ := Option.map_eq_some_iff.1 hx
    exact hlinked (h.tidy k y hy)
  · exact Option.some.inj hx ▸ hlinked hp'
  · exact hlinked (h.tidy k x hx)

/-- Every entry stays in a linked directory unless a directory is replaced. -/
theorem namesClosed_tidy : NamesClosed (X := X) ReplacesNoDir Tidy where
  tree h := h.tree
  same h hsame := ⟨hsame.tree h.tree, fun k e he => by
    rw [hsame.linkedDir]
    exact h.tidy k e ((hsame.dentry k).symm.trans he)⟩
  purged h hpurged := by
    have htree := h.tree.purged hpurged
    refine ⟨htree, fun k e he => ⟨htree.held k e he, ?_⟩⟩
    rw [h.tree.next_purged hpurged]
    exact (h.tidy k e ((hpurged.dentry k e).1 he).1).2
  added := tidy_added
  linked := tidy_linked
  unlinked := tidy_unlinked
  moved h hmove hn hn' hp' hbelow hne hM :=
    tidy_moved h hmove hn hn' hp' hbelow hne (hM (hmove.canMove hne))

theorem OnlyRoot.tidy {now : Now} (h : db.OnlyRoot now) : db.Tidy := by
  refine ⟨h.tree, fun k e he => ?_⟩
  have hroot := h.tree.root_linked
  rw [h.dentry] at he
  split_ifs at he
  exact Option.some.inj he ▸ hroot

/-! ### Counting -/

/-- The link count that an inode should have: for a directory, its name, its own entry `.` and the
entries `..` of the directories in it; for anything else, its names. -/
def linkCount (db : Db X) (i : ℕ) : ℕ :=
  if db.IsDir i then
    2 + db.dentry.rows.countP fun e => ¬ IsDots e.name ∧ e.parentId = i ∧ db.IsDir e.childId
  else db.dentry.rows.countP fun e => ¬ IsDots e.name ∧ e.childId = i

/-- The entries that satisfy `q`. -/
def entries (db : Db X) (q : DentryRow → Prop) [DecidablePred q] : Finset DentryRow :=
  db.dentry.rows.toFinset.filter q

variable {q : DentryRow → Prop} [DecidablePred q]

theorem countP_rows (db : Db X) (q : DentryRow → Prop) [DecidablePred q] :
    db.dentry.rows.countP (fun e => q e) = (db.entries q).card := by
  have hnodup : db.dentry.rows.Nodup := List.Nodup.of_map _ db.dentry.nodup_keys
  have heq : db.entries q = (db.dentry.rows.filter fun e => q e).toFinset := by
    ext e
    simp [entries]
  rw [heq, List.toFinset_card_of_nodup (hnodup.filter _), List.countP_eq_length_filter]

theorem mem_entries {e : DentryRow} :
    e ∈ db.entries q ↔ db.dentry.find (e.parentId, e.name) = some e ∧ q e := by
  rw [entries, Finset.mem_filter, List.mem_toFinset]
  exact and_congr_left fun _ => ⟨fun he => db.dentry.find_key he, AuditedTable.mem_of_find⟩

theorem card_entries_split (db : Db X) (q r : DentryRow → Prop) [DecidablePred q]
    [DecidablePred r] : (db.entries q).card =
      (db.entries fun e => q e ∧ r e).card + (db.entries fun e => q e ∧ ¬ r e).card := by
  rw [← Finset.card_filter_add_card_filter_not r, entries, Finset.filter_filter,
    Finset.filter_filter]
  rfl

namespace Tree

variable (h : db.Tree)

include h

/-- A linked directory holds its own entry. -/
theorem find_dot {d : ℕ} (hd : db.LinkedDir d) :
    db.dentry.find (d, dot) = some ⟨d, d, .Directory, dot⟩ := by
  rcases hd.2 with rfl | ⟨q, m, hq⟩
  · exact h.root.dot
  · exact h.own_dot q m d hq hd.1

end Tree

namespace Tidy

variable (h : db.Tidy) {i : ℕ}

include h

/-- Entries `.` and `..` name directories. -/
theorem not_dots_of_not_isDir (hi : ¬ db.IsDir i) {e : DentryRow}
    (he : db.dentry.find (e.parentId, e.name) = some e) (hc : e.childId = i) : ¬ IsDots e.name := by
  have hd := h.tidy _ e he
  rintro (hn | hn)
  · rcases hd.2 with hp | ⟨q, m, hq⟩
    · rw [hn, hp, h.tree.root.dotdot] at he
      obtain rfl := Option.some.inj he
      exact hi (hc ▸ h.tree.root_isDir)
    · rw [hn, h.tree.own_dotdot q m _ hq hd.1] at he
      have := congrArg DentryRow.childId (Option.some.inj he)
      exact hi (hc ▸ this ▸ h.tree.names.holder hq)
  · rw [hn, h.tree.find_dot hd] at he
    have := congrArg DentryRow.childId (Option.some.inj he)
    exact hi (hc ▸ this ▸ hd.1)

/-- One entry `.` names a linked directory. -/
theorem card_dot (hi : db.LinkedDir i) :
    (db.entries fun e => e.childId = i ∧ e.name = dot).card = 1 := by
  rw [Finset.card_eq_one]
  refine ⟨⟨i, i, .Directory, dot⟩, Finset.ext fun e => ?_⟩
  rw [mem_entries, Finset.mem_singleton]
  constructor
  · rintro ⟨he, hc, hn⟩
    rw [hn, h.tree.find_dot (h.tidy _ e he)] at he
    have hp := congrArg DentryRow.childId (Option.some.inj he)
    rw [← Option.some.inj he]
    simp only [hc] at hp
    simp only [hp]
  · rintro rfl
    exact ⟨h.tree.find_dot hi, rfl, rfl⟩

/-- The directories that have their name in `i` are those whose entry `..` names it, except for the
root. -/
theorem card_dotdot (i : ℕ) :
    (db.entries fun e => (e.childId = i ∧ e.name = dotdot) ∧ e.parentId ≠ 1).card =
      (db.entries fun e => ¬ IsDots e.name ∧ e.parentId = i ∧ db.IsDir e.childId).card := by
  symm
  refine Finset.card_nbij (fun e => ⟨e.childId, i, .Directory, dotdot⟩) ?_ ?_ ?_
  · intro e he
    obtain ⟨he, hn, hp, hdir⟩ := mem_entries.1 he
    have hname := next_eq_some_iff.2 ⟨hn, e, he, rfl⟩
    refine mem_entries.2 ⟨?_, ⟨rfl, rfl⟩, h.tree.names.ne_root hname⟩
    rw [← hp]
    exact h.tree.own_dotdot _ _ _ hname hdir
  · intro e he e' he' heq
    obtain ⟨he, hn, -, hdir⟩ := mem_entries.1 he
    obtain ⟨he', hn', -, -⟩ := mem_entries.1 he'
    have hc : e.childId = e'.childId := congrArg DentryRow.parentId heq
    obtain ⟨hp, hname⟩ := h.tree.names.unique (next_eq_some_iff.2 ⟨hn, e, he, rfl⟩)
      (next_eq_some_iff.2 ⟨hn', e', he', hc.symm⟩) hdir
    rw [hp, hname, he'] at he
    exact (Option.some.inj he).symm
  · intro x hx
    obtain ⟨hx, ⟨hc, hn⟩, hp⟩ := mem_entries.1 hx
    have hd := h.tidy _ x hx
    obtain ⟨q, m, hq⟩ := hd.2.resolve_left hp
    obtain ⟨hm, e, he, hchild⟩ := next_eq_some_iff.1 hq
    obtain ⟨hep, hem⟩ := key_of_entry he
    rw [hn, h.tree.own_dotdot q m _ hq hd.1] at hx
    have hx := Option.some.inj hx
    have hqi : q = i := (congrArg DentryRow.childId hx).trans hc
    refine ⟨e, mem_entries.2 ⟨by rw [hep, hem, he], by rwa [hem], by rw [hep, hqi], ?_⟩, ?_⟩
    · rw [hchild]
      exact hd.1
    · simp only [hchild, ← hqi]
      exact hx

/-- A directory has one name, and the root has its entry `..` instead. -/
theorem card_name (hdir : db.IsDir i) (hi : i = 1 ∨ ∃ p n, db.next p n = some i) :
    (db.entries fun e => ¬ IsDots e.name ∧ e.childId = i).card +
      (db.entries fun e => (e.childId = i ∧ e.name = dotdot) ∧ e.parentId = 1).card = 1 := by
  have hempty : ∀ {q : DentryRow → Prop} [DecidablePred q],
      (∀ e, db.dentry.find (e.parentId, e.name) = some e → ¬ q e) → (db.entries q).card = 0 := by
    intro q _ hq
    rw [Finset.card_eq_zero, Finset.eq_empty_iff_forall_notMem]
    exact fun e he => hq e (mem_entries.1 he).1 (mem_entries.1 he).2
  have hroot : ∀ {e : DentryRow}, db.dentry.find (e.parentId, e.name) = some e →
      e.name = dotdot → e.parentId = 1 → e = ⟨1, 1, .Directory, dotdot⟩ := by
    intro e he hn hp
    rw [hn, hp, h.tree.root.dotdot] at he
    exact (Option.some.inj he).symm
  rcases hi with rfl | ⟨p, n, hn⟩
  · rw [hempty fun e he hq => h.tree.names.ne_root (next_eq_some_iff.2 ⟨hq.1, e, he, hq.2⟩) rfl,
      zero_add, Finset.card_eq_one]
    refine ⟨⟨1, 1, .Directory, dotdot⟩, Finset.ext fun e => ?_⟩
    rw [mem_entries, Finset.mem_singleton]
    constructor
    · rintro ⟨he, ⟨-, hn⟩, hp⟩
      exact hroot he hn hp
    · rintro rfl
      exact ⟨h.tree.root.dotdot, ⟨rfl, rfl⟩, rfl⟩
  · obtain ⟨hdots, x, hx, hxc⟩ := next_eq_some_iff.1 hn
    obtain ⟨hxp, hxn⟩ := key_of_entry hx
    have hone : (db.entries fun e => ¬ IsDots e.name ∧ e.childId = i).card = 1 := by
      rw [Finset.card_eq_one]
      refine ⟨x, Finset.ext fun e => ?_⟩
      rw [mem_entries, Finset.mem_singleton]
      constructor
      · rintro ⟨he, hen, hec⟩
        obtain ⟨hp, hname⟩ := h.tree.names.unique (next_eq_some_iff.2 ⟨hen, e, he, hec⟩) hn hdir
        rw [hp, hname, hx] at he
        exact (Option.some.inj he).symm
      · rintro rfl
        exact ⟨by rw [hxp, hxn, hx], by rwa [hxn], hxc⟩
    rw [hone, hempty fun e he hq => ?_]
    have hchild := congrArg DentryRow.childId (hroot he hq.1.2 hq.2)
    exact h.tree.names.ne_root hn (hq.1.1.symm.trans hchild)

/-- **The number of entries that name an inode** that has a name or is the root. -/
theorem count (hi : i = 1 ∨ ∃ p n, db.next p n = some i) :
    db.dentry.rows.countP (fun e => e.childId = i) = db.linkCount i := by
  rw [linkCount, db.countP_rows]
  split_ifs with hdir
  · have hdd : (db.entries fun e => (e.childId = i ∧ ¬ e.name = dot) ∧ e.name = dotdot) =
        db.entries fun e => e.childId = i ∧ e.name = dotdot := by
      refine Finset.filter_congr fun e _ => ⟨fun hq => ⟨hq.1.1, hq.2⟩, fun hq => ⟨⟨hq.1, ?_⟩, hq.2⟩⟩
      rw [hq.2]
      decide
    have hnames : (db.entries fun e => (e.childId = i ∧ ¬ e.name = dot) ∧ ¬ e.name = dotdot) =
        db.entries fun e => ¬ IsDots e.name ∧ e.childId = i := by
      refine Finset.filter_congr fun e _ => ?_
      unfold IsDots
      tauto
    rw [db.countP_rows, db.card_entries_split _ fun e => e.name = dot, h.card_dot ⟨hdir, hi⟩,
      db.card_entries_split _ fun e => e.name = dotdot, hdd, hnames,
      db.card_entries_split (fun e => e.childId = i ∧ e.name = dotdot) fun e => e.parentId = 1,
      h.card_dotdot i]
    have hname := h.card_name hdir hi
    omega
  · rw [db.countP_rows]
    refine congrArg _ (Finset.ext fun e => ?_)
    rw [mem_entries, mem_entries]
    exact and_congr_right fun he =>
      ⟨fun hc => ⟨h.not_dots_of_not_isDir hdir he hc, hc⟩, And.right⟩

end Tidy

/-! ### What `getInode` and `lookup` say -/

/-- The link counts that `getInode` and `lookup` return for inodes that have a name, and for the
root, are those that the inodes should have. -/
def LinkCountsRight (db : Db X) : Prop :=
  ∀ i, i = 1 ∨ (∃ p n, db.next p n = some i) → ∀ (self : Sqlite) (a : DBFileAttr), a.ino = i →
    ((self.getInode i db).2 = .ok (some a) ∨
      ∃ now p n, (self.lookup now p n db).2 = .ok (some a)) → a.nlink = db.linkCount i

end Db

theorem MetadataRow.nlink_of_attr {m : MetadataRow} {n : Option ℕ} {blocks : ℕ} {a : DBFileAttr}
    (h : m.attr n blocks = some a) : n = some a.nlink := by
  unfold MetadataRow.attr stringToSystemtime at h
  simp only [Option.bind_eq_bind, Option.bind_eq_some_iff] at h
  obtain ⟨_, -, _, -, _, -, _, -, n', hn, h⟩ := h
  obtain rfl := Option.some.inj h
  exact hn

namespace Db

variable {db : Db X}

theorem nlink_of_inodeAttr {i : ℕ} {a : DBFileAttr} (h : inodeAttr i db = .ok (some a)) :
    a.nlink = db.dentry.rows.countP fun e => e.childId = i := by
  obtain ⟨m, -, hattr⟩ := inodeAttr_eq_ok_some h
  exact nlink_eq_some (MetadataRow.nlink_of_attr hattr)

theorem nlink_of_lookupAttr {p : ℕ} {n : Name} {a : DBFileAttr}
    (h : Sqlite.lookupAttr p n db = .ok (some a)) :
    a.nlink = db.dentry.rows.countP fun e => e.childId = a.ino := by
  obtain ⟨m, -, hattr⟩ := List.mem_map.1 (parseAttr_eq_ok_some h)
  rw [(MetadataRow.attr_eq_some hattr).2.1]
  exact nlink_eq_some (MetadataRow.nlink_of_attr hattr)

theorem Tidy.linkCountsRight (h : db.Tidy) : db.LinkCountsRight := by
  rintro i hi self a rfl hfound
  rw [← h.count hi]
  rcases hfound with hfound | ⟨now, p, n, hfound⟩
  · exact nlink_of_inodeAttr ((self.getInode_snd db _).symm.trans hfound)
  · exact nlink_of_lookupAttr ((self.lookup_snd now db p n).symm.trans hfound)

end Db

/-- **Link counts are right** in every state that is reached without a rename over a directory.
Those that `getInode` and `lookup` say of the root and of every inode with a name are
`Db.linkCount`, which counts the names of a file and the subdirectories of a directory. -/
theorem SqliteFs.link_counts_right {s : SqliteFs X} (h : s.Reachable Db.ReplacesNoDir) :
    s.conn.LinkCountsRight :=
  (h.names Db.namesClosed_tidy fun _ _ => Db.OnlyRoot.tidy).2.linkCountsRight

/-- Two directories are made. -/
def twoDirectories : List (Env × Request) :=
  [(.sample, .mkdir 1 [97] 0), (.sample, .mkdir 1 [98] 0)]

/-- The second directory is renamed over the first. -/
def directoryReplaced : List (Env × Request) := twoDirectories ++ [(.sample, .rename 1 [98] 1 [97])]

theorem promised_twoDirectories : SqliteFs.sample.Promised twoDirectories :=
  ⟨⟨by decide, by decide, Or.inl rfl⟩, ⟨by decide, by decide, Or.inl rfl⟩, trivial⟩

/-- The root of two directories. -/
theorem SqliteFs.link_counts_right_sample : (sample.run twoDirectories).conn.LinkCountsRight := by
  refine link_counts_right ((reachable_sample _).run promised_twoDirectories ⟨?_, ?_, trivial⟩)
  · rintro p n p' n' ⟨⟩
  · rintro p n p' n' ⟨⟩

/-- After a rename over an empty directory the root has a link too many. -/
theorem replaced_directory_is_counted : SqliteFs.sample.Promised directoryReplaced ∧
    ¬ (SqliteFs.sample.run directoryReplaced).conn.LinkCountsRight := by
  have htree := (((SqliteFs.reachable_sample fun _ _ _ _ _ => True).run promised_twoDirectories
    ⟨fun _ _ _ _ _ _ => trivial, fun _ _ _ _ _ _ => trivial, trivial⟩).names
      Db.namesClosed_tree fun _ _ => Db.OnlyRoot.tree).2
  constructor
  · refine ⟨promised_twoDirectories.1, promised_twoDirectories.2.1,
      ⟨by decide, by decide, ⟨by decide, Or.inl rfl⟩, fun i hi => ?_⟩, trivial⟩
    obtain rfl : i = 3 := (Option.some.inj hi).symm
    exact ⟨fun _ => htree.not_below_root (by decide), by decide⟩
  · intro h
    have hroot :
      ∃ a, (Sqlite.new.getInode 1 (SqliteFs.sample.run directoryReplaced).conn).2 = .ok (some a) ∧
      a.ino = 1 ∧ a.nlink = 4 := ⟨_, rfl, by decide, by decide⟩
    obtain ⟨a, ha, hino, hlink⟩ := hroot
    have hcount := h 1 (Or.inl rfl) .new a hino (Or.inl ha)
    rw [hlink] at hcount
    exact absurd hcount (by decide)

end TemporalFs
