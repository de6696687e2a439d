import Mathlib
import TemporalFs.Db.CollectOrder
import TemporalFs.Fs.LookupCount
import TemporalFs.Tree.LinkCounts

/-!
# Inodes without an entry

An inode that loses its last entry stays as long as the kernel counts it, and is deleted when the
request that took the entry ends, or when the kernel forgets it. What a crash or a failed deletion
leaves behind, the `init` of the next mount deletes. All of them ask whether any entry names the
inode. The directory that a rename has replaced still names itself, so it is never deleted.

## Main definitions

* `Db.FromRoot`: the inode can be reached from the root.
* `SqliteFs.NothingLost`: every inode can be reached or is counted.
* `SqliteFs.Serving`: the states of mounts that are served as the kernel promises.

## Main results

* `SqliteFs.Effect.accounted`: a request leaves no inode without an entry that is not counted.
* `SqliteFs.Serving.unnamedEmpty`: what `destroy` deletes does not depend on the order.
* `SqliteFs.nothing_lost_in_service`: nothing is lost where renames replace no directory.
-/

namespace TemporalFs

variable {X : Externals}

namespace Db

variable {db db' : Db X} {i : ℕ}

/-- The inode can be reached from the root along the entries. -/
def FromRoot (db : Db X) : ℕ → Prop :=
  Relation.ReflTransGen (fun d x => ∃ e ∈ db.dentry.rows, e.parentId = d ∧ e.childId = x) 1

/-- What has an entry in a tidy tree can be reached from the root. -/
theorem Tidy.fromRoot (h : db.Tidy) (hi : ¬ db.Unnamed i) : db.FromRoot i := by
  unfold Unnamed at hi
  push Not at hi
  obtain ⟨k, e, he, rfl⟩ := hi
  obtain ⟨P, hP⟩ := h.tree.exists_path (h.tidy k e he)
  have hparent : db.FromRoot e.parentId := by
    refine reflTransGen_of_walk (fun {d n x} hx => ?_) hP
    obtain ⟨-, x', hx', rfl⟩ := next_eq_some_iff.1 hx
    exact ⟨x', AuditedTable.mem_of_find hx', (key_of_entry hx').1, rfl⟩
  exact hparent.tail ⟨e, AuditedTable.mem_of_find he, rfl, rfl⟩

/-- From the root only the root itself and inodes with a name are reached, as the entries `.` and
`..` on the way lead to the directory itself and to the one that holds its name. -/
theorem Tree.root_or_named_of_fromRoot (h : db.Tree) (hi : db.FromRoot i) :
    i = 1 ∨ ∃ p n, db.next p n = some i := by
  induction hi with
  | refl => exact Or.inl rfl
  | tail _ hstep ih =>
    obtain ⟨e, he, rfl, rfl⟩ := hstep
    have hfind : db.dentry.find (e.parentId, e.name) = some e := db.dentry.find_key he
    by_cases hdots : IsDots e.name
    · rcases ih with hroot | ⟨q, m, hq⟩
      · have hone : e.childId = 1 := by
          rcases hdots with hn | hn
          · rw [hn, hroot, h.root.dotdot] at hfind
            exact congrArg DentryRow.childId (Option.some.inj hfind).symm
          · rw [hn, hroot, h.root.dot] at hfind
            exact congrArg DentryRow.childId (Option.some.inj hfind).symm
        exact Or.inl hone
      · have hdir := h.held _ e hfind
        rcases hdots with hn | hn
        · rw [hn, h.own_dotdot q m _ hq hdir] at hfind
          obtain rfl : q = e.childId := congrArg DentryRow.childId (Option.some.inj hfind)
          exact (h.linked_of_next hq).2
        · rw [hn, h.own_dot q m _ hq hdir] at hfind
          have hself : e.parentId = e.childId :=
            congrArg DentryRow.childId (Option.some.inj hfind)
          exact Or.inr ⟨q, m, hself ▸ hq⟩
    · exact Or.inr ⟨e.parentId, e.name, next_eq_some_iff.2 ⟨hdots, e, hfind, rfl⟩⟩

/-- Entries are held by the directories of the tree, which have entries. -/
theorem Tidy.unnamedEmpty (h : db.Tidy) : db.UnnamedEmpty := by
  intro e he hnone
  have hun := (db.nlink_eq_none_iff_unnamed _).1 hnone
  rcases (h.tidy _ e (db.dentry.find_key he)).2 with hroot | ⟨p, n, hnext⟩
  · exact hun _ _ h.tree.root.dot hroot.symm
  · obtain ⟨-, x, hx, hchild⟩ := next_eq_some_iff.1 hnext
    exact hun _ x hx hchild

/-! ### Which inodes lose their last entry -/

theorem not_unnamed {k : ℕ × Name} {e : DentryRow} (he : db.dentry.find k = some e) :
    ¬ db.Unnamed e.childId := fun h => h k e he rfl

/-- An inode keeps an entry if each of its entries is kept. -/
theorem Unnamed.mono (h : db'.Unnamed i) (hkept : ∀ k e, db.dentry.find k = some e →
    e.childId = i → ∃ k' e', db'.dentry.find k' = some e' ∧ e'.childId = i) : db.Unnamed i := by
  intro k e he hi
  obtain ⟨k', e', he', hi'⟩ := hkept k e he hi
  exact h k' e' he' hi'

theorem SameNames.unnamed (h : db.SameNames db') (hi : db'.Unnamed i) : db.Unnamed i :=
  hi.mono fun k e he hc => ⟨k, e, (h.dentry k).trans he, hc⟩

theorem Tidy.unnamed_of_purged {L : ℕ → Prop} (h : db.Tidy) (hp : db.Purged L db')
    (hi : db'.Unnamed i) : db.Unnamed i :=
  hi.mono fun k e he hc => ⟨k, e, (hp.dentry k e).2 ⟨he, h.tree.not_purged hp (h.tidy k e he)⟩, hc⟩

theorem Purged.isSome {L : ℕ → Prop} (hp : db.Purged L db') (hi : (db'.kindOf i).isSome) :
    ¬ L i ∧ (db.kindOf i).isSome := by
  by_cases hL : L i
  · simp [hp.gone i hL] at hi
  · exact ⟨hL, by rwa [hp.kindOf i hL] at hi⟩

theorem Added.unnamed {p child : ℕ} {n : Name} {attr : DBFileAttr}
    (hadd : db.Added p n attr child db') (hn : ¬ IsDots n) (hi : db'.Unnamed i) :
    i ≠ child ∧ db.Unnamed i := by
  have hdot : ¬ (p, n) = (child, dot) := fun h => hn (Or.inr (Prod.mk.inj h).2)
  have hdotdot : ¬ (p, n) = (child, dotdot) := fun h => hn (Or.inl (Prod.mk.inj h).2)
  constructor
  · rintro rfl
    refine hi (p, n) ⟨p, i, attr.kind, n⟩ ?_ rfl
    rw [hadd.dentry, if_neg fun h => hdot h.2, if_neg fun h => hdotdot h.2, if_pos rfl]
  · refine hi.mono fun k e he hc => ⟨k, e, ?_, hc⟩
    have hk : ∀ {m}, k ≠ (child, m) := by
      rintro m rfl
      exact (entry_ne_of_kindOf (kindOf_fresh hadd) he).1 (key_of_entry he).1
    rw [hadd.dentry, if_neg fun h => hk h.2, if_neg fun h => hk h.2, if_neg, he]
    rintro rfl
    exact absurd (hadd.free.symm.trans he) (by simp)

theorem Linked.unnamed {j p : ℕ} {n : Name} {attr : DBFileAttr} (hlink : db.Linked j p n attr db')
    (hi : db'.Unnamed i) : db.Unnamed i := by
  refine hi.mono fun k e he hc => ⟨k, e, ?_, hc⟩
  rw [hlink.dentry, if_neg, he]
  rintro rfl
  exact absurd (hlink.free.symm.trans he) (by simp)

/-- The entry `n` of `p` names `i`, and no other does but those in `i` itself. -/
def OnlyEntry (db : Db X) (p : ℕ) (n : Name) (i : ℕ) : Prop :=
  (∃ e, db.dentry.find (p, n) = some e ∧ e.childId = i) ∧
    ∀ k e, db.dentry.find k = some e → e.childId = i → k = (p, n) ∨ e.parentId = i

theorem Unlinked.find {p child : ℕ} {n : Name} (hun : db.Unlinked p n child db') {k : ℕ × Name}
    {e : DentryRow} (he : db.dentry.find k = some e) (hk : k ≠ (p, n)) (hp : e.parentId ≠ child) :
    db'.dentry.find k = some e := by
  rw [hun.dentry, if_neg fun h => hk h.1, he, Option.filter_some, if_pos (by simpa using hp)]

/-- Only the inode behind the removed entry can lose its last one. -/
theorem Unlinked.unnamed {p child : ℕ} {n : Name} (h : db.Tidy) (hun : db.Unlinked p n child db')
    (hn : ¬ IsDots n) (hleaf : ∀ m, db.next child m = none) (hi : db'.Unnamed i) :
    i = child ∨ db.Unnamed i := by
  by_cases hchild : i = child
  · exact Or.inl hchild
  refine Or.inr (hi.mono fun k e he hc => ?_)
  obtain ⟨x, hx, hxc⟩ := hun.found
  have hk : k ≠ (p, n) := by
    rintro rfl
    exact hchild (hc.symm.trans (Option.some.inj (he.symm.trans hx) ▸ hxc))
  by_cases hp : e.parentId = child
  · -- the child's own entry names the child or the directory `p`, which has its own entry
    have hname := hun.next_eq hn
    have hd : db.LinkedDir child := hp ▸ h.tidy k e he
    have hkey : (e.parentId, e.name) = k := AuditedTable.key_of_find he
    rw [hp] at hkey
    rw [← hkey] at he
    have hdots : IsDots e.name := by
      by_contra hdots
      have hname' := next_eq_some_iff.2 ⟨hdots, e, he, rfl⟩
      simp [hleaf] at hname'
    rcases hdots with hdot | hdot
    · rw [hdot, h.tree.own_dotdot p n child hname hd.1] at he
      obtain rfl : p = i := (congrArg DentryRow.childId (Option.some.inj he)).trans hc
      have hpd := h.tree.find_dot (h.tree.linked_of_next hname)
      refine ⟨(p, dot), _, hun.find hpd ?_ ?_, rfl⟩
      · rintro ⟨⟩
        exact hn (Or.inr rfl)
      · rintro rfl
        simp [hleaf] at hname
    · rw [hdot, h.tree.find_dot hd] at he
      exact absurd ((congrArg DentryRow.childId (Option.some.inj he)).trans hc).symm hchild
  · exact ⟨k, e, hun.find he hk hp, hc⟩

theorem Unlinked.onlyEntry {p child : ℕ} {n : Name} (hun : db.Unlinked p n child db')
    (hi : db'.Unnamed child) : db.OnlyEntry p n child := by
  refine ⟨hun.found, fun k e he hc => ?_⟩
  by_contra hk
  push Not at hk
  exact hi k e (hun.find he hk.1 hk.2) hc

/-- A move leaves the entries that directories have of themselves. -/
theorem Moved.find_dot {p p' : ℕ} {n n' : Name} {e : DentryRow} {res : Option ℕ}
    (hmove : db.Moved p n p' n' e res db') (hn : ¬ IsDots n) (hn' : ¬ IsDots n') (d : ℕ) :
    db'.dentry.find (d, dot) = db.dentry.find (d, dot) := by
  have hdot : ∀ {m q}, ¬ IsDots m → ((d, dot) : ℕ × Name) ≠ (q, m) := by
    rintro m q hm ⟨⟩
    exact hm (Or.inr rfl)
  rw [hmove.dentry, if_neg, movedEntry, if_neg (hdot hn'), if_neg (hdot hn)]
  exact fun hcon => absurd (Prod.mk.inj hcon.2.2).2 (by decide)

/-- Only the inode that the moved entry replaces can lose its last one. -/
theorem Moved.unnamed {p p' : ℕ} {n n' : Name} {e : DentryRow} {res : Option ℕ} (h : db.Tidy)
    (hmove : db.Moved p n p' n' e res db') (hn : ¬ IsDots n) (hn' : ¬ IsDots n')
    (hi : db'.Unnamed i) : (∃ v, db.dentry.find (p', n') = some v ∧ v.childId = i) ∨
      db.Unnamed i := by
  by_cases hvictim : ∃ v, db.dentry.find (p', n') = some v ∧ v.childId = i
  · exact Or.inl hvictim
  refine Or.inr (hi.mono fun k x hx hc => ?_)
  have hk' : k ≠ (p', n') := fun hk => hvictim ⟨x, hk ▸ hx, hc⟩
  by_cases hk : k = (p, n)
  · -- the moved entry itself
    obtain rfl : e = x := Option.some.inj (hmove.source.symm.trans (hk ▸ hx))
    refine ⟨(p', n'), { e with parentId := p', name := n' }, ?_, hc⟩
    rw [hmove.dentry, if_neg, movedEntry, if_pos rfl]
    exact fun hcon => hn' (Or.inl (Prod.mk.inj hcon.2.2).2)
  have hkept : db.movedEntry p n p' n' e k = some x := by
    rw [movedEntry, if_neg hk', if_neg hk, hx]
  by_cases hown : p ≠ p' ∧ e.fileType = .Directory ∧ k = (e.childId, dotdot)
  · -- the old directory of a moved directory has its own entry
    have hname := hmove.next_eq hn
    have hdir : db.IsDir e.childId := (h.tree.isDir_iff hmove.source).2 hown.2.1
    rw [hown.2.2, h.tree.own_dotdot p n _ hname hdir] at hx
    obtain rfl : p = i := (congrArg DentryRow.childId (Option.some.inj hx)).trans hc
    refine ⟨(p, dot), ⟨p, p, .Directory, dot⟩, ?_, rfl⟩
    rw [hmove.find_dot hn hn', h.tree.find_dot (h.tree.linked_of_next hname)]
  · exact ⟨k, x, by rw [hmove.dentry, if_neg hown, hkept], hc⟩

/-- The replaced inode had no other entry if it has none left. -/
theorem Moved.onlyEntry {p p' : ℕ} {n n' : Name} {e v : DentryRow} {res : Option ℕ} (h : db.Tidy)
    (hmove : db.Moved p n p' n' e res db') (hne : v.childId ≠ e.childId)
    (hv : db.dentry.find (p', n') = some v) (hdir : ¬ db.IsDir v.childId)
    (hi : db'.Unnamed v.childId) : db.OnlyEntry p' n' v.childId := by
  refine ⟨⟨v, hv, rfl⟩, fun k x hx hc => Or.inl ?_⟩
  by_contra hk'
  have hk : k ≠ (p, n) := by
    rintro rfl
    exact hne (hc.symm.trans (congrArg DentryRow.childId
      (Option.some.inj (hx.symm.trans hmove.source))))
  have hkept : db.movedEntry p n p' n' e k = some x := by
    rw [movedEntry, if_neg hk', if_neg hk, hx]
  refine hi k x ?_ hc
  rw [hmove.dentry, if_neg, hkept]
  rintro ⟨-, -, rfl⟩
  have hdots := h.not_dots_of_not_isDir hdir (by
    rw [(key_of_entry hx).1, (key_of_entry hx).2]; exact hx) hc
  exact hdots (Or.inl (key_of_entry hx).2)

end Db

namespace SqliteFs

variable {env : Env} {s s' : SqliteFs X} {r : Request} {out : Outcome}
  {t : List (Request × Outcome)}

/-- Every inode without an entry is counted. -/
def Accounted (s : SqliteFs X) : Prop :=
  ∀ i, (s.conn.kindOf i).isSome → s.conn.Unnamed i → i ∈ s.lookupCount

/-- The request takes from the inode `i` its only entry and nobody has looked it up, or the inode
has no entry and the kernel gives back the last count of it. -/
def TakesLast (s : SqliteFs X) : Request → ℕ → Prop
  | .unlink parent name, i => i ∉ s.lookupCount ∧ s.conn.OnlyEntry (asU32 parent) name i
  | .rmdir parent name, i => i ∉ s.lookupCount ∧ s.conn.OnlyEntry (asU32 parent) name i
  | .rename _ _ newparent newname, i =>
    i ∉ s.lookupCount ∧ s.conn.OnlyEntry (asU32 newparent) newname i
  | .forget ino nlookup, i =>
    i = asU32 ino ∧ s.conn.Unnamed i ∧ (s.lookupCount.lookup i).getD 0 ≤ nlookup
  | _, _ => False

/-- The deletion of an inode that the request leaves without an entry does not fail. -/
def DeletesLast (env : Env) (s : SqliteFs X) (r : Request) : Prop :=
  ∀ i, s.TakesLast r i → env.fails (.deleteInodeIfNoref i) = false

/-- The inodes without an entry in `db`, other than `res`, are counted. -/
theorem Finishes.accounted {db : Db X} {res : Option ℕ} (h : s.Finishes env db res s' out)
    (hdb : db.Tidy) (hrest : ∀ i, (db.kindOf i).isSome → db.Unnamed i →
      res = some i ∨ i ∈ s.lookupCount)
    (hfail : ∀ i, res = some i → i ∉ s.lookupCount →
      env.fails (.deleteInodeIfNoref i) = true → ¬ db.Unnamed i) : s'.Accounted := by
  intro i hrow hun
  cases res with
  | none =>
    obtain ⟨rfl, -⟩ := h
    exact (hrest i hrow hun).resolve_left (by simp)
  | some j =>
    rcases h with ⟨-, rfl⟩ | ⟨-, hj, hf, rfl⟩
    · rw [conn_withConn] at hrow hun
      rw [lookupCount_withConn]
      by_cases hj : j ∈ s.lookupCount
      · rw [if_pos hj] at hrow hun
        rcases hrest i hrow hun with heq | hi
        · exact Option.some.inj heq ▸ hj
        · exact hi
      · rw [if_neg hj] at hrow hun
        have hpurged := db.purged_collect j
        have hun' := hdb.unnamed_of_purged hpurged hun
        obtain ⟨hgone, hrow'⟩ := hpurged.isSome hrow
        refine (hrest i hrow' hun').resolve_left fun heq => hgone ?_
        obtain rfl := Option.some.inj heq
        exact ⟨rfl, hun'⟩
    · refine (hrest i hrow hun).resolve_left fun heq => ?_
      obtain rfl := Option.some.inj heq
      exact hfail j rfl hj hf hun

theorem CountedTo.mem {db : Db X} {i j : ℕ} (h : s.CountedTo db i s') (hj : j ∈ s.lookupCount) :
    j ∈ s'.lookupCount := by
  rcases h with rfl | ⟨rfl, -⟩
  · exact (AList.mem_insert _).2 (Or.inr hj)
  · exact hj

theorem Forgotten.accounted {ino nlookup : ℕ} (h : s.Forgotten env ino nlookup s' out)
    (hdb : s.conn.Tidy) (hs : s.Accounted) (hdel : DeletesLast env s (.forget ino nlookup)) :
    s'.Accounted := by
  cases h with
  | ignored => exact hs
  | too_much _ _ hcount hconn =>
    intro i hrow hun
    have hi := hs i (hconn ▸ hrow) (hconn ▸ hun)
    rw [mem_lookupCount_iff, hcount]
    split_ifs
    · rfl
    · exact (mem_lookupCount_iff s i).1 hi
  | counted_down _ hcount hconn =>
    intro i hrow hun
    have hold : (s.conn.kindOf i).isSome ∧ s.conn.Unnamed i ∧
        ¬ (i = asU32 ino ∧ s.forgottenCount (asU32 ino) nlookup = 0) := by
      rw [hconn] at hrow hun
      split_ifs at hrow hun with hzero
      · have hpurged := s.conn.purged_collect (asU32 ino)
        have hun' := hdb.unnamed_of_purged hpurged hun
        obtain ⟨hgone, hrow'⟩ := hpurged.isSome hrow
        exact ⟨hrow', hun', fun hi => hgone ⟨hi.1, hi.1 ▸ hun'⟩⟩
      · refine ⟨hrow, hun, fun hi => hzero ⟨hi.2, hdel _ ⟨rfl, hi.1 ▸ hun, ?_⟩⟩⟩
        have hcount₀ := hi.2
        have hmod := Nat.mod_lt nlookup (show 0 < 2 ^ 32 by decide)
        have hle := Nat.mod_le nlookup (2 ^ 32)
        unfold forgottenCount at hcount₀
        unfold asU32 at *
        dsimp only at hcount₀
        split_ifs at hcount₀ <;> omega
    obtain ⟨hrow, hun, hne⟩ := hold
    have hi := hs i hrow hun
    rw [mem_lookupCount_iff, hcount]
    split_ifs with h₁ h₂
    · exact absurd ⟨h₁, h₂⟩ hne
    · rfl
    · exact (mem_lookupCount_iff s i).1 hi

/-- **A request leaves no inode without an entry that is not counted.** -/
theorem Effect.accounted (h : Effect env s r s' out) (hp : r.Promised s.conn) (hdb : s.conn.Tidy)
    (hM : ∀ p n p' n', r = .rename p n p' n' →
      s.conn.ReplacesNoDir (asU32 p) n (asU32 p') n')
    (hdel : DeletesLast env s r) (hs : s.Accounted) : s'.Accounted := by
  have hsame : ∀ {s' : SqliteFs X}, s.conn.SameNames s'.conn →
      (∀ i, i ∈ s.lookupCount → i ∈ s'.lookupCount) → s'.Accounted := fun hn hcount i hrow hun =>
    hcount i (hs i (hn.kindOf i ▸ hrow) (hn.unnamed hun))
  have hadded : ∀ {kind parent name attr child} {db₁ db₂ : Db X},
      r.makes = some (kind, parent, name) → s.conn.SameUpTo .atimeless db₁ →
        db₁.Added (asU32 parent) name attr child db₂ →
          ∀ i, (db₂.kindOf i).isSome → db₂.Unnamed i → i ∈ s.lookupCount := by
    intro kind parent name attr child db₁ db₂ hr hdb₁ hadd i hrow hun
    have hn := hdb₁.timeless.sameNames
    obtain ⟨hchild, hun'⟩ := hadd.unnamed (promised_of_makes hr hp).1 hun
    rw [Db.kindOf_added hadd, if_neg hchild, hn.kindOf] at hrow
    exact hs i hrow (hn.unnamed hun')
  cases h with
  | quiet h => exact hsame h.conn.timeless.sameNames fun i hi => h.lookupCount ▸ hi
  | looked_up _ hdb₁ _ hs' =>
    exact hsame (hs'.conn_eq ▸ hdb₁.timeless.sameNames) fun i hi => hs'.mem hi
  | made hr hdb₁ hadd hcont hs' =>
    intro i hrow hun
    rw [hs'.conn_eq] at hrow hun
    refine hs'.mem (hadded hr hdb₁ hadd i ?_ ?_)
    · rcases hcont with rfl | ⟨link, -, -, hlink⟩
      · exact hrow
      · rwa [← hlink.sameNames.kindOf]
    · rcases hcont with rfl | ⟨link, -, -, hlink⟩
      · exact hun
      · exact hlink.sameNames.unnamed hun
  | half_made hr hdb₁ hadd hs' =>
    subst hs'
    exact hadded hr hdb₁ hadd
  | linked h hs' =>
    intro i hrow hun
    rw [hs'.conn_eq] at hrow hun
    rw [h.rest.kindOf] at hrow
    exact hs'.mem (hs i hrow (h.unnamed hun))
  | removed hr hdb₁ h hempty hs' =>
    rename_i parent name child db₁ db₂
    have hn := hdb₁.timeless.sameNames
    obtain ⟨hdots, hleaf⟩ := leaf_of_removes hdb.tree hr hp hdb₁ h hempty
    have htidy := Db.namesClosed_tidy.same hdb hn
    refine hs'.accounted (Db.namesClosed_tidy.unlinked htidy h hdots hleaf) (fun i hrow hun => ?_)
      fun i hi hcount hf hun => ?_
    · refine (h.unnamed htidy hdots hleaf hun).imp (congrArg some ·.symm) fun hun' => ?_
      rw [h.rest.kindOf, hn.kindOf] at hrow
      exact hs i hrow (hn.unnamed hun')
    · obtain rfl := Option.some.inj hi
      have honly : s.conn.OnlyEntry (asU32 parent) name child := by
        have := h.onlyEntry hun
        unfold Db.OnlyEntry at this ⊢
        rwa [hdb₁.dentry] at this
      have hlast : s.TakesLast r child := by
        cases r <;> simp only [Request.removes, reduceCtorEq, Option.some.injEq,
          Prod.mk.injEq] at hr
        all_goals
          obtain ⟨rfl, rfl⟩ := hr
          exact ⟨hcount, honly⟩
      simp [hdel child hlast] at hf
  | renamed hne h hs' =>
    rename_i parent newparent name newname e res db
    obtain ⟨hn, hn', hp', hmove⟩ := hp
    have hM' := hM _ _ _ _ rfl
    have hself := hmove _ (h.next_eq hn)
    have hbelow := hdb.tree.not_below hp' hself.1
    refine hs'.accounted (Db.namesClosed_tidy.moved hdb h hn hn' hp' hbelow hne hM')
      (fun i hrow hun => ?_) fun i hi hcount hf hun => ?_
    · rcases h.unnamed hdb hn hn' hun with ⟨v, hv, hvi⟩ | hun'
      · exact Or.inl (by rw [h.res_eq, hv, Option.map_some, hvi])
      · rw [h.rest.kindOf] at hrow
        exact Or.inr (hs i hrow hun')
    · obtain ⟨v, hv, rfl⟩ := Option.map_eq_some_iff.1 (h.res_eq.symm.trans hi)
      have hname := Db.next_eq_some_iff.2 ⟨hn', v, hv, rfl⟩
      have honly := h.onlyEntry hdb (fun heq => hself.2 (heq ▸ hname)) hv
        (hM' (h.canMove hne) _ hname) hun
      simp [hdel _ ⟨hcount, honly⟩] at hf
  | renamed_onto_itself hparent h hs' =>
    obtain ⟨hn, -, -, hmove⟩ := hp
    have hname := Db.next_eq_some_iff.2 ⟨hn, _, h.found, rfl⟩
    exact absurd (hparent ▸ hname) (hmove _ hname).2
  | forgot h => exact h.accounted hdb hs hdel
  | swept _ hs' =>
    intro i hrow hun
    rw [hs', conn_withConn] at hrow hun
    have hpurged := s.conn.purged_deleteAll
    have hun' := hdb.unnamed_of_purged hpurged hun
    obtain ⟨hgone, hrow'⟩ := hpurged.isSome hrow
    exact absurd ((s.conn.mem_unnamed i).2 ⟨Db.kindOf_isSome ▸ hrow', hun'⟩) hgone
  | destroyed _ hs' =>
    have hfold : ∀ (l : List ℕ) (db : Db X), db.Tidy → ∀ i,
        ((l.foldl Db.collect db).kindOf i).isSome → (l.foldl Db.collect db).Unnamed i →
          (db.kindOf i).isSome ∧ db.Unnamed i := by
      intro l
      induction l with
      | nil => exact fun _ _ i hrow hun => ⟨hrow, hun⟩
      | cons j l ih =>
        intro db hdb i hrow hun
        have hpurged := db.purged_collect j
        obtain ⟨hrow', hun'⟩ := ih _ (Db.namesClosed_tidy.purged hdb hpurged) i hrow hun
        exact ⟨(hpurged.isSome hrow').2, hdb.unnamed_of_purged hpurged hun'⟩
    intro i hrow hun
    rw [hs', conn_withConn] at hrow hun
    rw [hs', lookupCount_withConn]
    obtain ⟨hrow', hun'⟩ := hfold _ _ hdb i hrow hun
    exact hs i hrow' hun'
  | wrote h hs' => exact hsame (hs' ▸ Db.sameNames_of_writeSteps h) fun i hi => hs' ▸ hi
  | updated _ _ h hs' => exact hsame (hs' ▸ h.sameNames) fun i hi => hs' ▸ hi
  | xattr_changed _ h hs' => exact hsame (hs' ▸ h.sameNames) fun i hi => hs' ▸ hi

/-! ### Runs of several mounts -/

/-- Every inode can be reached from the root, or the kernel holds it. -/
def NothingLost (s : SqliteFs X) : Prop :=
  ∀ i, (s.conn.metadata.find i).isSome →
    s.conn.FromRoot i ∨ ∃ n, s.lookupCount.lookup i = some n ∧ 0 < n

/-- Every inode can be reached from the root. -/
def AllFromRoot (s : SqliteFs X) : Prop :=
  ∀ i, (s.conn.metadata.find i).isSome → s.conn.FromRoot i

/-- A request that keeps track of the inodes: a rename replaces no directory, and the deletion of an
inode that is left without an entry does not fail. -/
def KeepsTrack (s : SqliteFs X) (r : Env × Request) : Prop :=
  s.MovesAs₁ Db.ReplacesNoDir r ∧ DeletesLast r.1 s r.2

/-- The states of writable mounts of a database made by `init`, with what the kernel was told since
the mount. The kernel keeps its promises, forgets no more than it was told of, and each request
keeps track of the inodes. A mount may end at any time, and the next one begins with `init`. -/
inductive Serving : SqliteFs X → List (Request × Outcome) → Prop
  | mounted {s : SqliteFs X} {db : Sqlite} {now : Now} (clock : ℕ → ℕ)
      (h : mount db now (Db.empty X clock) false false = some s) : Serving s []
  | handled {s : SqliteFs X} {t : List (Request × Outcome)} (h : Serving s t) (r : Env × Request)
      (hp : r.2.Promised s.conn)
      (hsolvent : Solvent (t ++ [(r.2, (handle r.1 r.2 s).2)])) (htrack : s.KeepsTrack r) :
      Serving (s.after r) (t ++ [(r.2, (handle r.1 r.2 s).2)])
  | remounted {s s' : SqliteFs X} {t : List (Request × Outcome)} {db : Sqlite} {now : Now}
      (h : Serving s t) (hs : mount db now s.conn false false = some s') (env : Env)
      (hinit : env.fails .deleteAllNorefInode = false) : Serving (s'.after (env, .init)) []

/-- `init` deletes the inodes that have no entry. -/
theorem after_init (hre : s.rewind = false) (hf : env.fails .deleteAllNorefInode = false) :
    s.after (env, .init) = s.withConn (s.conn.deleteAll s.conn.unnamed) := by
  have hspec : (init env).Ensures s
      (fun _ s' => s' = s.withConn (s.conn.deleteAll s.conn.unnamed)) fun _ _ => False := by
    simp only [init, Proc.ensures_bind, Proc.ensures_get, Proc.ensures_when, ensures_callIgnoring,
      hre, hf, Bool.false_eq_true, false_implies, true_implies, true_and, not_true_eq_false,
      and_true]
    exact (Sqlite.deleteAllNorefInode_spec _ _).mono (fun _ _ h => h ▸ rfl) fun _ _ h => h.elim
  change (silently (init env) s).1 = _
  rw [silently_fst]
  obtain ⟨_, s', hs', hconn⟩ := hspec.exists_ok
  rw [hs', hconn]

/-- What holds in service. -/
structure InService (s : SqliteFs X) (t : List (Request × Outcome)) : Prop where
  writable : s.WritableMount
  tidy : s.conn.Tidy
  accounted : s.Accounted
  counts : s.CountsBalance t
  small : ∀ i, 0 < handedOut t i → i < 2 ^ 32

/-- A new mount of the database keeps the invariants of the namespace. -/
theorem WritableMount.names_remounted {M : Db X → ℕ → Name → ℕ → Name → Prop} {I : Db X → Prop}
    (hI : Db.NamesClosed M I) (h : s.WritableMount) (hs : I s.conn) {db : Sqlite} {now : Now}
    (hmount : mount db now s.conn false false = some s') : s'.WritableMount ∧ I s'.conn := by
  obtain rfl := conn_of_mount hmount
  have hopen := db.init_of_rootInPlace now (hI.tree hs).root
  have hkept := (keeps_applyDiffs (I := fun db' : Db X =>
    s.conn.SameNames db' ∧ db'.sqliteSequence = s.conn.sqliteSequence)
    (fun _ _ h => ⟨⟨h.1.dentry, h.1.kindOf⟩, h.2⟩) db.extensions).fst
      (s := s.conn) ⟨.refl _, rfl⟩
  rw [← hopen] at hkept
  exact ⟨⟨rfl, rfl, hkept.2.trans_lt h.sequence_lt⟩, hI.same hs hkept.1⟩

/-- After the `init` of the next mount every inode has an entry. -/
theorem remounted_inService {db : Sqlite} {now : Now} (hw : s.WritableMount) (hs : s.conn.Tidy)
    (hmount : mount db now s.conn false false = some s')
    (hinit : env.fails .deleteAllNorefInode = false) :
    (s'.after (env, .init)).InService [] ∧
      ∀ i, ((s'.after (env, .init)).conn.kindOf i).isSome →
        ¬ (s'.after (env, .init)).conn.Unnamed i := by
  obtain ⟨hw', htidy⟩ := hw.names_remounted Db.namesClosed_tidy hs hmount
  have hempty : s'.lookupCount = ∅ := by
    obtain rfl := conn_of_mount hmount
    rfl
  have hpurged := s'.conn.purged_deleteAll
  have hnamed : ∀ i, ((s'.conn.deleteAll s'.conn.unnamed).kindOf i).isSome →
      ¬ (s'.conn.deleteAll s'.conn.unnamed).Unnamed i := by
    intro i hrow hun
    have hun' := htidy.unnamed_of_purged hpurged hun
    obtain ⟨hgone, hrow'⟩ := hpurged.isSome hrow
    exact hgone ((s'.conn.mem_unnamed i).2 ⟨Db.kindOf_isSome ▸ hrow', hun'⟩)
  have hafter := after_init hw'.rewind hinit
  refine ⟨⟨hw'.after _, ?_, fun i => ?_, fun i => ?_, fun i hi => by simp [handedOut] at hi⟩, ?_⟩
  · rw [hafter]
    exact Db.namesClosed_tidy.purged htidy hpurged
  · rw [hafter]
    exact fun hrow hun => absurd hun (hnamed i hrow)
  · rw [if_neg (by simp [handedOut]), hafter, lookupCount_withConn, hempty]
    rfl
  · rw [hafter]
    exact hnamed

/-- **What holds in service, a request keeps.** -/
theorem InService.after (h : s.InService t) {r : Env × Request} (hp : r.2.Promised s.conn)
    (hsolvent : Solvent (t ++ [(r.2, (handle r.1 r.2 s).2)])) (htrack : s.KeepsTrack r) :
    (s.after r).InService (t ++ [(r.2, (handle r.1 r.2 s).2)]) := by
  have heff := h.writable.handle_effect r
  have hw := h.writable.after r
  refine ⟨hw, h.writable.names_after Db.namesClosed_tidy h.tidy hp htrack.1, ?_, ?_,
    fun i hi => ?_⟩
  · by_cases hstop : ∃ p n p' n', r.2 = .rename p n p' n' ∧ ¬ MoveIsTried r.1 n n'
    · obtain ⟨p, n, p', n', hr, hstop⟩ := hstop
      rw [SqliteFs.after, hr, rename_of_not_tried hstop]
      exact h.accounted
    · refine heff.accounted hp h.tidy (fun p n p' n' hr => htrack.1 p n p' n' hr ?_) htrack.2
        h.accounted
      exact not_not.1 fun hn => hstop ⟨p, n, p', n', hr, hn⟩
  · by_cases hr : ∃ ino n, r.2 = .forget ino n
    · obtain ⟨ino, n, hr⟩ := hr
      have hforgotten : s.Forgotten r.1 ino n (s.after r) (handle r.1 r.2 s).2 := by
        rw [SqliteFs.after, hr]
        exact handle_forgotten r.1 s ino n
      rw [hr] at hsolvent hforgotten ⊢
      obtain ⟨hn, hino, hle⟩ := forget_fits hsolvent hforgotten.named_eq_none (h.small ino)
      exact h.counts.after_forget hn hino hle hforgotten h.writable.readOnly
    · push Not at hr
      exact h.counts.after_effect heff hr hsolvent
  · by_cases hn : (handle r.1 r.2 s).2.named = some i
    · exact ((s.after r).conn.sequence_bound i (heff.row_of_named hn)).trans_lt hw.sequence_lt
    · rw [handedOut_snoc, Outcome.handsOut, if_neg hn] at hi
      exact h.small i hi

theorem Serving.inService (h : s.Serving t) : s.InService t := by
  induction h with
  | mounted clock h =>
    rename_i db now
    have honly : (db.init now (Db.empty X clock)).1.OnlyRoot now :=
      Db.onlyRoot_initialised clock db now
    obtain rfl := conn_of_mount h
    refine ⟨⟨rfl, rfl, honly.sqliteSequence.trans_lt (by decide)⟩, honly.tidy,
      fun i hrow hun => ?_, fun i => ?_, fun i hi => by simp [handedOut] at hi⟩
    · have hi : i = 1 := by
        have hrow : ((db.init now (Db.empty X clock)).1.metadata.find i).isSome :=
          Db.kindOf_isSome ▸ hrow
        rw [honly.metadata] at hrow
        by_contra hi
        simp [hi] at hrow
      exact absurd hun (hi ▸ Db.not_unnamed honly.tree.root.dot)
    · rw [if_neg (by simp [handedOut])]
      rfl
  | handled h r hp hsolvent htrack ih => exact ih.after hp hsolvent htrack
  | remounted h hs env hinit ih => exact (remounted_inService ih.writable ih.tidy hs hinit).1

theorem Serving.solvent (h : s.Serving t) : Solvent t := by
  cases h with
  | mounted => exact solvent_nil
  | handled _ _ _ hsolvent => exact hsolvent
  | remounted => exact solvent_nil

theorem InService.nothingLost (h : s.InService t) : s.NothingLost := by
  intro i hrow
  by_cases hun : s.conn.Unnamed i
  · have hi := h.accounted i (Db.kindOf_isSome ▸ hrow) hun
    have hlt := (h.counts.mem_iff i).1 hi
    exact Or.inr ⟨_, (h.counts i).trans (if_pos hlt), Nat.sub_pos_of_lt hlt⟩
  · exact Or.inl (h.tidy.fromRoot hun)

/-- The order in which `destroy` goes through its hash map does not matter in service. -/
theorem Serving.unnamedEmpty (h : s.Serving t) : s.conn.UnnamedEmpty :=
  h.inService.tidy.unnamedEmpty

/-- **No inode is lost**, and none is left without an entry after `destroy` and the `init` of the
next mount. The runs are any in which the kernel keeps its promises and gives back the lookups that
it was handed, no rename replaces a directory, and the deletion of an inode that is not looked up
does not fail. -/
theorem nothing_lost_in_service (h : s.Serving t) : s.NothingLost ∧
    ∀ (env env' : Env) (db : Sqlite) (now : Now) (s' : SqliteFs X),
      mount db now (s.after (env, .destroy)).conn false false = some s' →
        env'.fails .deleteAllNorefInode = false → (s'.after (env', .init)).AllFromRoot := by
  have hs := h.inService
  refine ⟨hs.nothingLost, fun env env' db now s' hmount hinit i hrow => ?_⟩
  have htidy := hs.writable.names_after Db.namesClosed_tidy hs.tidy (r := (env, .destroy)) trivial
    fun _ _ _ _ hr => absurd hr (by simp)
  obtain ⟨hnext, hnamed⟩ := remounted_inService (hs.writable.after _) htidy hmount hinit
  exact hnext.tidy.fromRoot (hnamed i (Db.kindOf_isSome ▸ hrow))

/-- A file is made, unlinked while the kernel holds it, and forgotten. -/
theorem nothing_lost_in_service_sample :
    let s := ((sample.after (.sample, .create 1 [97] 0)).after (.sample, .unlink 1 [97])).after
      (.sample, .forget 2 1)
    s.NothingLost ∧ ∀ (env env' : Env) (db : Sqlite) (now : Now) (s' : SqliteFs .sample),
      mount db now (s.after (env, .destroy)).conn false false = some s' →
        env'.fails .deleteAllNorefInode = false → (s'.after (env', .init)).AllFromRoot := by
  have hcreate : (handle .sample (.create 1 [97] 0) sample).2.named = some 2 := by decide
  have hunlink : (handle .sample (.unlink 1 [97])
      (sample.after (.sample, .create 1 [97] 0))).2.named = none := by decide
  have hforget : (handle .sample (.forget 2 1) ((sample.after (.sample, .create 1 [97] 0)).after
      (.sample, .unlink 1 [97]))).2.named = none := by decide
  have hmounted : sample.Serving [] :=
    .mounted id (show mount .new epoch (Db.empty .sample id) false false = some sample from rfl)
  have hcreated := hmounted.handled (.sample, .create 1 [97] 0)
    ⟨by decide, by decide, Or.inl rfl⟩
    (solvent_snoc.2 ⟨hmounted.solvent, fun i => by
      simp only [handedOut_snoc, givenBack_snoc, Outcome.handsOut, hcreate, Request.givesBack]
      simp only [handedOut, givenBack, List.map_nil, List.sum_nil]
      split_ifs <;> decide⟩)
    ⟨fun _ _ _ _ hr => absurd hr (by simp), fun _ _ => rfl⟩
  have hunlinked := hcreated.handled (.sample, .unlink 1 [97])
    ⟨by decide, fun i hi => by
      obtain rfl : i = 2 := (Option.some.inj hi).symm
      decide⟩
    (solvent_snoc.2 ⟨hcreated.solvent, fun i => by
      simp only [handedOut_snoc, givenBack_snoc, Outcome.handsOut, hcreate, hunlink,
        Request.givesBack]
      simp only [handedOut, givenBack, List.map_nil, List.sum_nil]
      split_ifs <;> decide⟩)
    ⟨fun _ _ _ _ hr => absurd hr (by simp), fun _ _ => rfl⟩
  refine nothing_lost_in_service (hunlinked.handled (.sample, .forget 2 1) trivial
    (solvent_snoc.2 ⟨hunlinked.solvent, fun i => ?_⟩)
    ⟨fun _ _ _ _ hr => absurd hr (by simp), fun _ _ => rfl⟩)
  simp only [handedOut_snoc, givenBack_snoc, Outcome.handsOut, hcreate, hunlink, hforget,
    Request.givesBack, Option.some.injEq, reduceCtorEq, ↓reduceIte]
  simp only [handedOut, givenBack, List.map_nil, List.sum_nil]
  split_ifs <;> decide

end SqliteFs

end TemporalFs
