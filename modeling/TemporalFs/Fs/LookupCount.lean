import Mathlib
import TemporalFs.Fs.Mounts

/-!
# Lookup counts

The kernel keeps a ledger of the inodes it was told of: each reply with an entry hands an inode out
once, and each `forget` gives a number of them back. As long as the kernel gives back no more than
it got, `lookupCount` is the balance of that ledger, and an inode with a positive balance is not
deleted.

## Main definitions

* `SqliteFs.events`: the requests of a run with their outcomes.
* `handedOut`, `givenBack`, `Solvent`: the ledger of the kernel.
* `SqliteFs.Protects`: what a request must leave of an inode in use.

## Main results

* `SqliteFs.Effect.protects`: a request deletes only inodes that are not counted.
* `SqliteFs.lookupCount_eq_balance`: the counts are the balance, after every run.
-/

namespace TemporalFs

variable {X : Externals}

/-! ### The ledger of the kernel -/

/-- How often an outcome hands out the inode `i`. -/
def Outcome.handsOut (out : Outcome) (i : ℕ) : ℕ := if out.named = some i then 1 else 0

/-- How often a request gives back the inode `i`. -/
def Request.givesBack (r : Request) (i : ℕ) : ℕ :=
  match r with
  | .forget ino nlookup => if ino = i then nlookup else 0
  | _ => 0

/-- How often a run has handed out the inode `i`. -/
def handedOut (t : List (Request × Outcome)) (i : ℕ) : ℕ := (t.map fun e => e.2.handsOut i).sum

/-- How often a run has given back the inode `i`. -/
def givenBack (t : List (Request × Outcome)) (i : ℕ) : ℕ := (t.map fun e => e.1.givesBack i).sum

/-- At each time the kernel has given back at most what it was handed out, and less than `2 ^ 32`
of an inode is outstanding. -/
def Solvent (t : List (Request × Outcome)) : Prop :=
  ∀ t', t' <+: t → ∀ i, givenBack t' i ≤ handedOut t' i ∧ handedOut t' i < givenBack t' i + 2 ^ 32

theorem solvent_nil : Solvent [] := by
  intro t ht i
  rw [List.prefix_nil.1 ht]
  simp [givenBack, handedOut]

theorem solvent_snoc {t : List (Request × Outcome)} {e : Request × Outcome} :
    Solvent (t ++ [e]) ↔ Solvent t ∧ ∀ i, givenBack (t ++ [e]) i ≤ handedOut (t ++ [e]) i ∧
      handedOut (t ++ [e]) i < givenBack (t ++ [e]) i + 2 ^ 32 := by
  refine ⟨fun h => ⟨fun t' ht' => h t' (ht'.trans (List.prefix_append t [e])),
    h _ (List.prefix_refl _)⟩, fun h t' ht' => ?_⟩
  rcases List.prefix_concat_iff.1 ht' with heq | hpre
  · rw [heq]
    exact h.2
  · exact h.1 t' hpre

theorem Solvent.of_append {t t' : List (Request × Outcome)} (h : Solvent (t ++ t')) : Solvent t :=
  fun u hu => h u (hu.trans (List.prefix_append t t'))

@[simp] theorem handedOut_snoc (t : List (Request × Outcome)) (e : Request × Outcome) (i : ℕ) :
    handedOut (t ++ [e]) i = handedOut t i + e.2.handsOut i := by
  simp [handedOut]

@[simp] theorem givenBack_snoc (t : List (Request × Outcome)) (e : Request × Outcome) (i : ℕ) :
    givenBack (t ++ [e]) i = givenBack t i + e.1.givesBack i := by
  simp [givenBack]

namespace SqliteFs

/-- The requests of a run with their outcomes. -/
def events (s : SqliteFs X) : List (Env × Request) → List (Request × Outcome)
  | [] => []
  | r :: rs => (r.2, (handle r.1 r.2 s).2) :: (s.after r).events rs

theorem events_append (s : SqliteFs X) (rs rs' : List (Env × Request)) :
    s.events (rs ++ rs') = s.events rs ++ (s.run rs).events rs' := by
  induction rs generalizing s with
  | nil => rfl
  | cons r rs ih => simp [events, ih]

/-! ### What a request leaves of an inode -/

/-- The inode `i` keeps its row, its blocks unless it is cut by `setattr`, and its attributes unless
they are removed one by one. -/
structure Protects (r : Request) (i : ℕ) (db db' : Db X) : Prop where
  row : (db.metadata.find i).isSome → (db'.metadata.find i).isSome
  blocks : ∀ k, (db.blocks i k).isSome →
    (db'.blocks i k).isSome ∨ ∃ ino req, r = .setattr ino req ∧ asU32 ino = i
  xattr : ∀ n, (db.xattr.find (i, n)).isSome →
    (db'.xattr.find (i, n)).isSome ∨ ∃ ino, r = .removexattr ino n ∧ asU32 ino = i

namespace Protects

variable {r : Request} {i : ℕ} {db db' db'' : Db X}

theorem of_eq (hm : (db'.metadata.find i).isSome = (db.metadata.find i).isSome)
    (hb : ∀ k, db'.blocks i k = db.blocks i k)
    (hx : ∀ n, db'.xattr.find (i, n) = db.xattr.find (i, n)) : Protects r i db db' :=
  ⟨fun h => hm.trans h, fun k h => Or.inl (by rwa [hb]), fun n h => Or.inl (by rwa [hx])⟩

theorem refl (r : Request) (i : ℕ) (db : Db X) : Protects r i db db :=
  of_eq rfl (fun _ => rfl) fun _ => rfl

theorem trans (h : Protects r i db db') (h' : Protects r i db' db'') : Protects r i db db'' where
  row := h'.row ∘ h.row
  blocks k hk := (h.blocks k hk).elim (h'.blocks k) Or.inr
  xattr n hn := (h.xattr n hn).elim (h'.xattr n) Or.inr

theorem of_sameButDentry {f : MetadataRow → MetadataRow} (h : db.SameButDentry f db') :
    Protects r i db db' :=
  of_eq (h.metadata.isSome i) (fun _ => by rw [Db.blocks, h.data, Db.blocks])
    fun _ => by rw [h.xattr]

theorem of_added {p : ℕ} {n : Name} {attr : DBFileAttr} {child : ℕ}
    (h : db.Added p n attr child db') : Protects r i db db' where
  row hi := by
    have hm := congrArg Option.isSome (h.metadata i)
    rw [Option.isSome_map] at hm
    rw [hm]
    split_ifs
    · rfl
    · rwa [Option.isSome_map]
  blocks k hk := Or.inl (by rwa [Db.blocks, h.data])
  xattr n hn := Or.inl (by rwa [h.xattr])

theorem of_written {j k : ℕ} {bytes : Bytes} {size : UInt32} (h : db.Written j k bytes size db') :
    Protects r i db db' where
  row hi := by
    have hm := congrArg Option.isSome (h.metadata i)
    rwa [Option.isSome_map, Option.isSome_map, hi] at hm
  blocks b hb := by
    rw [h.blocks]
    split_ifs
    · exact Or.inl rfl
    · exact Or.inl hb
  xattr n hn := Or.inl (by rwa [h.xattr])

theorem of_writeStep {j : ℕ} (h : db.WriteStep j db') : Protects r i db db' := by
  rcases h with h | ⟨k, bytes, size, h⟩
  · exact .of_sameButDentry h.sameButDentry
  · exact .of_written h

theorem of_writeSteps {j : ℕ} (h : Relation.ReflTransGen (Db.WriteStep j) db db') :
    Protects r i db db' := by
  induction h with
  | refl => exact refl r i db
  | tail _ hstep ih => exact ih.trans (of_writeStep hstep)

theorem of_updated {ino : ℕ} {req : SetAttr} {attr : DBFileAttr} {t : Bool}
    (hino : attr.ino = asU32 ino) (h : db.Updated attr t db') :
    Protects (.setattr ino req) i db db' where
  row hi := by
    have hm := congrArg Option.isSome (h.metadata i)
    rwa [Option.isSome_map, Option.isSome_map, hi] at hm
  blocks k hk := by
    by_cases hi : i = attr.ino
    · exact Or.inr ⟨ino, req, rfl, hino.symm.trans hi.symm⟩
    · rw [h.blocks, if_neg fun hc => hi hc.1]
      exact Or.inl hk
  xattr n hn := Or.inl (by rwa [h.xattr])

theorem of_xattrChanged {ino : ℕ} {key : Name} {value : Option Bytes}
    (hr : value = none → r = .removexattr ino key)
    (h : db.XattrChanged (asU32 ino) key value db') : Protects r i db db' where
  row hi := (h.metadata.isSome i).trans hi
  blocks k hk := Or.inl (by rwa [Db.blocks, h.data])
  xattr n hn := by
    rw [h.xattr]
    by_cases hk : (i, n) = (asU32 ino, key)
    · rw [if_pos hk, Option.isSome_map]
      obtain ⟨rfl, rfl⟩ := Prod.mk.inj hk
      cases hv : value with
      | none => exact Or.inr ⟨ino, hr hv, rfl⟩
      | some v => exact Or.inl rfl
    · rw [if_neg hk]
      exact Or.inl hn

theorem collect {j : ℕ} (hj : i ≠ j) (db : Db X) : Protects r i db (db.collect j) :=
  of_eq (by rw [db.metadata_find_collect j i hj]) (fun _ => by rw [db.blocks_collect j i hj])
    fun n => by rw [db.xattr_find_collect j (i, n) hj]

end Protects

/-! ### The step -/

variable {env : Env} {s s' : SqliteFs X} {r : Request} {out : Outcome}
  {t : List (Request × Outcome)}

theorem mem_lookupCount_iff (s : SqliteFs X) (i : ℕ) :
    i ∈ s.lookupCount ↔ (s.lookupCount.lookup i).isSome :=
  AList.lookup_isSome.symm

theorem Finishes.protects {db : Db X} {res : Option ℕ} {i : ℕ} (h : s.Finishes env db res s' out)
    (hi : i ∈ s'.lookupCount) : Protects r i db s'.conn := by
  rcases h.conn_eq_or with h | ⟨j, hj, h⟩
  · exact h ▸ .refl r i db
  · exact h ▸ .collect (fun hij : i = j => hj (hij ▸ hi)) db

theorem Forgotten.named_eq_none {ino nlookup : ℕ} (h : s.Forgotten env ino nlookup s' out) :
    out.named = none := by
  cases h <;> rfl

theorem Forgotten.protects {ino nlookup i : ℕ} (h : s.Forgotten env ino nlookup s' out)
    (hi : i ∈ s'.lookupCount) : Protects r i s.conn s'.conn := by
  cases h with
  | ignored => exact .refl r i _
  | counted_down _ hcount hconn =>
    rw [hconn]
    split_ifs with h₀
    · refine .collect (fun hij => ?_) _
      rw [mem_lookupCount_iff, hcount, if_pos hij, if_pos h₀.1] at hi
      simp at hi
    · exact .refl r i _
  | too_much _ _ _ hconn => exact hconn ▸ .refl r i _

/-- **A request deletes only inodes that are not counted.** -/
theorem Effect.protects (h : Effect env s r s' out) (hinit : r ≠ .init) (hdestroy : r ≠ .destroy)
    {i : ℕ} (hi : i ∈ s'.lookupCount) : Protects r i s.conn s'.conn := by
  cases h with
  | quiet h => exact .of_sameButDentry h.conn.sameButDentry
  | looked_up _ hdb _ hs => exact hs.conn_eq ▸ .of_sameButDentry hdb.sameButDentry
  | made _ hdb hadd hcont hs =>
    rw [hs.conn_eq]
    refine ((Protects.of_sameButDentry hdb.sameButDentry).trans (.of_added hadd)).trans ?_
    rcases hcont with rfl | ⟨link, -, -, hlink⟩
    · exact .refl r i _
    · exact .of_written hlink
  | half_made _ hdb hadd hs =>
    exact hs ▸ (Protects.of_sameButDentry hdb.sameButDentry).trans (.of_added hadd)
  | linked h hs => exact hs.conn_eq ▸ .of_sameButDentry h.rest
  | removed _ hdb h _ hs =>
    exact ((Protects.of_sameButDentry hdb.sameButDentry).trans (.of_sameButDentry h.rest)).trans
      (hs.protects hi)
  | renamed _ h hs => exact (Protects.of_sameButDentry h.rest).trans (hs.protects hi)
  | renamed_onto_itself _ h hs => exact (Protects.of_sameButDentry h.rest).trans (hs.protects hi)
  | forgot h => exact h.protects hi
  | swept => exact absurd rfl hinit
  | destroyed => exact absurd rfl hdestroy
  | wrote h hs => exact hs ▸ .of_writeSteps h
  | updated hold hattr h hs =>
    exact hs ▸ .of_updated (hattr.ino.trans (ino_of_inodeAttr hold)) h
  | xattr_changed hr h hs =>
    refine hs ▸ .of_xattrChanged (fun hv => ?_) h
    rcases hr with ⟨_, _, hsome, -⟩ | ⟨-, hr⟩
    · rw [hv] at hsome
      exact absurd hsome (by simp)
    · exact hr

theorem CountedTo.lookup {db : Db X} {i : ℕ} (h : s.CountedTo db i s') (hover : ¬ s.Overflows i)
    (j : ℕ) : s'.lookupCount.lookup j =
      if i = j then some ((s.lookupCount.lookup j).getD 0 + 1) else s.lookupCount.lookup j := by
  rcases h with rfl | ⟨-, h⟩
  · unfold counted
    by_cases hj : i = j
    · subst hj
      rw [if_pos rfl, AList.lookup_insert, lookupCount_withConn,
        Nat.mod_eq_of_lt (not_le.1 hover)]
    · rw [if_neg hj, AList.lookup_insert_ne (Ne.symm hj), lookupCount_withConn]
  · exact absurd h hover

theorem Finishes.lookupCount_eq {db : Db X} {res : Option ℕ} (h : s.Finishes env db res s' out) :
    s'.lookupCount = s.lookupCount ∧ out.named = none := by
  cases res with
  | none => exact ⟨h.1 ▸ rfl, h.2 ▸ rfl⟩
  | some j =>
    rcases h with ⟨rfl, rfl⟩ | ⟨rfl, -, -, rfl⟩ <;> exact ⟨rfl, rfl⟩

/-- A request other than `forget` counts the inode that it hands out. -/
theorem Effect.lookupCount (h : Effect env s r s' out) (hr : ∀ ino n, r ≠ .forget ino n)
    (hover : ∀ i, out.named = some i → ¬ s.Overflows i) (j : ℕ) :
    s'.lookupCount.lookup j =
      if out.named = some j then some ((s.lookupCount.lookup j).getD 0 + 1)
      else s.lookupCount.lookup j := by
  have hsame : s'.lookupCount = s.lookupCount → out.named = none →
      s'.lookupCount.lookup j = if out.named = some j then
        some ((s.lookupCount.lookup j).getD 0 + 1) else s.lookupCount.lookup j := by
    intro hl hn
    rw [hl, hn, if_neg (by simp)]
  have hcounted : ∀ db i, s.CountedTo db i s' → out.named = some i →
      s'.lookupCount.lookup j = if out.named = some j then
        some ((s.lookupCount.lookup j).getD 0 + 1) else s.lookupCount.lookup j := by
    intro db i hs hn
    rw [hs.lookup (hover i hn) j, hn]
    simp only [Option.some.injEq]
  cases h with
  | quiet h hn => exact hsame h.lookupCount hn
  | looked_up _ _ _ hs hn => exact hcounted _ _ hs hn
  | made _ _ _ _ hs hn => exact hcounted _ _ hs hn
  | half_made _ _ _ hs hfail => exact hsame (hs ▸ rfl) hfail.named_eq_none
  | linked _ hs hn => exact hcounted _ _ hs hn
  | removed _ _ _ _ hs => exact hsame hs.lookupCount_eq.1 hs.lookupCount_eq.2
  | renamed _ _ hs => exact hsame hs.lookupCount_eq.1 hs.lookupCount_eq.2
  | renamed_onto_itself _ _ hs => exact hsame hs.lookupCount_eq.1 hs.lookupCount_eq.2
  | forgot => exact absurd rfl (hr _ _)
  | swept _ hs hout => exact hsame (hs ▸ rfl) (hout ▸ rfl)
  | destroyed _ hs hout => exact hsame (hs ▸ rfl) (hout ▸ rfl)
  | wrote _ hs hn => exact hsame (hs ▸ rfl) hn
  | updated _ _ _ hs hn => exact hsame (hs ▸ rfl) hn
  | xattr_changed _ _ hs hn => exact hsame (hs ▸ rfl) hn

/-- An inode that is handed out exists, and existed unless it has just been made. -/
theorem Effect.row_of_named (h : Effect env s r s' out) {i : ℕ} (hi : out.named = some i) :
    (s'.conn.metadata.find i).isSome := by
  have hnone : ∀ {P : Prop}, out.named = none → P := fun hn => by simp [hn] at hi
  cases h with
  | quiet _ hn => exact hnone hn
  | looked_up _ hdb he hs hn =>
    obtain rfl := Option.some.inj (hn.symm.trans hi)
    rw [hs.conn_eq, hdb.metadata.isSome]
    exact (s.conn.dentry_fk _ _ he).2
  | made _ _ hadd hcont hs hn =>
    have hrow := congrArg Option.isSome (hadd.metadata i)
    rw [Option.isSome_map, if_pos (Option.some.inj (hi.symm.trans hn))] at hrow
    rw [hs.conn_eq]
    rcases hcont with rfl | ⟨link, -, -, hlink⟩
    · exact hrow
    · exact (Protects.of_written (r := r) hlink).row hrow
  | half_made _ _ _ _ hfail => exact hnone hfail.named_eq_none
  | linked h hs hn =>
    obtain rfl := Option.some.inj (hn.symm.trans hi)
    obtain ⟨m, hm, -⟩ := inodeAttr_eq_ok_some h.found
    rw [hs.conn_eq, h.rest.metadata.isSome, hm]
    rfl
  | removed _ _ _ _ hs => exact hnone hs.lookupCount_eq.2
  | renamed _ _ hs => exact hnone hs.lookupCount_eq.2
  | renamed_onto_itself _ _ hs => exact hnone hs.lookupCount_eq.2
  | forgot h => exact hnone h.named_eq_none
  | swept _ _ hout => exact hnone (hout ▸ rfl)
  | destroyed _ _ hout => exact hnone (hout ▸ rfl)
  | wrote _ _ hn => exact hnone hn
  | updated _ _ _ _ hn => exact hnone hn
  | xattr_changed _ _ _ hn => exact hnone hn

/-! ### The run -/

/-- The counts are the balance of the ledger. -/
def CountsBalance (s : SqliteFs X) (t : List (Request × Outcome)) : Prop :=
  ∀ i, s.lookupCount.lookup i =
    if givenBack t i < handedOut t i then some (handedOut t i - givenBack t i) else none

theorem CountsBalance.getD (h : s.CountsBalance t) (i : ℕ) :
    (s.lookupCount.lookup i).getD 0 = handedOut t i - givenBack t i := by
  rw [h]
  split_ifs with hlt
  · rfl
  · exact (Nat.sub_eq_zero_of_le (not_lt.1 hlt)).symm

theorem CountsBalance.mem_iff (h : s.CountsBalance t) (i : ℕ) :
    i ∈ s.lookupCount ↔ givenBack t i < handedOut t i := by
  rw [mem_lookupCount_iff, h]
  split_ifs with hlt
  · exact iff_of_true rfl hlt
  · exact iff_of_false (by simp) hlt

/-- The counts are the balance of the ledger, and the inodes counted exist. -/
structure Balanced (s : SqliteFs X) (t : List (Request × Outcome)) : Prop where
  lookup : ∀ i, s.lookupCount.lookup i =
    if givenBack t i < handedOut t i then some (handedOut t i - givenBack t i) else none
  row : ∀ i ∈ s.lookupCount, (s.conn.metadata.find i).isSome

theorem Balanced.counts (h : s.Balanced t) : s.CountsBalance t := h.lookup

/-- Only numbers below `2 ^ 32` are handed out. -/
theorem WritableMount.handedOut_lt (h : s.WritableMount) (rs : List (Env × Request)) {i : ℕ}
    (hi : 0 < handedOut (s.events rs) i) : i < 2 ^ 32 := by
  induction rs generalizing s with
  | nil => simp [events, handedOut] at hi
  | cons r rs ih =>
    by_cases hn : (handle r.1 r.2 s).2.named = some i
    · exact ((s.after r).conn.sequence_bound i ((h.handle_effect r).row_of_named hn)).trans_lt
        (h.after r).sequence_lt
    · refine ih (h.after r) ?_
      simpa [events, handedOut, Outcome.handsOut, hn] using hi

/-- What an honest `forget` gives back fits into a `u32`. -/
theorem forget_fits {ino n : ℕ} (hsolvent : Solvent (t ++ [(.forget ino n, out)]))
    (hnamed : out.named = none) (hsmall : 0 < handedOut t ino → ino < 2 ^ 32) :
    asU32 n = n ∧ (0 < n → asU32 ino = ino) ∧ n ≤ handedOut t ino - givenBack t ino := by
  have hlast := hsolvent _ (List.prefix_refl _) ino
  have hbefore := hsolvent.of_append _ (List.prefix_refl _) ino
  have hnone : out.handsOut ino = 0 := by
    rw [Outcome.handsOut, hnamed, if_neg (by simp)]
  simp only [handedOut_snoc, givenBack_snoc, hnone, Request.givesBack, ↓reduceIte] at hlast
  have hn : n < 2 ^ 32 := by omega
  refine ⟨Nat.mod_eq_of_lt hn, fun hpos => Nat.mod_eq_of_lt (hsmall ?_), ?_⟩
  · omega
  · omega

/-- The counts stay the balance when the kernel gives back what it has. -/
theorem CountsBalance.after_forget (h : s.CountsBalance t) {ino n : ℕ} (hn : asU32 n = n)
    (hino : 0 < n → asU32 ino = ino) (hle : n ≤ handedOut t ino - givenBack t ino)
    (hs' : s.Forgotten env ino n s' out) (hro : s.readOnly = false) :
    s'.CountsBalance (t ++ [(.forget ino n, out)]) := by
  have hcovered : asU32 n ≤ (s.lookupCount.lookup (asU32 ino)).getD 0 := by
    rcases Nat.eq_zero_or_pos n with rfl | hpos
    · exact Nat.zero_le _
    · rw [hn, hino hpos, h.getD]
      exact hle
  cases hs' with
  | ignored hro' => simp [hro] at hro'
  | too_much _ hlt => omega
  | counted_down _ hcount hconn =>
    intro j
    have hnew : s.forgottenCount (asU32 ino) n =
        handedOut t (asU32 ino) - givenBack t (asU32 ino) - n := by
      rw [forgottenCount, if_pos hcovered, h.getD, hn]
    have hnone : Outcome.silent.handsOut j = 0 := rfl
    rw [hcount, hnew, handedOut_snoc, givenBack_snoc, hnone, Request.givesBack, Nat.add_zero]
    by_cases hj : j = asU32 ino
    · subst hj
      rcases Nat.eq_zero_or_pos n with rfl | hpos
      · simp only [↓reduceIte, Nat.sub_zero, ite_self, Nat.add_zero]
        split_ifs <;> first | rfl | omega
      · simp only [hino hpos, ↓reduceIte]
        split_ifs <;> first | rfl | omega | (congr 1; omega)
    · have hn₀ : (if ino = j then n else 0) = 0 := by
        split_ifs with hij
        · rcases Nat.eq_zero_or_pos n with h₀ | hpos
          · exact h₀
          · exact absurd (hij.symm.trans (hino hpos).symm) hj
        · rfl
      rw [if_neg hj, hn₀, Nat.add_zero, h]

/-- The counts stay the balance when an inode is handed out. -/
theorem CountsBalance.after_effect (h : s.CountsBalance t) (heff : Effect env s r s' out)
    (hr : ∀ ino n, r ≠ .forget ino n) (hsolvent : Solvent (t ++ [(r, out)])) :
    s'.CountsBalance (t ++ [(r, out)]) := by
  have hgives : ∀ i, r.givesBack i = 0 := by
    intro i
    unfold Request.givesBack
    split
    · exact absurd rfl (hr _ _)
    · rfl
  have hover : ∀ i, out.named = some i → ¬ s.Overflows i := by
    intro i hi hover
    have hlast := hsolvent _ (List.prefix_refl _) i
    have hbefore := hsolvent.of_append _ (List.prefix_refl _) i
    rw [handedOut_snoc, givenBack_snoc, hgives, Outcome.handsOut, if_pos hi] at hlast
    unfold Overflows at hover
    rw [h.getD] at hover
    omega
  intro j
  have hbefore := hsolvent.of_append _ (List.prefix_refl _) j
  rw [heff.lookupCount hr hover, handedOut_snoc, givenBack_snoc, hgives, Nat.add_zero,
    Outcome.handsOut, h.getD, h]
  split_ifs <;> first | rfl | omega | (congr 1; omega)

theorem Balanced.after_forget (h : s.Balanced t) {ino n : ℕ} (hn : asU32 n = n)
    (hino : 0 < n → asU32 ino = ino) (hle : n ≤ handedOut t ino - givenBack t ino)
    (hs' : s.Forgotten env ino n s' out) (hro : s.readOnly = false) :
    s'.Balanced (t ++ [(.forget ino n, out)]) := by
  have hcounts := h.counts.after_forget hn hino hle hs' hro
  refine ⟨hcounts, fun j hj => ?_⟩
  refine (hs'.protects (r := .getattr 0) hj).row (h.row j ?_)
  have hzero : out.handsOut j = 0 := by rw [Outcome.handsOut, hs'.named_eq_none, if_neg (by simp)]
  rw [hcounts.mem_iff, handedOut_snoc, givenBack_snoc, hzero] at hj
  rw [h.counts.mem_iff]
  exact (Nat.le_add_right _ _).trans_lt hj

theorem Balanced.after_effect (h : s.Balanced t) (heff : Effect env s r s' out)
    (hr : ∀ ino n, r ≠ .forget ino n) (hinit : r ≠ .init) (hdestroy : r ≠ .destroy)
    (hsolvent : Solvent (t ++ [(r, out)])) : s'.Balanced (t ++ [(r, out)]) := by
  have hcounts := h.counts.after_effect heff hr hsolvent
  refine ⟨hcounts, fun j hj => ?_⟩
  by_cases hn : out.named = some j
  · exact heff.row_of_named hn
  · refine (heff.protects hinit hdestroy hj).row (h.row j ?_)
    have hzero : out.handsOut j = 0 := by rw [Outcome.handsOut, if_neg hn]
    rw [hcounts.mem_iff, handedOut_snoc, givenBack_snoc, hzero] at hj
    rw [h.counts.mem_iff]
    exact (Nat.le_add_right _ _).trans_lt hj

/-- What a request in a run does to an inode in use. -/
structure Guarded (s : SqliteFs X) (r : Env × Request) : Prop where
  no_underflow : ∀ ino n, r.2 = .forget ino n →
    asU32 n ≤ (s.lookupCount.lookup (asU32 ino)).getD 0
  protects : ∀ i ∈ (s.after r).lookupCount, Protects r.2 i s.conn (s.after r).conn

/-- One more request of an honest kernel. -/
theorem Balanced.snoc {s₀ : SqliteFs X} (h₀ : s₀.WritableMount) {rs : List (Env × Request)}
    {r : Env × Request} (hinit : r.2 ≠ .init) (hdestroy : r.2 ≠ .destroy)
    (hsolvent : Solvent (s₀.events (rs ++ [r]))) (h : (s₀.run rs).Balanced (s₀.events rs)) :
    (s₀.run (rs ++ [r])).Balanced (s₀.events (rs ++ [r])) ∧ (s₀.run rs).Guarded r := by
  have hs := h₀.run rs
  have heff := hs.handle_effect r
  have hall := hsolvent
  rw [events_append] at hall
  change Solvent (s₀.events rs ++ [(r.2, (handle r.1 r.2 (s₀.run rs)).2)]) at hall
  rw [run_append, events_append]
  change ((s₀.run rs).after r).Balanced (s₀.events rs ++ [(r.2, _)]) ∧ _
  have hprotects : ∀ i ∈ ((s₀.run rs).after r).lookupCount,
      Protects r.2 i (s₀.run rs).conn ((s₀.run rs).after r).conn :=
    fun i hi => heff.protects hinit hdestroy hi
  by_cases hr : ∃ ino n, r.2 = .forget ino n
  · obtain ⟨ino, n, hr⟩ := hr
    obtain ⟨env, req⟩ := r
    obtain rfl : req = .forget ino n := hr
    obtain ⟨hn, hino, hle⟩ := forget_fits hall (handle_forgotten env _ ino n).named_eq_none
      (h₀.handedOut_lt rs)
    refine ⟨h.after_forget hn hino hle (handle_forgotten env _ ino n) hs.readOnly,
      fun ino' n' heq => ?_, hprotects⟩
    obtain ⟨rfl, rfl⟩ := Request.forget.inj heq
    rcases Nat.eq_zero_or_pos n with rfl | hpos
    · exact Nat.zero_le _
    · rw [hn, hino hpos, h.counts.getD]
      exact hle
  · push Not at hr
    exact ⟨h.after_effect heff hr hinit hdestroy hall, fun ino n heq => absurd heq (hr ino n),
      hprotects⟩

/-- **Lookup counts are exact and protect inodes.** In every run of a session in which the kernel
gives back no more lookups than it was handed, the count of each inode is what was handed out less
what was given back, no subtraction underflows, and an inode with a count keeps its row. -/
theorem lookupCount_eq_balance {s₀ : SqliteFs X} (h₀ : s₀.WritableMount)
    (hempty : s₀.lookupCount = ∅) (rs : List (Env × Request))
    (hrs : ∀ r ∈ rs, r.2 ≠ .init ∧ r.2 ≠ .destroy) (hsolvent : Solvent (s₀.events rs)) :
    (s₀.run rs).Balanced (s₀.events rs) ∧
      ∀ rs₁ r rs₂, rs = rs₁ ++ r :: rs₂ → (s₀.run rs₁).Guarded r := by
  induction rs using List.reverseRecOn with
  | nil =>
    refine ⟨⟨fun i => ?_, fun i hi => ?_⟩, fun rs₁ r rs₂ h => by simp at h⟩
    · simp [events, handedOut, givenBack, hempty]
    · rw [run_nil, hempty] at hi
      exact absurd hi (AList.notMem_empty i)
  | append_singleton rs r ih =>
    have hsolvent' := hsolvent
    rw [events_append] at hsolvent'
    obtain ⟨hbal, hguard⟩ := ih (fun r hr => hrs r (List.mem_append_left _ hr)) hsolvent'.of_append
    have hr := hrs r (by simp)
    obtain ⟨hbal', hguard'⟩ := hbal.snoc h₀ hr.1 hr.2 hsolvent
    refine ⟨hbal', fun rs₁ r' rs₂ heq => ?_⟩
    rcases List.eq_nil_or_concat rs₂ with rfl | ⟨rs₂', r'', rfl⟩
    · obtain ⟨rfl, heq'⟩ := List.append_inj' heq rfl
      obtain rfl := List.head_eq_of_cons_eq heq'
      exact hguard'
    · refine hguard rs₁ r' rs₂' ?_
      rw [List.concat_eq_append, ← List.cons_append, ← List.append_assoc] at heq
      exact (List.append_inj' heq rfl).1

/-- A file is made and forgotten. -/
theorem lookupCount_eq_balance_sample :
    let rs : List (Env × Request) := [(.sample, .create 1 [97] 0), (.sample, .forget 2 1)]
    (sample.run rs).Balanced (sample.events rs) ∧
      ∀ rs₁ r rs₂, rs = rs₁ ++ r :: rs₂ → (sample.run rs₁).Guarded r := by
  intro rs
  have hnamed : (handle .sample (.create 1 [97] 0) sample).2.named = some 2 := by decide
  have hnamed' : (handle .sample (.forget 2 1)
      (sample.after (.sample, .create 1 [97] 0))).2.named = none := by decide
  refine lookupCount_eq_balance ⟨rfl, rfl, by decide⟩ rfl rs (by simp [rs]) ?_
  change Solvent (([] ++ [_]) ++ [_])
  rw [solvent_snoc, solvent_snoc]
  refine ⟨⟨solvent_nil, fun i => ?_⟩, fun i => ?_⟩
  · simp [givenBack, handedOut, Outcome.handsOut, Request.givesBack, hnamed]
    split_ifs <;> omega
  · simp [givenBack, handedOut, Outcome.handsOut, Request.givesBack, hnamed, hnamed']

end SqliteFs

end TemporalFs
