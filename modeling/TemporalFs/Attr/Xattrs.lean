import Mathlib
import TemporalFs.Fs.Mounts

/-!
# Extended attributes

The requests for extended attributes keep a map from names to values for each inode. What a read
replies fits into the size that the kernel offers, or is refused, or is its size alone; the code
compares and reports sizes as `u32`, so that the replies are those of the map where what is read
has less than `2 ^ 32` bytes.

## Main definitions

* `AttrMap`: a map per inode; `Db.attrs`: the one in the database.
* `sized`: the reply to a read; `Fits`: where the code gives it.
* `AttrStep`: what a request for attributes does to a map, and its outcome.
* `SqliteFs.MapsAttrs`: each request of a run does so.

## Main results

* `SqliteFs.attrStep_iff`: one request; `SqliteFs.maps_attrs_iff`: runs.
* `SqliteFs.plainNames_run`: the names in a database are those that the kernel has sent.
-/

namespace TemporalFs

variable {X : Externals}

/-! ### Maps of attributes -/

/-- The attributes of each inode by their names. -/
abbrev AttrMap := ℕ → Name → Option Bytes

/-- The map with the attribute `n` of the inode `i` changed to `v`, or removed. -/
def AttrMap.set (m : AttrMap) (i : ℕ) (n : Name) (v : Option Bytes) : AttrMap :=
  fun j k => if (j, k) = (i, n) then v else m j k

/-- The reply to a read of `data` into a buffer of `size` bytes, where `0` asks for the size. -/
def sized (size : ℕ) (data : Bytes) : Reply :=
  if size = 0 then .size data.length
  else if size < data.length then .error .ERANGE
  else .data data

/-- The names of the attributes of one inode, in order and each once. -/
structure ListsNames (attrs : Name → Option Bytes) (names : List Name) : Prop where
  sorted : names.Pairwise fun a b => a ≤ b
  nodup : names.Nodup
  mem_iff : ∀ n, n ∈ names ↔ (attrs n).isSome

open SqliteFs (hasFlag xattrCreate xattrReplace) in
/-- A request for extended attributes as an operation on a map. -/
inductive AttrStep (m : AttrMap) : Request → AttrMap → Outcome → Prop
  | set {ino : ℕ} {name value : Bytes} {flags : ℕ}
      (hc : hasFlag flags xattrCreate = true → m (asU32 ino) name = none)
      (hr : hasFlag flags xattrReplace = true → m (asU32 ino) name ≠ none) :
      AttrStep m (.setxattr ino name value flags) (m.set (asU32 ino) name (some value))
        (.replied .ok)
  | present {ino : ℕ} {name value : Bytes} {flags : ℕ}
      (hc : hasFlag flags xattrCreate = true) (h : m (asU32 ino) name ≠ none) :
      AttrStep m (.setxattr ino name value flags) m (.replied (.error .EEXIST))
  | absent {ino : ℕ} {name value : Bytes} {flags : ℕ}
      (hr : hasFlag flags xattrReplace = true) (h : m (asU32 ino) name = none) :
      AttrStep m (.setxattr ino name value flags) m (.replied (.error .ENODATA))
  | removed {ino : ℕ} {name : Bytes} :
      AttrStep m (.removexattr ino name) (m.set (asU32 ino) name none) (.replied .ok)
  | got {ino size : ℕ} {name value : Bytes} (h : m (asU32 ino) name = some value) :
      AttrStep m (.getxattr ino name size) m (.replied (sized size value))
  | no_data {ino size : ℕ} {name : Bytes} (h : m (asU32 ino) name = none) :
      AttrStep m (.getxattr ino name size) m (.replied (.error .ENODATA))
  | listed {ino size : ℕ} {names : List Name} {data : Bytes}
      (h : ListsNames (m (asU32 ino)) names) (hdata : data.splitOn 0 = names ++ [[]]) :
      AttrStep m (.listxattr ino size) m (.replied (sized size data))

/-- The size `n` of what is read does not wrap around the comparisons with `size`. -/
def Fits (size n : ℕ) : Prop := n < 2 ^ 32 ∨ 0 < size ∧ (size < n % 2 ^ 32 ∨ n ≤ size)

theorem xattrReply_eq_sized_iff (size : ℕ) (data : Bytes) :
    SqliteFs.xattrReply size data = sized size data ↔ Fits size data.length := by
  have hle : data.length % 2 ^ 32 ≤ data.length := Nat.mod_le _ _
  have hmod : data.length % 2 ^ 32 = data.length ↔ data.length < 2 ^ 32 :=
    ⟨fun h => h ▸ Nat.mod_lt _ (by decide), Nat.mod_eq_of_lt⟩
  unfold SqliteFs.xattrReply sized Fits asU32
  by_cases h₀ : size = 0
  · rw [if_pos h₀, if_pos h₀, Reply.size.injEq, hmod, h₀]
    simp only [lt_irrefl, false_and, or_false]
  · rw [if_neg h₀, if_neg h₀]
    by_cases h₁ : size < data.length % 2 ^ 32
    · simp only [if_pos h₁, if_pos (h₁.trans_le hle), true_iff]
      exact Or.inr ⟨Nat.pos_of_ne_zero h₀, Or.inl h₁⟩
    · rw [if_neg h₁]
      split_ifs with h₂
      · simp only [false_iff, not_or, not_and]
        exact ⟨fun hlt => h₁ ((hmod.2 hlt).symm ▸ h₂), fun _ => ⟨h₁, h₂.not_ge⟩⟩
      · exact iff_of_true rfl (Or.inr ⟨Nat.pos_of_ne_zero h₀, Or.inr (not_lt.1 h₂)⟩)

/-- A name that the kernel sends: UTF-8, not empty and without NUL. -/
structure PlainName (name : Bytes) : Prop where
  utf8 : isUtf8Aux 0 0 0 name = true
  ne_nil : name ≠ []
  nul : (0 : UInt8) ∉ name

/-! ### Lists of names -/

/-- The names, each with a NUL at its end. -/
def terminated (names : List Name) : Bytes := names.flatMap fun v => v ++ [0]

/-- Names without NUL are told apart by the NUL at their ends. -/
theorem splitOn_terminated (names : List Name) (h : ∀ n ∈ names, (0 : UInt8) ∉ n) :
    (terminated names).splitOn 0 = names ++ [[]] := by
  induction names with
  | nil => rfl
  | cons n names ih =>
    rw [terminated, List.flatMap_cons, List.append_assoc, List.singleton_append,
      List.splitOn_append_cons_self_of_not_mem (h n List.mem_cons_self)]
    exact congrArg (n :: ·) (ih fun n' hn' => h n' (List.mem_cons_of_mem _ hn'))

/-- The list of the names of an inode is determined by its attributes. -/
theorem ListsNames.eq {attrs : Name → Option Bytes} {names names' : List Name}
    (h : ListsNames attrs names) (h' : ListsNames attrs names') : names = names' := by
  have hperm : names.Perm names' := (List.perm_ext_iff_of_nodup h.nodup h'.nodup).2 fun n =>
    (h.mem_iff n).trans (h'.mem_iff n).symm
  exact hperm.eq_of_pairwise (fun _ _ _ _ => List.le_antisymm) h.sorted h'.sorted

namespace Db

/-- The extended attributes in the database. -/
def attrs (db : Db X) : AttrMap := fun i n => (db.xattr.find (i, n)).map XattrRow.value

/-- The names of the attributes have no NUL. -/
def PlainNames (db : Db X) : Prop := ∀ i n, db.attrs i n ≠ none → (0 : UInt8) ∉ n

variable {db db' : Db X}

theorem XattrChanged.attrs {i : ℕ} {key : Name} {value : Option Bytes}
    (h : db.XattrChanged i key value db') : db'.attrs = db.attrs.set i key value := by
  funext j n
  simp only [Db.attrs, AttrMap.set, h.xattr]
  split_ifs
  · cases value <;> rfl
  · rfl

theorem listsNames_xattrList (db : Db X) (i : ℕ) :
    ListsNames (db.attrs i) (Sqlite.xattrList db.xattr.rows i) := by
  have hperm : (Sqlite.xattrList db.xattr.rows i).Perm
      ((db.xattr.rows.filter fun r => r.fileId = i).map XattrRow.name) :=
    List.perm_insertionSort _ _
  refine ⟨?_, hperm.nodup_iff.2 ?_, fun n => hperm.mem_iff.trans ?_⟩
  · have : Std.Total fun a b : Name => a ≤ b := ⟨List.le_total⟩
    have : IsTrans Name fun a b => a ≤ b := ⟨fun _ _ _ => List.le_trans⟩
    exact List.pairwise_insertionSort _ _
  · -- rows of one inode with the same name have the same key
    have hnodup := List.Nodup.of_map _ db.xattr.nodup_keys
    refine (hnodup.filter _).map_on fun r hr r' hr' heq => ?_
    simp only [List.mem_filter, decide_eq_true_eq] at hr hr'
    refine db.xattr.eq_of_key_eq hr.1 hr'.1 ?_
    rw [xattrSpec_key, xattrSpec_key, hr.2, hr'.2, heq]
  · simp only [List.mem_map, List.mem_filter, decide_eq_true_eq, Db.attrs, Option.isSome_map]
    constructor
    · rintro ⟨r, ⟨hr, rfl⟩, rfl⟩
      exact Option.isSome_iff_exists.2 ⟨r, db.xattr.find_key hr⟩
    · intro hn
      obtain ⟨r, hr⟩ := Option.isSome_iff_exists.1 hn
      have hkey := AuditedTable.key_of_find hr
      rw [xattrSpec_key, Prod.mk.injEq] at hkey
      exact ⟨r, ⟨AuditedTable.mem_of_find hr, hkey.1⟩, hkey.2⟩

/-- What `listxattr` reads of the attributes of an inode. -/
theorem PlainNames.splitOn_xattrList (h : db.PlainNames) (i : ℕ) :
    (terminated (Sqlite.xattrList db.xattr.rows i)).splitOn 0 =
      Sqlite.xattrList db.xattr.rows i ++ [[]] :=
  splitOn_terminated _ fun n hn => h i n
    (Option.isSome_iff_ne_none.1 (((db.listsNames_xattrList i).mem_iff n).1 hn))

end Db

/-! ### Requests -/

namespace SqliteFs

open Proc

/-- The request is one for extended attributes of an inode that has a row, with a name such as the
kernel sends. -/
def AsksAttrs (db : Db X) : Request → Prop
  | .setxattr ino name _ _ => PlainName name ∧ (db.metadata.find (asU32 ino)).isSome
  | .removexattr ino name => PlainName name ∧ (db.metadata.find (asU32 ino)).isSome
  | .getxattr ino name _ => PlainName name ∧ (db.metadata.find (asU32 ino)).isSome
  | .listxattr ino _ => (db.metadata.find (asU32 ino)).isSome
  | _ => False

/-- If the request reads attributes, what it reads has a size that does not wrap around. -/
def ReadsFit (db : Db X) : Request → Prop
  | .getxattr ino name size => ∀ v, db.attrs (asU32 ino) name = some v → Fits size v.length
  | .listxattr ino size =>
    Fits size (terminated (Sqlite.xattrList db.xattr.rows (asU32 ino))).length
  | _ => True

section Handlers

variable {s : SqliteFs X} {env : Env} {Q : Unit → SqliteFs X → Prop}
  {E : Exit → SqliteFs X → Prop} {ino size : ℕ} {name value : Bytes} {flags : ℕ}

/-- The check of the flags, with what it has looked up. -/
theorem ensures_check_flags (i : ℕ) (hfails : ∀ c, env.fails c = false)
    (hok : (hasFlag flags xattrCreate = true → s.conn.attrs i name = none) →
      (hasFlag flags xattrReplace = true → s.conn.attrs i name ≠ none) → Q () s)
    (hc : hasFlag flags xattrCreate = true → s.conn.attrs i name ≠ none →
      E (.reply (.error .EEXIST)) s)
    (hr : hasFlag flags xattrReplace = true → s.conn.attrs i name = none →
      E (.reply (.error .ENODATA)) s) :
    (Proc.when (hasFlag flags xattrCreate ∨ hasFlag flags xattrReplace) do
      let found ← call env .getXattr fun db => db.getXattr i name
      checkXattrFlags flags found).Ensures s Q E := by
  simp only [ensures_when, ensures_bind, ensures_call, hfails, Bool.false_eq_true, false_implies,
    true_implies, true_and, Sqlite.getXattr, ensures_get, ensures_ofOption, ensures_pure]
  have hattr : s.conn.attrs i name = (s.conn.xattr.find (i, name)).map XattrRow.value := rfl
  refine ⟨fun _ => ⟨fun row hrow => ?_, fun hnone => ?_⟩, fun hno => ?_⟩
  · rw [hrow] at hattr
    refine (ensures_require _ _).2 ⟨fun hcf => ?_, fun hcf => ?_⟩
    · exact hok (fun h => absurd (h.symm.trans hcf) (by decide)) fun _ => by simp [hattr]
    · exact hc (by simpa using hcf) (by simp [hattr])
  · rw [hnone] at hattr
    refine (ensures_require _ _).2 ⟨fun hrf => ?_, fun hrf => ?_⟩
    · exact hok (fun _ => hattr) fun h => absurd (h.symm.trans hrf) (by decide)
    · exact hr (by simpa using hrf) hattr
  · exact hok (fun h => absurd (Or.inl h) hno) fun h => absurd (Or.inr h) hno

theorem setxattr_step (hro : s.readOnly = false) (hfails : ∀ c, env.fails c = false)
    (hname : PlainName name) (hi : (s.conn.metadata.find (asU32 ino)).isSome) :
    (setxattr env ino name value flags).Ensures s
      (fun reply s' => AttrStep s.conn.attrs (.setxattr ino name value flags) s'.conn.attrs
        (.replied reply))
      (fun e s' => AttrStep s.conn.attrs (.setxattr ino name value flags) s'.conn.attrs
        e.outcome) := by
  unfold setxattr
  simp only [ensures_bind, ensures_writable, ensures_toStr, hro, hname.utf8, not_true_eq_false,
    false_implies, and_true, true_implies]
  refine ensures_check_flags _ hfails (fun hc hr => ?_) (fun hc h => .present hc h)
    fun hr h => .absent hr h
  rw [ensures_callOrNoEnt]
  refine ⟨fun hf => absurd (hf.symm.trans (hfails _)) (by decide), fun _ => ?_⟩
  refine (Sqlite.setXattr_spec _ _ _ _ _ _).mono (fun _ db h => ?_) fun _ _ h => absurd hi h.2
  rw [ensures_pure, conn_withConn, h.2.attrs]
  exact .set hc hr

theorem removexattr_step (hro : s.readOnly = false) (hfails : ∀ c, env.fails c = false)
    (hname : PlainName name) :
    (removexattr env ino name).Ensures s
      (fun reply s' => AttrStep s.conn.attrs (.removexattr ino name) s'.conn.attrs
        (.replied reply))
      (fun e s' => AttrStep s.conn.attrs (.removexattr ino name) s'.conn.attrs e.outcome) := by
  unfold removexattr
  simp only [ensures_bind, ensures_writable, ensures_toStr, ensures_callOrNoEnt, hro, hname.utf8,
    hfails, Bool.false_eq_true, not_true_eq_false, false_implies, and_true, true_and, true_implies]
  refine (Sqlite.deleteXattr_spec _ _ _ _ _).mono (fun _ db h => ?_) fun _ _ h => h.elim
  rw [ensures_pure, conn_withConn, h.attrs]
  exact .removed

theorem getxattr_spec (hre : s.rewind = false) (hfails : ∀ c, env.fails c = false)
    (hname : PlainName name) : (getxattr env ino name size).Ensures s
      (fun reply s' => s' = s ∧ ∃ v, s.conn.attrs (asU32 ino) name = some v ∧
        reply = xattrReply size v)
      (fun e s' => s' = s ∧ s.conn.attrs (asU32 ino) name = none ∧
        e = .reply (.error .ENODATA)) := by
  unfold getxattr
  simp only [ensures_bind, ensures_get, ensures_toStr, ensures_callOr, hre, hname.utf8, hfails,
    Bool.false_eq_true, ↓reduceIte, not_true_eq_false, false_implies, and_true, true_and,
    true_implies, Sqlite.getXattr, ensures_ofOption, ensures_pure]
  exact ⟨fun row hrow => ⟨rfl, row.value, by rw [Db.attrs, hrow]; rfl, rfl⟩,
    fun hnone => ⟨rfl, by rw [Db.attrs, hnone]; rfl, rfl⟩⟩

theorem listxattr_spec (hre : s.rewind = false) (hfails : ∀ c, env.fails c = false) :
    (listxattr env ino size).Ensures s
      (fun reply s' => s' = s ∧ reply =
        xattrReply size (terminated (Sqlite.xattrList s.conn.xattr.rows (asU32 ino))))
      (fun _ _ => False) := by
  unfold listxattr
  simp only [ensures_bind, ensures_get, ensures_callOr, hre, hfails, Bool.false_eq_true,
    ↓reduceIte, false_implies, true_and, true_implies, Sqlite.listXattr, ensures_pure]
  exact ⟨rfl, rfl⟩

/-- **A request for attributes is an operation on the map** if and only if the size of what it
reads does not wrap around. -/
theorem attrStep_iff (h : s.WritableMount) (hplain : s.conn.PlainNames)
    (hfails : ∀ c, env.fails c = false) {r : Request} (hask : AsksAttrs s.conn r) :
    AttrStep s.conn.attrs r (handle env r s).1.conn.attrs (handle env r s).2 ↔
      ReadsFit s.conn r := by
  cases r with
  | setxattr ino name value flags =>
    exact iff_of_true (outcome_of_ensures (P := fun s' out => AttrStep s.conn.attrs
      (.setxattr ino name value flags) s'.conn.attrs out)
      (setxattr_step h.readOnly hfails hask.1 hask.2)) trivial
  | removexattr ino name =>
    exact iff_of_true (outcome_of_ensures (P := fun s' out => AttrStep s.conn.attrs
      (.removexattr ino name) s'.conn.attrs out)
      (removexattr_step h.readOnly hfails hask.1)) trivial
  | getxattr ino name size =>
    have hspec := outcome_of_ensures (P := fun s' out => s' = s ∧
      ((∃ v, s.conn.attrs (asU32 ino) name = some v ∧ out = .replied (xattrReply size v)) ∨
        (s.conn.attrs (asU32 ino) name = none ∧ out = .replied (.error .ENODATA))))
      ((show (getxattr env ino name size).Ensures s _ _ from
        getxattr_spec h.rewind hfails hask.1).mono
        (fun _ _ ⟨hs, v, hv, hreply⟩ => ⟨hs, Or.inl ⟨v, hv, hreply ▸ rfl⟩⟩)
        fun _ _ ⟨hs, hv, he⟩ => ⟨hs, Or.inr ⟨hv, he ▸ rfl⟩⟩)
    rw [← show handle env (.getxattr ino name size) s = outcome (getxattr env ino name size) s
      from rfl] at hspec
    obtain ⟨hs, ⟨v, hv, hout⟩ | ⟨hv, hout⟩⟩ := hspec
    · rw [hs, hout]
      have hfit : ReadsFit s.conn (.getxattr ino name size) ↔ Fits size v.length :=
        ⟨fun hf => hf v hv, fun hf v' hv' => Option.some.inj (hv.symm.trans hv') ▸ hf⟩
      rw [hfit, ← xattrReply_eq_sized_iff]
      constructor
      · generalize hreply : xattrReply size v = reply
        intro hstep
        cases hstep with
        | got hv' => rw [Option.some.inj (hv.symm.trans hv')]
        | no_data hv' => exact absurd (hv.symm.trans hv') (by simp)
      · exact fun heq => heq ▸ .got hv
    · rw [hs, hout]
      exact iff_of_true (.no_data hv) fun v hv' => absurd (hv.symm.trans hv') (by simp)
  | listxattr ino size =>
    have hspec := outcome_of_ensures (P := fun s' out => s' = s ∧ out = .replied
      (xattrReply size (terminated (Sqlite.xattrList s.conn.xattr.rows (asU32 ino)))))
      ((show (listxattr env ino size).Ensures s _ _ from listxattr_spec h.rewind hfails).mono
        (fun _ _ ⟨hs, hreply⟩ => ⟨hs, hreply ▸ rfl⟩) fun _ _ h => h.elim)
    rw [← show handle env (.listxattr ino size) s = outcome (listxattr env ino size) s
      from rfl] at hspec
    rw [hspec.1, hspec.2]
    have hnames := s.conn.listsNames_xattrList (asU32 ino)
    have hdata := hplain.splitOn_xattrList (asU32 ino)
    rw [ReadsFit, ← xattrReply_eq_sized_iff]
    constructor
    · generalize hreply : xattrReply size _ = reply
      intro hstep
      cases hstep with
      | listed hnames' hdata' =>
        rw [hnames'.eq hnames, ← hdata] at hdata'
        have hjoin := congrArg (List.intercalate [0]) hdata'
        rw [List.intercalate_splitOn, List.intercalate_splitOn] at hjoin
        rw [hjoin]
    · exact fun heq => heq ▸ .listed hnames hdata
  | _ => exact hask.elim

end Handlers

/-! ### Names in the database -/

/-- If the request sets an attribute, its name is one that the kernel sends. -/
def SetsPlain : Request → Prop
  | .setxattr _ name _ _ => PlainName name
  | _ => True

end SqliteFs

namespace Db

variable {db db' : Db X}

/-- The second database has no attributes but those of the first. -/
def AttrsFrom (db db' : Db X) : Prop := ∀ i n, db'.attrs i n ≠ none → db'.attrs i n = db.attrs i n

theorem AttrsFrom.of_eq (h : db'.xattr = db.xattr) : db.AttrsFrom db' :=
  fun i n _ => by rw [attrs, h, attrs]

theorem AttrsFrom.trans {db'' : Db X} (h : db.AttrsFrom db') (h' : db'.AttrsFrom db'') :
    db.AttrsFrom db'' :=
  fun i n hn => (h' i n hn).trans (h i n (h' i n hn ▸ hn))

theorem AttrsFrom.plainNames (h : db.AttrsFrom db') (hdb : db.PlainNames) : db'.PlainNames :=
  fun i n hn => hdb i n (h i n hn ▸ hn)

theorem attrsFrom_deleteMetadata (db : Db X) (i : ℕ) : db.AttrsFrom (db.deleteMetadata i) := by
  intro j n hn
  unfold attrs at hn ⊢
  rw [xattr_find_deleteMetadata] at hn ⊢
  split_ifs at hn ⊢
  · exact absurd rfl hn
  · rfl

theorem attrsFrom_collect (db : Db X) (i : ℕ) : db.AttrsFrom (db.collect i) := by
  unfold collect
  split_ifs
  · exact db.attrsFrom_deleteMetadata i
  · exact .of_eq rfl

theorem attrsFrom_foldl {β : Type} {f : Db X → β → Db X}
    (hf : ∀ (db : Db X) b, db.AttrsFrom (f db b))
    (l : List β) (db : Db X) : db.AttrsFrom (l.foldl f db) := by
  induction l generalizing db with
  | nil => exact .of_eq rfl
  | cons b l ih => exact (hf db b).trans (ih _)

theorem attrsFrom_of_writeSteps {i : ℕ} (h : Relation.ReflTransGen (WriteStep i) db db') :
    db.AttrsFrom db' := by
  induction h with
  | refl => exact .of_eq rfl
  | tail _ hstep ih =>
    rcases hstep with h | ⟨k, bytes, size, h⟩
    · exact ih.trans (.of_eq h.xattr)
    · exact ih.trans (.of_eq h.xattr)

end Db

namespace SqliteFs

variable {s s' : SqliteFs X} {env : Env} {r : Request} {out : Outcome}

theorem Finishes.attrsFrom {db : Db X} {res : Option ℕ} (h : s.Finishes env db res s' out) :
    db.AttrsFrom s'.conn := by
  rcases h.conn_eq_or with h | ⟨i, -, h⟩
  · exact h ▸ .of_eq rfl
  · exact h ▸ db.attrsFrom_collect i

/-- A request adds no attributes, but for one that it sets. -/
theorem Effect.attrsFrom (h : Effect env s r s' out) :
    s.conn.AttrsFrom s'.conn ∨ ∃ ino name value flags, r = .setxattr ino name value flags ∧
      s'.conn.attrs = s.conn.attrs.set (asU32 ino) name (some value) := by
  cases h with
  | quiet h => exact Or.inl (.of_eq h.conn.xattr)
  | looked_up _ hdb _ hs => exact Or.inl (.of_eq (hs.conn_eq ▸ hdb.xattr))
  | made _ hdb hadd hcont hs =>
    refine Or.inl (.of_eq ?_)
    rw [hs.conn_eq]
    rcases hcont with rfl | ⟨link, -, -, hlink⟩
    · exact hadd.xattr.trans hdb.xattr
    · exact hlink.xattr.trans (hadd.xattr.trans hdb.xattr)
  | half_made _ hdb hadd hs => exact Or.inl (.of_eq (hs ▸ hadd.xattr.trans hdb.xattr))
  | linked h hs => exact Or.inl (.of_eq (hs.conn_eq ▸ h.rest.xattr))
  | removed _ hdb h _ hs =>
    exact Or.inl (.trans (.of_eq (h.rest.xattr.trans hdb.xattr)) hs.attrsFrom)
  | renamed _ h hs => exact Or.inl (.trans (.of_eq h.rest.xattr) hs.attrsFrom)
  | renamed_onto_itself _ h hs => exact Or.inl (.trans (.of_eq h.rest.xattr) hs.attrsFrom)
  | forgot h =>
    refine Or.inl ?_
    cases h with
    | ignored => exact .of_eq rfl
    | counted_down _ _ hconn =>
      rw [hconn]
      split_ifs
      · exact s.conn.attrsFrom_collect _
      · exact .of_eq rfl
    | too_much _ _ _ hconn => exact .of_eq (congrArg Db.xattr hconn)
  | swept _ hs => exact Or.inl (hs ▸ Db.attrsFrom_foldl Db.attrsFrom_deleteMetadata _ _)
  | destroyed _ hs => exact Or.inl (hs ▸ Db.attrsFrom_foldl Db.attrsFrom_collect _ _)
  | wrote h hs => exact Or.inl (hs ▸ Db.attrsFrom_of_writeSteps h)
  | updated _ _ h hs => exact Or.inl (.of_eq (hs ▸ h.xattr))
  | xattr_changed hr h hs =>
    rcases hr with ⟨flags, bytes, rfl, rfl⟩ | ⟨rfl, rfl⟩
    · exact Or.inr ⟨_, _, bytes, flags, rfl, hs ▸ h.attrs⟩
    · refine Or.inl fun i n hn => ?_
      rw [hs, conn_withConn, h.attrs] at hn ⊢
      unfold AttrMap.set at hn ⊢
      split_ifs at hn ⊢
      · exact absurd rfl hn
      · rfl

/-- The names of attributes have no NUL after a request if they had none before. -/
theorem Effect.plainNames (h : Effect env s r s' out) (hs : s.conn.PlainNames)
    (hr : SetsPlain r) : s'.conn.PlainNames := by
  rcases h.attrsFrom with hfrom | ⟨ino, name, value, flags, rfl, heq⟩
  · exact hfrom.plainNames hs
  · intro i n hn
    rw [heq, AttrMap.set] at hn
    split_ifs at hn with hk
    · exact (Prod.mk.inj hk).2 ▸ hr.nul
    · exact hs i n hn

/-- **The names of attributes come from the kernel.** -/
theorem plainNames_run (h : s.WritableMount) (hs : s.conn.PlainNames) (rs : List (Env × Request))
    (hr : ∀ r ∈ rs, SetsPlain r.2) : (s.run rs).conn.PlainNames :=
  (run_induction (I := fun s => s.WritableMount ∧ s.conn.PlainNames) rs
    (fun _ r hmem h => ⟨h.1.after r, (h.1.handle_effect r).plainNames h.2 (hr r hmem)⟩) s ⟨h, hs⟩).2

/-! ### Runs -/

/-- Each request of a run is an operation on the map of attributes. -/
def MapsAttrs (s : SqliteFs X) : List (Env × Request) → Prop
  | [] => True
  | r :: rs => AttrStep s.conn.attrs r.2 (s.after r).conn.attrs (handle r.1 r.2 s).2 ∧
    (s.after r).MapsAttrs rs

/-- The reads of a run find what has a size that does not wrap around. -/
def AllReadsFit (s : SqliteFs X) : List (Env × Request) → Prop
  | [] => True
  | r :: rs => ReadsFit s.conn r.2 ∧ (s.after r).AllReadsFit rs

theorem mapsAttrs_append {s : SqliteFs X} (rs rs' : List (Env × Request)) :
    s.MapsAttrs (rs ++ rs') ↔ s.MapsAttrs rs ∧ (s.run rs).MapsAttrs rs' := by
  induction rs generalizing s with
  | nil => exact (and_iff_right trivial).symm
  | cons r rs ih => exact (and_congr Iff.rfl ih).trans and_assoc.symm

theorem AsksAttrs.setsPlain {db : Db X} (h : AsksAttrs db r) : SetsPlain r := by
  cases r with
  | setxattr => exact h.1
  | _ => trivial

theorem AsksAttrs.congr {db db' : Db X}
    (hm : ∀ i, (db'.metadata.find i).isSome = (db.metadata.find i).isSome) :
    AsksAttrs db' r ↔ AsksAttrs db r := by
  cases r <;> simp only [AsksAttrs, hm]

/-- A request for attributes leaves the inodes there are. -/
theorem AsksAttrs.isSome (h : Effect env s r s' out) (hask : AsksAttrs s.conn r) (i : ℕ) :
    (s'.conn.metadata.find i).isSome = (s.conn.metadata.find i).isSome := by
  cases h with
  | quiet h => exact h.conn.metadata.isSome i
  | xattr_changed _ h hs => exact hs ▸ h.metadata.isSome i
  | looked_up hr => rcases hr with rfl | ⟨mode, rfl⟩ <;> exact hask.elim
  | made hr => cases r <;> first | exact hask.elim | simp [Request.makes] at hr
  | half_made hr => cases r <;> first | exact hask.elim | simp [Request.makes] at hr
  | removed hr => cases r <;> first | exact hask.elim | simp [Request.removes] at hr
  | _ => exact hask.elim

/-- **The extended attributes form a map for each inode** in a run if and only if no read of the run
finds more than `2 ^ 32` bytes and mistakes their size. The flags of `setxattr`, the order of the
names and the sizes of the readers are any. -/
theorem maps_attrs_iff (h : s.WritableMount) (hplain : s.conn.PlainNames)
    (rs : List (Env × Request))
    (hask : ∀ r ∈ rs, AsksAttrs s.conn r.2 ∧ ∀ c, r.1.fails c = false) :
    s.MapsAttrs rs ↔ s.AllReadsFit rs := by
  induction rs generalizing s with
  | nil => exact Iff.rfl
  | cons r rs ih =>
    obtain ⟨hr, hfails⟩ := hask r List.mem_cons_self
    have heff := h.handle_effect r
    refine and_congr (attrStep_iff h hplain hfails hr) ?_
    refine ih (h.after r) (heff.plainNames hplain hr.setsPlain) fun r' hr' => ?_
    have hr' := hask r' (List.mem_cons_of_mem _ hr')
    exact ⟨(AsksAttrs.congr (AsksAttrs.isSome heff hr)).2 hr'.1, hr'.2⟩

/-- An attribute without a value is set and listed. -/
theorem maps_attrs_iff_sample :
    sample.MapsAttrs [(.sample, .setxattr 1 [97] [] 0), (.sample, .listxattr 1 0)] ↔
      sample.AllReadsFit [(.sample, .setxattr 1 [97] [] 0), (.sample, .listxattr 1 0)] :=
  maps_attrs_iff ⟨rfl, rfl, by decide⟩ (fun _ _ h => absurd rfl h) _
    (by
      have hname : PlainName [97] := ⟨rfl, by decide, by decide⟩
      rintro r (- | ⟨-, - | ⟨-, ⟨⟩⟩⟩)
      · exact ⟨⟨hname, by decide⟩, fun _ => rfl⟩
      · exact ⟨show (sample.conn.metadata.find _).isSome by decide, fun _ => rfl⟩)

/-! ### A list that is too long -/

/-- A name of 255 bytes that starts with four digits of `k`, from 64 on. -/
def longName (k : ℕ) : Name :=
  [k % 64, k / 64 % 64, k / 4096 % 64, k / 262144 % 64].map (fun d => UInt8.ofNat (64 + d)) ++
    List.replicate 251 97

/-- As many attributes with long names as a `u32` has multiples of 256. -/
def manyNames (n : ℕ) : List (Env × Request) :=
  (List.range n).map fun k => (.sample, .setxattr 1 (longName k) [] 0)

theorem longName_inj {k k' : ℕ} (hk : k < 2 ^ 24) (hk' : k' < 2 ^ 24)
    (h : longName k = longName k') : k = k' := by
  have hdigit : ∀ d d', UInt8.ofNat (64 + d % 64) = UInt8.ofNat (64 + d' % 64) →
      d % 64 = d' % 64 := by
    intro d d' hd
    have := congrArg UInt8.toNat hd
    rw [UInt8.toNat_ofNat', UInt8.toNat_ofNat'] at this
    omega
  simp only [longName, List.map_cons, List.map_nil, List.cons_append, List.nil_append,
    List.cons.injEq, and_true] at h
  have h₀ := hdigit _ _ h.1
  have h₁ := hdigit _ _ h.2.1
  have h₂ := hdigit _ _ h.2.2.1
  have h₃ := hdigit _ _ h.2.2.2
  omega

theorem longName_bytes (k : ℕ) : ∀ b ∈ longName k, 0 < b ∧ b < 0x80 := by
  intro b hb
  rcases List.mem_append.1 hb with hb | hb
  · obtain ⟨d, hd, rfl⟩ := List.mem_map.1 hb
    have hlt : d < 64 := by
      simp only [List.mem_cons, List.not_mem_nil, or_false] at hd
      omega
    rw [UInt8.lt_iff_toNat_lt, UInt8.lt_iff_toNat_lt, UInt8.toNat_ofNat']
    exact ⟨show 0 < _ by omega, show _ < 128 by omega⟩
  · rw [List.eq_of_mem_replicate hb]
    decide

theorem plainName_longName (k : ℕ) : PlainName (longName k) where
  utf8 := isUtf8_of_ascii _ fun b hb => (longName_bytes k b hb).2
  ne_nil := List.cons_ne_nil _ _
  nul h := absurd (longName_bytes k 0 h).1 (by decide)

theorem length_terminated_of_forall {names : List Name} {m : ℕ} (h : ∀ n ∈ names, n.length = m) :
    (terminated names).length = names.length * (m + 1) := by
  induction names with
  | nil => simp [terminated]
  | cons n names ih =>
    have hn := h n List.mem_cons_self
    have ih := ih fun n' hn' => h n' (List.mem_cons_of_mem _ hn')
    rw [terminated] at ih ⊢
    rw [List.flatMap_cons, List.length_append, List.length_append, ih, hn, List.length_singleton,
      List.length_cons]
    ring

/-- The state after the requests to set many attributes. -/
theorem manyNames_run (n : ℕ) :
    (sample.run (manyNames n)).WritableMount ∧ (sample.run (manyNames n)).conn.PlainNames ∧
      ((sample.run (manyNames n)).conn.metadata.find 1).isSome ∧
      ∀ name, (sample.run (manyNames n)).conn.attrs 1 name ≠ none ↔
        ∃ k < n, name = longName k := by
  induction n with
  | zero =>
    refine ⟨⟨rfl, rfl, by decide⟩, fun _ _ h => absurd rfl h, by decide, fun name => ?_⟩
    exact ⟨fun h => absurd rfl h, fun ⟨k, hk, _⟩ => absurd hk (Nat.not_lt_zero k)⟩
  | succ n ih =>
    obtain ⟨hw, hplain, hrow, hattrs⟩ := ih
    have hrun : sample.run (manyNames (n + 1)) =
        (sample.run (manyNames n)).after (.sample, .setxattr 1 (longName n) [] 0) := by
      rw [manyNames, List.range_succ, List.map_append, run_append]
      rfl
    rw [hrun]
    generalize sample.run (manyNames n) = s at hw hplain hrow hattrs ⊢
    have hask : AsksAttrs s.conn (.setxattr 1 (longName n) [] 0) := ⟨plainName_longName n, hrow⟩
    have heff := hw.handle_effect (.sample, .setxattr 1 (longName n) [] 0)
    have hset : (s.after (.sample, .setxattr 1 (longName n) [] 0)).conn.attrs =
        s.conn.attrs.set 1 (longName n) (some []) := by
      have hcalls (c : Call) : Env.sample.fails c = false := rfl
      have hstep := (attrStep_iff hw hplain hcalls hask).2 trivial
      generalize hm : (handle .sample (.setxattr 1 (longName n) [] 0) s).1.conn.attrs = m at hstep
      refine Eq.trans hm ?_
      generalize (handle .sample (.setxattr 1 (longName n) [] 0) s).2 = reply at hstep
      cases hstep with
      | set => rfl
      | present hc => exact absurd hc (by decide)
      | absent hr => exact absurd hr (by decide)
    refine ⟨hw.after _, heff.plainNames hplain hask.setsPlain,
      (AsksAttrs.isSome heff hask 1).trans hrow, fun name => ?_⟩
    rw [hset, AttrMap.set]
    by_cases hname : name = longName n
    · rw [if_pos (by rw [hname])]
      exact iff_of_true (by simp) ⟨n, Nat.lt_succ_self n, hname⟩
    · rw [if_neg fun h => hname (Prod.mk.inj h).2, hattrs]
      constructor
      · exact fun ⟨k, hk, heq⟩ => ⟨k, hk.trans (Nat.lt_succ_self n), heq⟩
      · rintro ⟨k, hk, rfl⟩
        exact ⟨k, (Nat.lt_succ_iff_lt_or_eq.1 hk).resolve_right fun h => hname (h ▸ rfl), rfl⟩

/-- A list of many names, whose length wraps around, is taken to fit into any room. -/
theorem not_mapsAttrs_manyNames {n size : ℕ} (hn : n ≤ 2 ^ 24) (hlong : 2 ^ 32 ≤ n * 256)
    (hroom : size < n * 256) :
    ¬ sample.MapsAttrs (manyNames n ++ [(.sample, .listxattr 1 size)]) := by
  intro h
  have hlast := ((mapsAttrs_append _ _).1 h).2.1
  obtain ⟨hw, hplain, hrow, hattrs⟩ := manyNames_run n
  generalize sample.run (manyNames n) = s at hw hplain hrow hattrs hlast
  have hcalls (c : Call) : Env.sample.fails c = false := rfl
  have hfit := (attrStep_iff hw hplain hcalls
    (show AsksAttrs s.conn (.listxattr 1 size) from hrow)).1 hlast
  have hnames := s.conn.listsNames_xattrList 1
  have hperm : (Sqlite.xattrList s.conn.xattr.rows 1).Perm ((List.range n).map longName) := by
    refine (List.perm_ext_iff_of_nodup hnames.nodup ?_).2 fun name => ?_
    · refine List.nodup_range.map_on fun k hk k' hk' => ?_
      exact longName_inj ((List.mem_range.1 hk).trans_le hn) ((List.mem_range.1 hk').trans_le hn)
    · rw [hnames.mem_iff, Option.isSome_iff_ne_none, hattrs]
      simp only [List.mem_map, List.mem_range, eq_comm]
  have hlen : (terminated (Sqlite.xattrList s.conn.xattr.rows 1)).length = n * 256 := by
    have hlong : ∀ name ∈ Sqlite.xattrList s.conn.xattr.rows 1, name.length = 255 := by
      intro name hname
      obtain ⟨k, -, rfl⟩ := List.mem_map.1 (hperm.mem_iff.1 hname)
      rw [longName, List.length_append, List.length_map, List.length_replicate]
      rfl
    rw [length_terminated_of_forall hlong, hperm.length_eq, List.length_map, List.length_range]
  rw [ReadsFit, show asU32 1 = 1 from rfl, hlen] at hfit
  have hlen : n * 256 = 2 ^ 32 := by omega
  rw [hlen] at hfit hroom
  rcases hfit with hfit | ⟨-, hfit | hfit⟩
  · exact absurd hfit (lt_irrefl _)
  · exact absurd hfit (by simp)
  · exact absurd hroom (not_lt.2 hfit)

/-- The names of `2 ^ 24` attributes have `2 ^ 32` bytes, which are sent to a reader that has room
for one. -/
theorem list_of_many_names_outgrows_its_room :
    (∀ r ∈ manyNames (2 ^ 24) ++ [(.sample, .listxattr 1 1)],
      AsksAttrs sample.conn r.2 ∧ ∀ c, r.1.fails c = false) ∧
      ¬ sample.MapsAttrs (manyNames (2 ^ 24) ++ [(.sample, .listxattr 1 1)]) := by
  refine ⟨fun r hr => ?_, not_mapsAttrs_manyNames le_rfl (by norm_num) (by norm_num)⟩
  rcases List.mem_append.1 hr with hr | hr
  · obtain ⟨k, -, rfl⟩ := List.mem_map.1 hr
    exact ⟨⟨plainName_longName k, by decide⟩, fun _ => rfl⟩
  · obtain rfl := List.mem_singleton.1 hr
    exact ⟨show (sample.conn.metadata.find 1).isSome by decide, fun _ => rfl⟩

end SqliteFs

end TemporalFs
