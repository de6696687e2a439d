import Mathlib
import TemporalFs.Lib.TwoRuns
import TemporalFs.Db.Panics
import TemporalFs.Db.Init

/-!
# Databases that differ in times

Two connections may differ in their clocks and in whether they record times. The methods of `Sqlite`
then do the same to databases that hold the same but for times, provided that the times can be
read: they return the same, up to times, or fail for the same reason, and the databases hold the
same again.

## Main definitions

* `MetadataRow.SameButTimes`, `DBFileAttr.SameButTimes`: rows and attributes that differ in times.
* `Db.SameButTimes`: databases that do; `AlikeButTimes`: programs that do the same to them.
* `Db.Retimed`: a change that such a comparison does not see.

## Main results

* `alike_recording`: the times that one of the connections records are not seen.
* `Sqlite.alike_addInodeAndDentry`, `Sqlite.alike_moveDentry`, `Sqlite.alike_writeData` and so on:
  the methods.
-/

namespace TemporalFs

open Proc

variable {X : Externals}

/-! ### Times that are kept -/

/-- A time that `datetime()` keeps. -/
def SystemTime.Kept (t : SystemTime) : Prop := (datetime t.sec).isSome

/-- A stored time that can be read, and that `datetime()` keeps. -/
def TimeColumn.Kept (c : TimeColumn) : Prop := ∃ t, c.text = some t ∧ (datetime t).isSome

theorem Now.kept (now : Now) : now.1.Kept := now.datetime_isSome

theorem SystemTime.Kept.inChronoRange {t : SystemTime} (h : t.Kept) : inChronoRange t.sec :=
  inChronoRange_of_datetime h

theorem SystemTime.Kept.formatted {t : SystemTime} (h : t.Kept) : t.formatted.Kept := ⟨_, rfl, h⟩

theorem SystemTime.Kept.throughDatetime {t : SystemTime} (h : t.Kept) : t.throughDatetime.Kept := by
  have hin : -62167219200 ≤ t.sec ∧ t.sec ≤ 253402300799 := by
    by_contra hnot
    rw [SystemTime.Kept, datetime, if_neg hnot] at h
    exact absurd h (by simp)
  exact ⟨t.sec, if_pos hin, h⟩

theorem Now.kept_throughDatetime (now : Now) : now.1.throughDatetime.Kept :=
  now.kept.throughDatetime

theorem TimeColumn.Kept.exists_read {c : TimeColumn} (h : c.Kept) :
    ∃ t, stringToSystemtime c = some t ∧ t.Kept := by
  obtain ⟨sec, hsec, hkept⟩ := h
  exact ⟨⟨sec, c.nsec⟩, by rw [stringToSystemtime, hsec]; rfl, hkept⟩

/-! ### Rows and attributes -/

/-- The rows differ in their times, which are kept. -/
structure MetadataRow.SameButTimes (m m' : MetadataRow) : Prop where
  timeless : m.timeless = m'.timeless
  left : m.TimesIn TimeColumn.Kept
  right : m'.TimesIn TimeColumn.Kept

namespace MetadataRow.SameButTimes

variable {m m' : MetadataRow}

theorem symm (h : m.SameButTimes m') : m'.SameButTimes m := ⟨h.timeless.symm, h.right, h.left⟩

theorem id (h : m.SameButTimes m') : m.id = m'.id := by
  have hid := congrArg MetadataRow.id h.timeless
  exact hid

theorem size (h : m.SameButTimes m') : m.size = m'.size := by
  have hsize := congrArg MetadataRow.size h.timeless
  exact hsize

/-- A change of the times of the first row. -/
theorem set_left (h : m.SameButTimes m') {g : MetadataRow → MetadataRow}
    (hg : ∀ m, (g m).timeless = m.timeless) (htimes : ∀ m, m.TimesIn TimeColumn.Kept →
      (g m).TimesIn TimeColumn.Kept) :
    (g m).SameButTimes m' :=
  ⟨(hg m).trans h.timeless, htimes m h.left, h.right⟩

end MetadataRow.SameButTimes

/-- The attributes without their times. -/
def DBFileAttr.timeless (a : DBFileAttr) : DBFileAttr :=
  { a with atime := ⟨0, 0⟩, mtime := ⟨0, 0⟩, ctime := ⟨0, 0⟩, crtime := ⟨0, 0⟩ }

/-- All times of the attributes are kept. -/
def DBFileAttr.TimesKept (a : DBFileAttr) : Prop :=
  a.atime.Kept ∧ a.mtime.Kept ∧ a.ctime.Kept ∧ a.crtime.Kept

/-- The attributes differ in their times, which are kept. -/
structure DBFileAttr.SameButTimes (a a' : DBFileAttr) : Prop where
  timeless : a.timeless = a'.timeless
  left : a.TimesKept
  right : a'.TimesKept

/-- The attributes of rows that differ in their times. -/
theorem MetadataRow.SameButTimes.attr {m m' : MetadataRow} (h : m.SameButTimes m') (n : Option ℕ)
    (blocks : ℕ) :
    Option.Rel DBFileAttr.SameButTimes (m.attr n blocks) (m'.attr n blocks) := by
  obtain ⟨htimeless, hl, hr⟩ := h
  obtain ⟨at₁, hat₁, hka₁⟩ := hl.1.exists_read
  obtain ⟨mt₁, hmt₁, hkm₁⟩ := hl.2.1.exists_read
  obtain ⟨ct₁, hct₁, hkc₁⟩ := hl.2.2.1.exists_read
  obtain ⟨crt₁, hcrt₁, hkcr₁⟩ := hl.2.2.2.exists_read
  obtain ⟨at₂, hat₂, hka₂⟩ := hr.1.exists_read
  obtain ⟨mt₂, hmt₂, hkm₂⟩ := hr.2.1.exists_read
  obtain ⟨ct₂, hct₂, hkc₂⟩ := hr.2.2.1.exists_read
  obtain ⟨crt₂, hcrt₂, hkcr₂⟩ := hr.2.2.2.exists_read
  unfold MetadataRow.attr
  rw [hat₁, hmt₁, hct₁, hcrt₁, hat₂, hmt₂, hct₂, hcrt₂]
  cases n with
  | none => exact .none
  | some n =>
    refine .some ⟨?_, ⟨hka₁, hkm₁, hkc₁, hkcr₁⟩, hka₂, hkm₂, hkc₂, hkcr₂⟩
    have hcols := MetadataRow.mk.inj htimeless
    obtain ⟨hid, hsize, -, -, -, -, hkind, hmode, huid, hgid, hrdev, hflags⟩ := hcols
    simp only [DBFileAttr.timeless, hid, hsize, hkind, hmode, huid, hgid, hrdev, hflags]

/-- The results of queries for one row. -/
theorem matches_parseAttr {o o' : Option MetadataRow}
    (h : Option.Rel MetadataRow.SameButTimes o o') (n : ℕ → Option ℕ) (blocks : ℕ → ℕ) :
    Matches (Option.Rel DBFileAttr.SameButTimes) (@Eq Stop)
      (parseAttr (o.toList.map fun m => m.attr (n m.id) (blocks m.id)))
      (parseAttr (o'.toList.map fun m => m.attr (n m.id) (blocks m.id))) := by
  cases h with
  | none => exact .ok .none
  | @some m m' h =>
    have hattr := h.attr (n m.id) (blocks m.id)
    simp only [Option.toList_some, List.map_cons, List.map_nil, ← h.id]
    generalize m.attr (n m.id) (blocks m.id) = a at hattr ⊢
    generalize m'.attr (n m.id) (blocks m.id) = a' at hattr ⊢
    cases hattr with
    | some h => exact .ok (.some h)
    | none => exact .error rfl

/-! ### Databases -/

/-- The databases hold the same but for times, which can be read. -/
structure Db.SameButTimes (db db' : Db X) : Prop where
  metadata : db.metadata.Alike MetadataRow.SameButTimes db'.metadata
  dentry : db.dentry.rows = db'.dentry.rows
  data : db.data.rows = db'.data.rows
  xattr : db.xattr.rows = db'.xattr.rows
  sqliteSequence : db.sqliteSequence = db'.sqliteSequence

namespace Db.SameButTimes

variable {db db' : Db X}

theorem empty (clock clock' : ℕ → ℕ) : (Db.empty X clock).SameButTimes (Db.empty X clock') :=
  ⟨.empty fun _ _ h => h.id, rfl, rfl, rfl, rfl⟩

theorem symm (h : db.SameButTimes db') : db'.SameButTimes db :=
  ⟨h.metadata.symm fun _ _ h => h.symm, h.dentry.symm, h.data.symm, h.xattr.symm,
    h.sqliteSequence.symm⟩

theorem dentry_find (h : db.SameButTimes db') (k : ℕ × Name) :
    db.dentry.find k = db'.dentry.find k := by
  rw [AuditedTable.find, AuditedTable.find, h.dentry]

theorem data_find (h : db.SameButTimes db') (k : ℕ × ℕ) : db.data.find k = db'.data.find k := by
  rw [AuditedTable.find, AuditedTable.find, h.data]

theorem xattr_find (h : db.SameButTimes db') (k : ℕ × Name) :
    db.xattr.find k = db'.xattr.find k := by
  rw [AuditedTable.find, AuditedTable.find, h.xattr]

theorem isSome_metadata (h : db.SameButTimes db') (i : ℕ) :
    (db.metadata.find i).isSome ↔ (db'.metadata.find i).isSome := by
  rw [h.metadata.isSome_find]

theorem insertMetadata (h : db.SameButTimes db') {m m' : MetadataRow} (hm : m.SameButTimes m') :
    (db.insertMetadata m).SameButTimes (db'.insertMetadata m') where
  metadata := by
    have hid : (m.withId (db.sqliteSequence + 1)).SameButTimes
        (m'.withId (db'.sqliteSequence + 1)) := by
      refine ⟨?_, hm.left, hm.right⟩
      rw [h.sqliteSequence]
      exact congrArg (fun m : MetadataRow => m.withId (db'.sqliteSequence + 1)) hm.timeless
    exact h.metadata.put hid _ _
  dentry := h.dentry
  data := h.data
  xattr := h.xattr
  sqliteSequence := congrArg (· + 1) h.sqliteSequence

theorem updateMetadata (h : db.SameButTimes db') (i : ℕ) {f g : MetadataRow → MetadataRow}
    (hfg : ∀ m m', m.SameButTimes m' → (f m).SameButTimes (g m')) :
    (db.updateMetadata i f).SameButTimes (db'.updateMetadata i g) where
  metadata := by
    refine h.metadata.update (fun m m' hm => ?_) _ _ _ (metadataSpec_key_withId f)
      (metadataSpec_key_withId g)
    obtain ⟨htimeless, hl, hr⟩ := hfg m m' hm
    refine ⟨?_, hl, hr⟩
    have hrow := congrArg (fun x : MetadataRow => x.withId m.id) htimeless
    rw [← hm.id]
    exact hrow
  dentry := h.dentry
  data := h.data
  xattr := h.xattr
  sqliteSequence := h.sqliteSequence

theorem insertDentry (h : db.SameButTimes db') (e : DentryRow) :
    Option.Rel Db.SameButTimes (db.insertDentry e) (db'.insertDentry e) := by
  unfold Db.insertDentry
  by_cases hc : db.dentry.find (e.parentId, e.name) = none ∧
      (db.metadata.find e.parentId).isSome ∧ (db.metadata.find e.childId).isSome
  · have hc' := hc
    rw [h.dentry_find, h.isSome_metadata, h.isSome_metadata] at hc'
    rw [dif_pos hc, dif_pos hc']
    refine .some ⟨h.metadata, ?_, h.data, h.xattr, h.sqliteSequence⟩
    simp only [AuditedTable.put, AuditedTable.change, h.dentry]
  · have hc' := hc
    rw [h.dentry_find, h.isSome_metadata, h.isSome_metadata] at hc'
    rw [dif_neg hc, dif_neg hc']
    exact .none

/-- An update that goes through on one side does so on the other. -/
theorem exists_updateDentry (h : db.SameButTimes db') {p : ℕ} {n : Name} {f : DentryRow → DentryRow}
    {db₁ : Db X} (hu : db.updateDentry p n f = some db₁) :
    ∃ db₁', db'.updateDentry p n f = some db₁' ∧ db₁.SameButTimes db₁' := by
  cases he : db.dentry.find (p, n) with
  | none =>
    obtain rfl := Option.some.inj ((Db.updateDentry_of_find_none he f).symm.trans hu)
    exact ⟨db', Db.updateDentry_of_find_none ((h.dentry_find _).symm.trans he) f, h⟩
  | some e =>
    have he' := (h.dentry_find _).symm.trans he
    obtain ⟨hp, hc, hm, hd, hb, hx, hs⟩ := Db.updateDentry_eq_some he hu
    have hfree := AuditedTable.find_key_of_rekey he hd
    rw [dentrySpec_key, h.dentry_find] at hfree
    obtain ⟨db₁', hu'⟩ := Db.updateDentry_isSome he' hfree ((h.isSome_metadata _).1 hp)
      ((h.isSome_metadata _).1 hc)
    obtain ⟨-, -, hm', hd', hb', hx', hs'⟩ := Db.updateDentry_eq_some he' hu'
    have hrows := AuditedTable.rows_rekey_congr h.dentry rfl db.now db'.now (p, n) f
    rw [hd, hd'] at hrows
    exact ⟨db₁', hu', hm ▸ hm' ▸ h.metadata, Option.some.inj hrows, hb ▸ hb' ▸ h.data,
      hx ▸ hx' ▸ h.xattr, hs.trans (h.sqliteSequence.trans hs'.symm)⟩

theorem updateDentry (h : db.SameButTimes db') (p : ℕ) (n : Name) (f : DentryRow → DentryRow) :
    Option.Rel Db.SameButTimes (db.updateDentry p n f) (db'.updateDentry p n f) := by
  cases hu : db.updateDentry p n f with
  | some db₁ =>
    obtain ⟨db₁', hu', h₁⟩ := h.exists_updateDentry hu
    rw [hu']
    exact .some h₁
  | none =>
    cases hu' : db'.updateDentry p n f with
    | none => exact .none
    | some db₁' =>
      obtain ⟨db₁, hu₁, -⟩ := h.symm.exists_updateDentry hu'
      exact absurd (hu.symm.trans hu₁) (by simp)

theorem deleteDentryRow (h : db.SameButTimes db') (p : ℕ) (n : Name) :
    (db.deleteDentryRow p n).SameButTimes (db'.deleteDentryRow p n) :=
  ⟨h.metadata, by simp only [Db.deleteDentryRow, AuditedTable.rows_erase, h.dentry], h.data,
    h.xattr, h.sqliteSequence⟩

theorem deleteDataRow (h : db.SameButTimes db') (i k : ℕ) :
    (db.deleteDataRow i k).SameButTimes (db'.deleteDataRow i k) :=
  ⟨h.metadata, h.dentry, by simp only [Db.deleteDataRow, AuditedTable.rows_erase, h.data], h.xattr,
    h.sqliteSequence⟩

theorem deleteXattrRow (h : db.SameButTimes db') (i : ℕ) (n : Name) :
    (db.deleteXattrRow i n).SameButTimes (db'.deleteXattrRow i n) :=
  ⟨h.metadata, h.dentry, h.data, by simp only [Db.deleteXattrRow, AuditedTable.rows_erase, h.xattr],
    h.sqliteSequence⟩

theorem replaceData (h : db.SameButTimes db') (r : DataRow) :
    Option.Rel Db.SameButTimes (db.replaceData r) (db'.replaceData r) := by
  unfold Db.replaceData
  by_cases hc : (db.metadata.find r.fileId).isSome
  · rw [dif_pos hc, dif_pos ((h.isSome_metadata _).1 hc)]
    refine .some ⟨h.metadata, h.dentry, ?_, h.xattr, h.sqliteSequence⟩
    simp only [AuditedTable.put, AuditedTable.change, h.data]
  · rw [dif_neg hc, dif_neg fun hc' => hc ((h.isSome_metadata _).2 hc')]
    exact .none

theorem upsertData (h : db.SameButTimes db') (r : DataRow) :
    Option.Rel Db.SameButTimes (db.upsertData r) (db'.upsertData r) := by
  unfold Db.upsertData
  rw [h.data_find]
  split
  · refine .some ⟨h.metadata, h.dentry, ?_, h.xattr, h.sqliteSequence⟩
    simp only [Db.updateData, AuditedTable.rows_update, h.data]
  · exact h.replaceData r

theorem replaceXattr (h : db.SameButTimes db') (r : XattrRow) :
    Option.Rel Db.SameButTimes (db.replaceXattr r) (db'.replaceXattr r) := by
  unfold Db.replaceXattr
  by_cases hc : (db.metadata.find r.fileId).isSome
  · rw [dif_pos hc, dif_pos ((h.isSome_metadata _).1 hc)]
    refine .some ⟨h.metadata, h.dentry, h.data, ?_, h.sqliteSequence⟩
    simp only [AuditedTable.put, AuditedTable.change, h.xattr]
  · rw [dif_neg hc, dif_neg fun hc' => hc ((h.isSome_metadata _).2 hc')]
    exact .none

theorem deleteDentryWhere (h : db.SameButTimes db') (p : DentryRow → Bool) :
    (db.deleteDentryWhere p).SameButTimes (db'.deleteDentryWhere p) := by
  unfold Db.deleteDentryWhere
  rw [h.dentry]
  exact List.foldl_rel h fun e _ _ _ h => h.deleteDentryRow e.parentId e.name

theorem deleteDataWhere (h : db.SameButTimes db') (p : DataRow → Bool) :
    (db.deleteDataWhere p).SameButTimes (db'.deleteDataWhere p) := by
  unfold Db.deleteDataWhere
  rw [h.data]
  exact List.foldl_rel h fun r _ _ _ h => h.deleteDataRow r.fileId r.blockNum

theorem deleteXattrWhere (h : db.SameButTimes db') (p : XattrRow → Bool) :
    (db.deleteXattrWhere p).SameButTimes (db'.deleteXattrWhere p) := by
  unfold Db.deleteXattrWhere
  rw [h.xattr]
  exact List.foldl_rel h fun r _ _ _ h => h.deleteXattrRow r.fileId r.name

theorem cascade (h : db.SameButTimes db') (i : ℕ) : (db.cascade i).SameButTimes (db'.cascade i) :=
  (((h.deleteXattrWhere _).deleteDataWhere _).deleteDentryWhere _).deleteDentryWhere _

theorem deleteMetadata (h : db.SameButTimes db') (i : ℕ) :
    (db.deleteMetadata i).SameButTimes (db'.deleteMetadata i) := by
  have hc := h.cascade i
  unfold Db.deleteMetadata
  split
  · rename_i hnone
    split
    · exact h
    · rename_i m hm
      exact absurd ((h.metadata.find_eq_none_iff i).1 hnone) (by simp [hm])
  · rename_i m hm
    split
    · rename_i hnone
      exact absurd ((h.metadata.find_eq_none_iff i).2 hnone) (by simp [hm])
    · exact ⟨hc.metadata.erase _ _ _, hc.dentry, hc.data, hc.xattr, hc.sqliteSequence⟩

end Db.SameButTimes

/-! ### Local functions -/

/-- Runs of the programs from databases that differ in times end alike. -/
abbrev AlikeButTimes {α β : Type} (V : α → β → Prop) (x : Conn X α) (y : Conn X β) : Prop :=
  Alike Db.SameButTimes V Eq x y

section Local

theorem alike_execute {f g : Db X → Option (Db X)}
    (h : ∀ db db', db.SameButTimes db' → Option.Rel Db.SameButTimes (f db) (g db')) :
    AlikeButTimes Eq (execute f) (execute g) :=
  alike_step rfl h

theorem alike_executeAll {f g : Db X → Db X}
    (h : ∀ db db', db.SameButTimes db' → (f db).SameButTimes (g db')) :
    AlikeButTimes Eq (executeAll f) (executeAll g) :=
  alike_modify h

theorem alike_query {α β : Type} {V : α → β → Prop} {f : Db X → Except Stop α}
    {g : Db X → Except Stop β} (h : ∀ db db', db.SameButTimes db' → Matches V Eq (f db) (g db')) :
    AlikeButTimes V (query f) (query g) := by
  refine alike_bind alike_get fun db db' hdb => ?_
  have hfg := h db db' hdb
  generalize f db = r at hfg ⊢
  generalize g db' = r' at hfg ⊢
  cases hfg with
  | ok hV => exact alike_pure hV
  | error he => exact alike_stop he

/-- A time that is kept is a date. -/
theorem alike_utcFrom {t t' : SystemTime} (ht : t.Kept) (ht' : t'.Kept) :
    AlikeButTimes (fun u u' => u = t ∧ u' = t') (utcFrom t : Conn X SystemTime) (utcFrom t') :=
  alike_bind_eq (alike_require (iff_of_true ht.inChronoRange ht'.inChronoRange) rfl) fun _ =>
    alike_pure ⟨rfl, rfl⟩

theorem matches_inodeAttr {db db' : Db X} (h : db.SameButTimes db') (i : ℕ) :
    Matches (Option.Rel DBFileAttr.SameButTimes) Eq (inodeAttr i db) (inodeAttr i db') := by
  unfold inodeAttr
  rw [← h.dentry, ← h.data]
  exact matches_parseAttr (h.metadata.find i) (fun _ => nlink db.dentry.rows i)
    fun _ => countBlocks db.data.rows i

theorem alike_getInodeLocal (i : ℕ) :
    AlikeButTimes (Option.Rel DBFileAttr.SameButTimes) (getInodeLocal i : Conn X _)
      (getInodeLocal i) :=
  alike_query fun _ _ h => matches_inodeAttr h i

theorem alike_getDentrySingle (p : ℕ) (n : Name) :
    AlikeButTimes Eq (getDentrySingle p n : Conn X _) (getDentrySingle p n) :=
  alike_bind alike_get fun db db' h => alike_pure (by rw [h.dentry_find])

theorem alike_releaseData (i : ℕ) (offset : UInt32) :
    AlikeButTimes Eq (releaseData i offset : Conn X Unit) (releaseData i offset) := by
  refine alike_ite Iff.rfl (alike_executeAll fun _ _ h => h.deleteDataWhere _)
    (alike_ite Iff.rfl (alike_executeAll fun _ _ h => h.deleteDataWhere _)
      (alike_bind alike_get fun db db' h => ?_))
  rw [h.data_find]
  exact alike_bind_eq (alike_execute fun _ _ h => h.replaceData _) fun _ =>
    alike_executeAll fun _ _ h => h.deleteDataWhere _

theorem alike_addDentry (e : DEntry) : AlikeButTimes Eq (addDentry e : Conn X Unit) (addDentry e) :=
  alike_execute fun _ _ h => h.insertDentry _

theorem alike_deleteDentryLocal (p : ℕ) (n : Name) :
    AlikeButTimes Eq (deleteDentryLocal p n : Conn X Unit) (deleteDentryLocal p n) :=
  alike_when Iff.rfl (alike_executeAll fun _ _ h => h.deleteDentryRow p n)

theorem alike_deleteSubDentry (i : ℕ) :
    AlikeButTimes Eq (deleteSubDentry i : Conn X Unit) (deleteSubDentry i) :=
  alike_executeAll fun _ _ h => h.deleteDentryWhere _

theorem alike_checkDirectoryIsEmptyLocal (i : ℕ) :
    AlikeButTimes Eq (checkDirectoryIsEmptyLocal i : Conn X Bool)
      (checkDirectoryIsEmptyLocal i) :=
  alike_bind alike_get fun _ _ h => alike_pure (by rw [h.dentry])

theorem alike_addInodeLocal {attr attr' : DBFileAttr} (h : attr.SameButTimes attr') :
    AlikeButTimes Eq (addInodeLocal attr : Conn X ℕ) (addInodeLocal attr') := by
  obtain ⟨htimeless, hl, hr⟩ := h
  refine alike_bind (alike_utcFrom hl.1 hr.1) fun at₁ at₂ hat => ?_
  refine alike_bind (alike_utcFrom hl.2.1 hr.2.1) fun mt₁ mt₂ hmt => ?_
  refine alike_bind (alike_utcFrom hl.2.2.1 hr.2.2.1) fun ct₁ ct₂ hct => ?_
  refine alike_bind (alike_utcFrom hl.2.2.2 hr.2.2.2) fun crt₁ crt₂ hcrt => ?_
  obtain ⟨rfl, rfl⟩ := hat
  obtain ⟨rfl, rfl⟩ := hmt
  obtain ⟨rfl, rfl⟩ := hct
  obtain ⟨rfl, rfl⟩ := hcrt
  refine alike_bind_eq (alike_executeAll fun db db' h => h.insertMetadata ⟨?_, ?_, ?_⟩) fun _ => ?_
  · obtain ⟨-, hsize, -, -, -, -, -, hkind, hperm, -, huid, hgid, hrdev, hflags⟩ :=
      DBFileAttr.mk.inj htimeless
    simp only [MetadataRow.timeless, hsize, hkind, hperm, huid, hgid, hrdev, hflags]
  · exact ⟨hl.1.formatted, hl.2.1.formatted, hl.2.2.1.formatted, hl.2.2.2.formatted⟩
  · exact ⟨hr.1.formatted, hr.2.1.formatted, hr.2.2.1.formatted, hr.2.2.2.formatted⟩
  · refine alike_bind alike_get fun db db' h => ?_
    rw [h.sqliteSequence]
    exact alike_bind_eq (alike_require Iff.rfl rfl) fun _ => alike_pure rfl

end Local

/-! ### Recording times -/

/-- The second database is the first one with other times, provided that those could be read. -/
def Db.Retimed (db db' : Db X) : Prop :=
  ∀ db₀, db.SameButTimes db₀ → db'.SameButTimes db₀

theorem Db.Retimed.refl (db : Db X) : db.Retimed db := fun _ h => h

theorem Db.Retimed.trans {db db' db'' : Db X} (h : db.Retimed db') (h' : db'.Retimed db'') :
    db.Retimed db'' := fun db₀ h₀ => h' db₀ (h db₀ h₀)

theorem Db.retimed_updateMetadata (db : Db X) (i : ℕ) {g : MetadataRow → MetadataRow}
    (hg : ∀ m, ((g m).withId m.id).timeless = m.timeless)
    (htimes : ∀ m, m.TimesIn TimeColumn.Kept → (g m).TimesIn TimeColumn.Kept) :
    db.Retimed (db.updateMetadata i g) := fun _ h =>
  ⟨h.metadata.update_left (fun _ _ hm => hm.set_left hg htimes) _ _ (metadataSpec_key_withId g),
    h.dentry, h.data, h.xattr, h.sqliteSequence⟩

section Recording

variable (i : ℕ) (now : Now)

theorem touches_updateAtime : (updateAtime i now : Conn X Unit).Touches Db.Retimed :=
  touches_modify fun db => db.retimed_updateMetadata i (fun _ => rfl) fun _ hm =>
    ⟨now.kept_throughDatetime, hm.2⟩

theorem touches_updateMtime : (updateMtime i now : Conn X Unit).Touches Db.Retimed :=
  touches_modify fun db => db.retimed_updateMetadata i (fun _ => rfl) fun _ hm =>
    ⟨hm.1, now.kept_throughDatetime, hm.2.2⟩

theorem touches_updateCtime : (updateCtime i now : Conn X Unit).Touches Db.Retimed :=
  touches_modify fun db => db.retimed_updateMetadata i (fun _ => rfl) fun _ hm =>
    ⟨hm.1, hm.2.1, now.kept_throughDatetime, hm.2.2.2⟩

theorem touches_updateMtime_ctime : (do
    updateMtime i now
    updateCtime i now : Conn X Unit).Touches Db.Retimed :=
  touches_bind (fun h h' => h.trans h') (touches_updateMtime i now) (touches_updateCtime i now)

end Recording

/-- **The times that a connection records** are not seen, whether the other one records some. -/
theorem alike_recording {c c' : Prop} [Decidable c] [Decidable c'] {x y : Conn X Unit}
    (hx : x.Touches Db.Retimed) (hy : y.Touches Db.Retimed) :
    AlikeButTimes Eq (when c x) (when c' y) :=
  alike_of_touches (fun h h₁ h₂ => (h₂ _ (h₁ _ h).symm).symm) (touches_when Db.Retimed.refl hx)
    (touches_when Db.Retimed.refl hy)

/-! ### Methods -/

namespace Sqlite

variable (self self' : Sqlite) (now now' : Now)

theorem alike_getInode (i : ℕ) : AlikeButTimes (Option.Rel DBFileAttr.SameButTimes)
    (self.getInode i : Conn X _) (self'.getInode i) :=
  alike_getInodeLocal i

theorem alike_addInodeAndDentry (p : ℕ) (n : Name) {attr attr' : DBFileAttr}
    (h : attr.SameButTimes attr') : AlikeButTimes Eq
      (self.addInodeAndDentry now p n attr : Conn X ℕ)
      (self'.addInodeAndDentry now' p n attr') := by
  have hkind : attr.kind = attr'.kind := by
    have hkind := congrArg DBFileAttr.kind h.timeless
    exact hkind
  refine alike_atomically (alike_bind_eq (alike_addInodeLocal h) fun child => ?_)
  rw [hkind]
  refine alike_bind_eq (alike_addDentry _) fun _ => ?_
  refine alike_bind_eq (alike_when Iff.rfl ?_) fun _ => ?_
  · exact alike_bind_eq (alike_addDentry _) fun _ => alike_addDentry _
  · exact alike_bind_eq (alike_recording (touches_updateMtime_ctime p now)
      (touches_updateMtime_ctime p now')) fun _ => alike_pure rfl

theorem alike_updateInode {attr attr' : DBFileAttr} (h : attr.SameButTimes attr')
    (truncate : Bool) : AlikeButTimes Eq (self.updateInode now attr truncate : Conn X Unit)
      (self'.updateInode now' attr' truncate) := by
  obtain ⟨htimeless, hl, hr⟩ := h
  obtain ⟨hino, hsize, -, -, -, -, -, -, hperm, -, huid, hgid, hrdev, hflags⟩ :=
    DBFileAttr.mk.inj htimeless
  unfold updateInode
  rw [hino, hsize]
  refine alike_atomically (alike_bind (alike_getInodeLocal _) fun o o' ho => ?_)
  refine alike_bind (alike_ofOption ho rfl) fun old old' hold => ?_
  have holdsize : old.size = old'.size := by
    have hsize := congrArg DBFileAttr.size hold.timeless
    exact hsize
  refine alike_bind (alike_utcFrom hl.1 hr.1) fun at₁ at₂ hat => ?_
  have hmtime : AlikeButTimes (fun u u' => u.Kept ∧ u'.Kept)
      (if old.size ≠ attr'.size then pure now.1 else utcFrom attr.mtime : Conn X SystemTime)
      (if old'.size ≠ attr'.size then pure now'.1 else utcFrom attr'.mtime) := by
    rw [holdsize]
    refine alike_ite Iff.rfl (alike_pure ⟨now.kept, now'.kept⟩) ?_
    refine (alike_utcFrom hl.2.1 hr.2.1).mono fun u u' hu => ?_
    exact ⟨hu.1 ▸ hl.2.1, hu.2 ▸ hr.2.1⟩
  refine alike_bind hmtime fun mt₁ mt₂ hmt => ?_
  refine alike_bind (alike_utcFrom hl.2.2.2 hr.2.2.2) fun crt₁ crt₂ hcrt => ?_
  obtain ⟨rfl, rfl⟩ := hat
  obtain ⟨rfl, rfl⟩ := hcrt
  refine alike_bind_eq (alike_executeAll fun db db' h => ?_) fun _ =>
    alike_when Iff.rfl (alike_releaseData _ _)
  refine h.updateMetadata _ fun m m' hm => ⟨?_, ?_, ?_⟩
  · have hrow := hm.timeless
    obtain ⟨hid, -, -, -, -, -, hkind, -⟩ := MetadataRow.mk.inj hrow
    simp only [setInode, MetadataRow.timeless, hid, hkind, hsize, hperm, huid, hgid, hrdev, hflags]
  · exact ⟨hl.1.throughDatetime, hmt.1.throughDatetime, now.kept_throughDatetime,
      hl.2.2.2.throughDatetime⟩
  · exact ⟨hr.1.throughDatetime, hmt.2.throughDatetime, now'.kept_throughDatetime,
      hr.2.2.2.throughDatetime⟩

theorem alike_deleteInodeIfNoref (i : ℕ) :
    AlikeButTimes Eq (self.deleteInodeIfNoref i : Conn X Unit) (self'.deleteInodeIfNoref i) :=
  alike_atomically <| alike_bind alike_get fun _ _ h =>
    alike_when (by rw [h.dentry]) (alike_executeAll fun _ _ h => h.deleteMetadata i)

theorem alike_getDentry (i : ℕ) :
    AlikeButTimes Eq (self.getDentry i : Conn X (List DEntry)) (self'.getDentry i) :=
  alike_bind alike_get fun _ _ h => alike_pure (by rw [h.dentry])

theorem alike_linkDentry (i p : ℕ) (n : Name) : AlikeButTimes DBFileAttr.SameButTimes
    (self.linkDentry now i p n : Conn X DBFileAttr) (self'.linkDentry now' i p n) := by
  refine alike_atomically (alike_bind (alike_getInodeLocal _) fun o o' ho => ?_)
  refine alike_bind (alike_ofOption ho rfl) fun attr attr' hattr => ?_
  have hkind : attr.kind = attr'.kind := by
    have hkind := congrArg DBFileAttr.kind hattr.timeless
    exact hkind
  refine alike_bind_eq (alike_require (by rw [hkind]) rfl) fun _ => ?_
  refine alike_bind_eq (alike_getDentrySingle _ _) fun new_inode => ?_
  refine alike_bind_eq (alike_require Iff.rfl rfl) fun _ => ?_
  refine alike_bind_eq (alike_addDentry _) fun _ => ?_
  refine alike_bind_eq (alike_recording ?_ ?_) fun _ => alike_pure hattr
  · exact touches_bind (fun h h' => h.trans h') (touches_updateMtime i now)
      (touches_updateMtime_ctime p now)
  · exact touches_bind (fun h h' => h.trans h') (touches_updateMtime i now')
      (touches_updateMtime_ctime p now')

theorem alike_deleteDentry (p : ℕ) (n : Name) :
    AlikeButTimes Eq (self.deleteDentry now p n : Conn X ℕ) (self'.deleteDentry now' p n) := by
  refine alike_atomically (alike_bind alike_get fun db db' h => ?_)
  rw [h.dentry_find]
  refine alike_bind_eq (alike_ofOption_eq rfl) fun row => ?_
  refine alike_bind_eq (alike_deleteDentryLocal p n) fun _ => ?_
  refine alike_bind_eq (alike_deleteSubDentry _) fun _ => ?_
  refine alike_bind_eq (alike_recording ?_ ?_) fun _ => alike_pure rfl
  · exact touches_bind (fun h h' => h.trans h') (touches_updateCtime _ now)
      (touches_updateMtime_ctime p now)
  · exact touches_bind (fun h h' => h.trans h') (touches_updateCtime _ now')
      (touches_updateMtime_ctime p now')

theorem alike_overwriteDentry (kind : FileType) (p : ℕ) (n : Name) (o : Option DEntry) :
    AlikeButTimes Eq (overwriteDentry kind p n o : Conn X (Option ℕ))
      (overwriteDentry kind p n o) := by
  cases o with
  | none => exact alike_pure rfl
  | some v =>
    refine alike_bind_eq (alike_require Iff.rfl rfl) fun _ => ?_
    refine alike_bind_eq (alike_when Iff.rfl ?_) fun _ => ?_
    · exact alike_bind_eq (alike_checkDirectoryIsEmptyLocal _) fun _ =>
        alike_require Iff.rfl rfl
    · exact alike_bind_eq (alike_deleteDentryLocal p n) fun _ => alike_pure rfl

/-- What `moveDentry` records. -/
theorem touches_moved (i p q : ℕ) : (do
    updateCtime i now
    updateMtime p now
    updateCtime p now
    when (p ≠ q) do
      updateMtime q now
      updateCtime q now : Conn X Unit).Touches Db.Retimed :=
  touches_bind (fun h h' => h.trans h') (touches_updateCtime i now) <|
    touches_bind (fun h h' => h.trans h') (touches_updateMtime p now) <|
      touches_bind (fun h h' => h.trans h') (touches_updateCtime p now) <|
        touches_when Db.Retimed.refl (touches_updateMtime_ctime q now)

theorem alike_moveDentry (p : ℕ) (n : Name) (q : ℕ) (n' : Name) :
    AlikeButTimes Eq (self.moveDentry now p n q n' : Conn X (Option ℕ))
      (self'.moveDentry now' p n q n') := by
  refine alike_atomically (alike_bind_eq (alike_getDentrySingle _ _) fun o => ?_)
  refine alike_bind_eq (alike_ofOption_eq rfl) fun e => ?_
  refine alike_bind_eq (alike_getDentrySingle _ _) fun exist_entry => ?_
  refine alike_bind_eq (alike_overwriteDentry _ _ _ _) fun res => ?_
  refine alike_bind_eq (alike_execute fun _ _ h => h.updateDentry _ _ _) fun _ => ?_
  refine alike_bind_eq (alike_when Iff.rfl (alike_execute fun _ _ h => h.updateDentry _ _ _))
    fun _ => ?_
  exact alike_bind_eq (alike_recording (touches_moved now _ p q) (touches_moved now' _ p q))
    fun _ => alike_pure rfl

theorem alike_checkDirectoryIsEmpty (i : ℕ) :
    AlikeButTimes Eq (self.checkDirectoryIsEmpty i : Conn X Bool)
      (self'.checkDirectoryIsEmpty i) :=
  alike_checkDirectoryIsEmptyLocal i

theorem matches_lookupAttr {db db' : Db X} (h : db.SameButTimes db') (p : ℕ) (n : Name) :
    Matches (Option.Rel DBFileAttr.SameButTimes) Eq (lookupAttr p n db) (lookupAttr p n db') := by
  have hrow : Option.Rel MetadataRow.SameButTimes
      ((db.dentry.find (p, n)).bind fun e => db.metadata.find e.childId)
      ((db'.dentry.find (p, n)).bind fun e => db'.metadata.find e.childId) := by
    rw [h.dentry_find]
    cases db'.dentry.find (p, n) with
    | none => exact .none
    | some e => exact h.metadata.find e.childId
  unfold lookupAttr
  rw [← h.dentry, ← h.data]
  exact matches_parseAttr hrow (TemporalFs.nlink db.dentry.rows)
    (lookupBlocks X.bareRow db.data.rows)

theorem alike_lookup (p : ℕ) (n : Name) : AlikeButTimes (Option.Rel DBFileAttr.SameButTimes)
    (self.lookup now p n : Conn X _) (self'.lookup now' p n) :=
  alike_bind alike_get fun _ _ h =>
    alike_bind_eq (alike_recording (touches_updateAtime p now) (touches_updateAtime p now'))
      fun _ => alike_query fun _ _ _ => matches_lookupAttr h p n

theorem alike_getData (i k length : ℕ) :
    AlikeButTimes Eq (self.getData now i k length : Conn X Bytes)
      (self'.getData now' i k length) := by
  refine alike_atomically (alike_bind alike_get fun db db' h => ?_)
  rw [h.data_find]
  exact alike_bind_eq (alike_recording (touches_updateAtime i now) (touches_updateAtime i now'))
    fun _ => alike_pure rfl

theorem alike_writeData (hext : self.extensions = self'.extensions) (i k : ℕ) (data : Bytes)
    (size : UInt32) : AlikeButTimes Eq (self.writeData now i k data size : Conn X Unit)
      (self'.writeData now' i k data size) := by
  refine alike_atomically (alike_bind alike_get fun db db' h => ?_)
  refine alike_bind (alike_ofOption (h.metadata.find i) rfl) fun row row' hrow => ?_
  refine alike_bind_eq (alike_require (by rw [hext]) rfl) fun _ => ?_
  refine alike_bind_eq (alike_execute fun _ _ h => h.upsertData _) fun _ => ?_
  refine alike_bind_eq (alike_when (by rw [hrow.size]) (alike_executeAll fun _ _ h => ?_))
    fun _ => alike_recording (touches_updateMtime_ctime i now) (touches_updateMtime_ctime i now')
  refine h.updateMetadata i fun m m' hm => ⟨?_, hm.left, hm.right⟩
  exact congrArg (fun m : MetadataRow => { m with size := size }) hm.timeless

theorem alike_deleteAllNorefInode :
    AlikeButTimes Eq (self.deleteAllNorefInode : Conn X Unit) self'.deleteAllNorefInode := by
  refine alike_executeAll fun db db' h => ?_
  rw [← h.dentry]
  have hrows : List.Forall₂ MetadataRow.SameButTimes
      (db.metadata.rows.filter fun m => TemporalFs.nlink db.dentry.rows m.id = none)
      (db'.metadata.rows.filter fun m => TemporalFs.nlink db.dentry.rows m.id = none) :=
    List.rel_filter (fun m m' hm => by simp only [hm.id]) h.metadata.rows
  generalize (db.metadata.rows.filter _) = l at hrows ⊢
  generalize (db'.metadata.rows.filter _) = l' at hrows ⊢
  induction hrows generalizing db db' with
  | nil => exact h
  | @cons m m' l l' hm _ ih =>
    rw [List.foldl_cons, List.foldl_cons, hm.id]
    exact ih _ _ (h.deleteMetadata m'.id)

theorem alike_setXattr (i : ℕ) (key : Name) (value : Bytes) :
    AlikeButTimes Eq (self.setXattr now i key value : Conn X Unit)
      (self'.setXattr now' i key value) :=
  alike_atomically <| alike_bind_eq (alike_execute fun _ _ h => h.replaceXattr _) fun _ =>
    alike_recording (touches_updateCtime i now) (touches_updateCtime i now')

theorem alike_getXattr (i : ℕ) (key : Name) :
    AlikeButTimes Eq (self.getXattr i key : Conn X Bytes) (self'.getXattr i key) := by
  refine alike_bind alike_get fun db db' h => ?_
  rw [h.xattr_find]
  exact alike_bind_eq (alike_ofOption_eq rfl) fun _ => alike_pure rfl

theorem alike_listXattr (i : ℕ) :
    AlikeButTimes Eq (self.listXattr i : Conn X (List Name)) (self'.listXattr i) :=
  alike_bind alike_get fun _ _ h => alike_pure (by rw [h.xattr])

theorem alike_deleteXattr (i : ℕ) (key : Name) :
    AlikeButTimes Eq (self.deleteXattr now i key : Conn X Unit)
      (self'.deleteXattr now' i key) :=
  alike_atomically <| alike_bind_eq (alike_executeAll fun _ _ h => h.deleteXattrRow i key) fun _ =>
    alike_recording (touches_updateCtime i now) (touches_updateCtime i now')

/-- The attributes of a root that is made now. -/
theorem rootAttr_sameButTimes : (rootAttr now).SameButTimes (rootAttr now') :=
  ⟨rfl, ⟨now.kept, now.kept, now.kept, now.kept⟩, now'.kept, now'.kept, now'.kept, now'.kept⟩

/-- The table `bdata` is not compared. -/
theorem applyDiffs_sameButTimes {db db' : Db X} (h : db.SameButTimes db')
    (ext ext' : Bool) : (applyDiffs ext db).1.SameButTimes (applyDiffs ext' db').1 := by
  have hleft : ∀ {db db' : Db X} (ext : Bool), db.SameButTimes db' →
      (TemporalFs.applyDiffs ext db).1.SameButTimes db' := fun {db db'} ext h =>
    (keeps_applyDiffs (I := fun d : Db X => d.SameButTimes db')
      (fun _ _ h => ⟨h.metadata, h.dentry, h.data, h.xattr, h.sqliteSequence⟩) ext).fst h
  exact (hleft ext' (hleft ext h).symm).symm

theorem alike_init :
    AlikeButTimes Eq (self.init now : Conn X Unit) (self'.init now') := by
  refine alike_bind alike_get fun db db' h => ?_
  refine alike_bind_eq (alike_when (h.metadata.find_eq_none_iff 1) ?_) fun _ => ?_
  · exact alike_bind_eq (alike_addInodeLocal (rootAttr_sameButTimes now now')) fun _ =>
      alike_pure rfl
  refine alike_bind alike_get fun db db' h => ?_
  refine alike_bind_eq (alike_when (by rw [h.dentry_find]) (alike_addDentry _)) fun _ => ?_
  refine alike_bind alike_get fun db db' h => ?_
  refine alike_bind_eq (alike_when (by rw [h.dentry_find]) (alike_addDentry _)) fun _ => ?_
  exact alike_executeAll fun _ _ h => applyDiffs_sameButTimes h _ _

end Sqlite

end TemporalFs
