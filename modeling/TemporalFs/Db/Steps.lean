import Mathlib
import TemporalFs.Db.Sqlite

/-!
# Methods are runs of row changes

Whatever a method of `Sqlite` does to the database, it does by changes of single rows, each logged
by a trigger. `Db.Step` is one such change. A property of databases that every row change keeps
(`Db.Closed`) is therefore kept by every method, whether it returns, fails or panics.

Only `moveDentry` changes key columns of a table. The index of `Db.Step` tells these changes
apart, so that what holds without them is proved for the other methods.

## Main definitions

* `Db.Step`: the change of one row; `Db.Closed`: the properties kept by row changes.

## Main results

* `Db.Closed.deleteMetadata`: a cascading deletion keeps what row changes keep.
* `Sqlite.keeps_writeData`, `Sqlite.keeps_moveDentry` and so on, one for each method.
-/

namespace TemporalFs

variable {X : Externals}

/-- Every time of the row can be read. -/
def MetadataRow.Readable (m : MetadataRow) : Prop :=
  m.atime.text.isSome ∧ m.mtime.text.isSome ∧ m.ctime.text.isSome ∧ m.crtime.text.isSome

/-- The change of one row, or of the side table `bdata`. Key columns change only where the first
index is `true`, and a time may become unreadable only where the second is. -/
inductive Db.Step : Bool → Bool → Db X → Db X → Prop
  | insertMetadata {b c : Bool} (db : Db X) (m : MetadataRow) (hm : m.Readable) :
      Db.Step b c db (db.insertMetadata m)
  | updateMetadata {b c : Bool} (db : Db X) (i : ℕ) (f : MetadataRow → MetadataRow)
      (hf : c = true ∨ ∀ m, m.Readable → (f m).Readable) : Db.Step b c db (db.updateMetadata i f)
  | eraseMetadata {b c : Bool} (db : Db X) (i : ℕ)
      (hd : ∀ k e, db.dentry.find k = some e → e.parentId ≠ i ∧ e.childId ≠ i)
      (hb : ∀ k r, db.data.find k = some r → r.fileId ≠ i)
      (hx : ∀ k r, db.xattr.find k = some r → r.fileId ≠ i) :
      Db.Step b c db (db.eraseMetadata i hd hb hx)
  | insertDentry {b c : Bool} {db db' : Db X} (e : DentryRow) (h : db.insertDentry e = some db') :
      Db.Step b c db db'
  | updateDentry {c : Bool} {db db' : Db X} (p : ℕ) (n : Name) (f : DentryRow → DentryRow)
      (h : db.updateDentry p n f = some db') : Db.Step true c db db'
  | deleteDentryRow {b c : Bool} (db : Db X) (p : ℕ) (n : Name) :
      Db.Step b c db (db.deleteDentryRow p n)
  | replaceData {b c : Bool} {db db' : Db X} (r : DataRow) (h : db.replaceData r = some db') :
      Db.Step b c db db'
  | updateData {b c : Bool} (db : Db X) (i k : ℕ) (bytes : Bytes) :
      Db.Step b c db (db.updateData i k bytes)
  | deleteDataRow {b c : Bool} (db : Db X) (i k : ℕ) : Db.Step b c db (db.deleteDataRow i k)
  | replaceXattr {b c : Bool} {db db' : Db X} (r : XattrRow) (h : db.replaceXattr r = some db') :
      Db.Step b c db db'
  | deleteXattrRow {b c : Bool} (db : Db X) (i : ℕ) (n : Name) :
      Db.Step b c db (db.deleteXattrRow i n)
  | setBdata {b c : Bool} (db : Db X) (rows : Option (List DataRow)) :
      Db.Step b c db { db with bdata := rows }

/-- The properties that row changes keep. -/
def Db.Closed (b c : Bool) (I : Db X → Prop) : Prop :=
  ∀ db db', Db.Step b c db db' → I db → I db'

theorem Db.Step.any {b c : Bool} {db db' : Db X} (h : Db.Step b c db db') :
    Db.Step true true db db' := by
  cases h with
  | insertMetadata _ m hm => exact .insertMetadata db m hm
  | updateMetadata _ i f => exact .updateMetadata db i f (Or.inl rfl)
  | eraseMetadata _ i hd hb hx => exact .eraseMetadata db i hd hb hx
  | insertDentry e h => exact .insertDentry e h
  | updateDentry p n f h => exact .updateDentry p n f h
  | deleteDentryRow _ p n => exact .deleteDentryRow db p n
  | replaceData r h => exact .replaceData r h
  | updateData _ i k bytes => exact .updateData db i k bytes
  | deleteDataRow _ i k => exact .deleteDataRow db i k
  | replaceXattr r h => exact .replaceXattr r h
  | deleteXattrRow _ i n => exact .deleteXattrRow db i n
  | setBdata _ rows => exact .setBdata db rows

/-- A row change writes at most one audit row to each table, with the stamp of the next tick. -/
theorem Db.Step.extends {b c : Bool} {db db' : Db X} (h : Db.Step b c db db') :
    db'.clock = db.clock ∧ db.metadata.Extends db'.metadata db.now ∧
      db.dentry.Extends db'.dentry db.now ∧ db.data.Extends db'.data db.now ∧
      db.xattr.Extends db'.xattr db.now := by
  cases h with
  | insertMetadata _ m => exact ⟨rfl, AuditedTable.extends_put .., .inl rfl, .inl rfl, .inl rfl⟩
  | updateMetadata _ i f =>
    exact ⟨rfl, AuditedTable.extends_update _ _ _ _ (metadataSpec_key_withId f), .inl rfl, .inl rfl,
      .inl rfl⟩
  | eraseMetadata _ i => exact ⟨rfl, AuditedTable.extends_erase .., .inl rfl, .inl rfl, .inl rfl⟩
  | insertDentry e h =>
    unfold Db.insertDentry at h
    split_ifs at h
    obtain rfl := Option.some.inj h
    exact ⟨rfl, .inl rfl, AuditedTable.extends_put .., .inl rfl, .inl rfl⟩
  | updateDentry p n f h =>
    unfold Db.updateDentry at h
    split at h
    · obtain rfl := Option.some.inj h
      exact ⟨rfl, .inl rfl, .inl rfl, .inl rfl, .inl rfl⟩
    · split at h
      · exact absurd h (by simp)
      · rename_i ht
        split_ifs at h
        obtain rfl := Option.some.inj h
        exact ⟨rfl, .inl rfl, AuditedTable.extends_rekey ht, .inl rfl, .inl rfl⟩
  | deleteDentryRow _ p n =>
    exact ⟨rfl, .inl rfl, AuditedTable.extends_erase .., .inl rfl, .inl rfl⟩
  | replaceData r h =>
    unfold Db.replaceData at h
    split_ifs at h
    obtain rfl := Option.some.inj h
    exact ⟨rfl, .inl rfl, .inl rfl, AuditedTable.extends_put .., .inl rfl⟩
  | updateData _ i k bytes =>
    exact ⟨rfl, .inl rfl, .inl rfl,
      AuditedTable.extends_update _ _ _ _ (dataSpec_key_withData X bytes), .inl rfl⟩
  | deleteDataRow _ i k => exact ⟨rfl, .inl rfl, .inl rfl, AuditedTable.extends_erase .., .inl rfl⟩
  | replaceXattr r h =>
    unfold Db.replaceXattr at h
    split_ifs at h
    obtain rfl := Option.some.inj h
    exact ⟨rfl, .inl rfl, .inl rfl, .inl rfl, AuditedTable.extends_put ..⟩
  | deleteXattrRow _ i n => exact ⟨rfl, .inl rfl, .inl rfl, .inl rfl, AuditedTable.extends_erase ..⟩
  | setBdata _ rows => exact ⟨rfl, .inl rfl, .inl rfl, .inl rfl, .inl rfl⟩

theorem Db.Step.tick_le {b c : Bool} {db db' : Db X} (h : Db.Step b c db db') :
    db.tick ≤ db'.tick := by
  obtain ⟨-, hm, hd, hb, hx⟩ := h.extends
  unfold Db.tick
  have := hm.isPrefix.length_le
  have := hd.isPrefix.length_le
  have := hb.isPrefix.length_le
  have := hx.isPrefix.length_le
  omega

namespace Db.Closed

variable {b c : Bool} {I : Db X → Prop}

theorem of_any (hI : Db.Closed true true I) : Db.Closed b c I :=
  fun db db' h => hI db db' h.any

theorem foldl {ρ : Type} {f : Db X → ρ → Db X} (hf : ∀ db r, I db → I (f db r)) :
    (l : List ρ) → (db : Db X) → I db → I (l.foldl f db)
  | [], _, h => h
  | r :: l, db, h => foldl hf l (f db r) (hf db r h)

variable (hI : Db.Closed b c I)

include hI

theorem deleteDentryWhere {db : Db X} (h : I db) (p : DentryRow → Bool) :
    I (db.deleteDentryWhere p) :=
  foldl (f := fun d (e : DentryRow) => d.deleteDentryRow e.parentId e.name)
    (fun d e => hI d _ (.deleteDentryRow d e.parentId e.name)) _ db h

theorem deleteDataWhere {db : Db X} (h : I db) (p : DataRow → Bool) : I (db.deleteDataWhere p) :=
  foldl (f := fun d (r : DataRow) => d.deleteDataRow r.fileId r.blockNum)
    (fun d r => hI d _ (.deleteDataRow d r.fileId r.blockNum)) _ db h

theorem deleteXattrWhere {db : Db X} (h : I db) (p : XattrRow → Bool) :
    I (db.deleteXattrWhere p) :=
  foldl (f := fun d (r : XattrRow) => d.deleteXattrRow r.fileId r.name)
    (fun d r => hI d _ (.deleteXattrRow d r.fileId r.name)) _ db h

theorem upsertData {db db' : Db X} (h : I db) {r : DataRow} (hr : db.upsertData r = some db') :
    I db' := by
  unfold Db.upsertData at hr
  split at hr
  · obtain rfl := Option.some.inj hr
    exact hI db _ (.updateData db _ _ _) h
  · exact hI db _ (.replaceData r hr) h

theorem cascade {db : Db X} (h : I db) (i : ℕ) : I (db.cascade i) :=
  hI.deleteDentryWhere (hI.deleteDentryWhere (hI.deleteDataWhere (hI.deleteXattrWhere h _) _) _) _

/-- A deletion with its cascades keeps what row changes keep. -/
theorem deleteMetadata {db : Db X} (h : I db) (i : ℕ) : I (db.deleteMetadata i) := by
  unfold Db.deleteMetadata
  split
  · exact h
  · exact hI _ _ (.eraseMetadata ..) (hI.cascade h i)

end Db.Closed

/-! ### Local functions -/

theorem Now.datetime_isSome (now : Now) : (datetime now.1.sec).isSome := by
  unfold datetime
  rw [if_pos ⟨by have := now.2.1; omega, now.2.2⟩]
  rfl

theorem Now.readable_atime (now : Now) {m : MetadataRow} (hm : m.Readable) :
    { m with atime := now.1.throughDatetime }.Readable :=
  ⟨now.datetime_isSome, hm.2.1, hm.2.2.1, hm.2.2.2⟩

theorem Now.readable_mtime (now : Now) {m : MetadataRow} (hm : m.Readable) :
    { m with mtime := now.1.throughDatetime }.Readable :=
  ⟨hm.1, now.datetime_isSome, hm.2.2.1, hm.2.2.2⟩

theorem Now.readable_ctime (now : Now) {m : MetadataRow} (hm : m.Readable) :
    { m with ctime := now.1.throughDatetime }.Readable :=
  ⟨hm.1, hm.2.1, now.datetime_isSome, hm.2.2.2⟩

section Local

open Proc

variable {b c : Bool} {I : Db X → Prop}

theorem keeps_query {α : Type} (f : Db X → Except Stop α) : (query f).Keeps I := by
  refine keeps_bind keeps_get fun db => ?_
  cases f db with
  | ok a => exact keeps_pure a
  | error e => exact keeps_stop e

theorem keeps_utcFrom (t : SystemTime) : (utcFrom t : Conn X SystemTime).Keeps I :=
  keeps_bind keeps_require fun _ => keeps_pure _

theorem keeps_getInodeLocal (inode : ℕ) : (getInodeLocal inode : Conn X _).Keeps I :=
  keeps_query _

theorem keeps_getDentrySingle (p : ℕ) (n : Name) : (getDentrySingle p n : Conn X _).Keeps I :=
  keeps_bind keeps_get fun _ => keeps_pure _

variable (hI : Db.Closed b c I)

include hI

theorem keeps_updateAtime (i : ℕ) (now : Now) : (updateAtime i now : Conn X Unit).Keeps I :=
  keeps_modify fun db => hI db _ (.updateMetadata db i _ (.inr fun _ => Now.readable_atime now))

theorem keeps_updateMtime (i : ℕ) (now : Now) : (updateMtime i now : Conn X Unit).Keeps I :=
  keeps_modify fun db => hI db _ (.updateMetadata db i _ (.inr fun _ => Now.readable_mtime now))

theorem keeps_updateCtime (i : ℕ) (now : Now) : (updateCtime i now : Conn X Unit).Keeps I :=
  keeps_modify fun db => hI db _ (.updateMetadata db i _ (.inr fun _ => Now.readable_ctime now))

theorem keeps_releaseData (i : ℕ) (offset : UInt32) :
    (releaseData i offset : Conn X Unit).Keeps I := by
  refine keeps_ite (keeps_modify fun db h => hI.deleteDataWhere h _) (keeps_ite
    (keeps_modify fun db h => hI.deleteDataWhere h _) (keeps_bind keeps_get fun db => ?_))
  exact keeps_bind (keeps_step fun db db' h hr => hI db db' (.replaceData _ hr) h)
    fun _ => keeps_modify fun db h => hI.deleteDataWhere h _

theorem keeps_addDentry (entry : DEntry) : (addDentry entry : Conn X Unit).Keeps I :=
  keeps_step fun db db' h he => hI db db' (.insertDentry _ he) h

theorem keeps_deleteDentryLocal (p : ℕ) (n : Name) :
    (deleteDentryLocal p n : Conn X Unit).Keeps I :=
  keeps_when (keeps_modify fun db => hI db _ (.deleteDentryRow db p n))

theorem keeps_deleteSubDentry (i : ℕ) : (deleteSubDentry i : Conn X Unit).Keeps I :=
  keeps_modify fun _ h => hI.deleteDentryWhere h _

theorem keeps_addInodeLocal (attr : DBFileAttr) : (addInodeLocal attr : Conn X ℕ).Keeps I :=
  keeps_bind (keeps_utcFrom _) fun _ => keeps_bind (keeps_utcFrom _) fun _ =>
    keeps_bind (keeps_utcFrom _) fun _ => keeps_bind (keeps_utcFrom _) fun _ =>
      keeps_bind (keeps_modify fun db => hI db _ (.insertMetadata db _ ⟨rfl, rfl, rfl, rfl⟩))
        fun _ =>
        keeps_bind keeps_get fun _ => keeps_bind keeps_require fun _ => keeps_pure _

end Local

section Replaying

open Proc

variable {I : Db X → Prop} (hI : ∀ (db : Db X) rows, I db → I { db with bdata := rows })

include hI

theorem keeps_applyBrf (extensions : Bool) (brf : BlockRelevantFrom) :
    (applyBrf extensions brf : Conn X Unit).Keeps I := by
  refine keeps_bind keeps_get fun db => ?_
  dsimp only
  split
  · exact keeps_stop _
  · exact keeps_bind keeps_require fun _ => keeps_modify fun db => hI db _

/-- Building `bdata` keeps what does not depend on that table. -/
theorem keeps_applyDiffs (extensions : Bool) : (applyDiffs extensions : Conn X Unit).Keeps I :=
  keeps_bind (keeps_modify fun db => hI db _) fun _ =>
    keeps_bind (keeps_modify fun db => hI db _) fun _ =>
      keeps_bind (keeps_bind keeps_get fun _ => keeps_bind keeps_require fun _ => keeps_pure _)
        fun brfs => keeps_each (keeps_applyBrf hI extensions) brfs

end Replaying

/-! ### Methods -/

namespace Sqlite

open Proc

variable {b c : Bool} {I : Db X → Prop} (self : Sqlite)

theorem keeps_queryTemp {α : Type} (f : TempTables → Except Stop α) :
    (self.queryTemp f : Conn X α).Keeps I := by
  refine keeps_bind keeps_ofOption fun t => ?_
  cases f t with
  | ok a => exact keeps_pure a
  | error e => exact keeps_stop e

theorem keeps_overwriteDentry (hI : Db.Closed b c I) (t : FileType) (p : ℕ) (n : Name) :
    (e : Option DEntry) → (overwriteDentry t p n e : Conn X (Option ℕ)).Keeps I
  | none => keeps_pure none
  | some _ => keeps_bind keeps_require fun _ =>
      keeps_bind (keeps_when (keeps_bind (keeps_bind keeps_get fun _ => keeps_pure _)
        fun _ => keeps_require)) fun _ =>
        keeps_bind (keeps_deleteDentryLocal hI p n) fun _ => keeps_pure _

variable (hI : Db.Closed b c I)

include hI

theorem keeps_init (now : Now) : (self.init now : Conn X Unit).Keeps I :=
  keeps_bind keeps_get fun _ =>
    keeps_bind (keeps_when (keeps_bind (keeps_addInodeLocal hI _) fun _ => keeps_pure _))
      fun _ => keeps_bind keeps_get fun _ =>
        keeps_bind (keeps_when (keeps_addDentry hI _)) fun _ => keeps_bind keeps_get fun _ =>
          keeps_bind (keeps_when (keeps_addDentry hI _)) fun _ =>
            keeps_modify fun _ h =>
              (keeps_applyDiffs (fun db rows => hI db _ (.setBdata db rows)) _).fst h

theorem keeps_addInodeAndDentry (now : Now) (p : ℕ) (n : Name) (attr : DBFileAttr) :
    (self.addInodeAndDentry now p n attr : Conn X ℕ).Keeps I :=
  keeps_atomically <| keeps_bind (keeps_addInodeLocal hI attr) fun _ =>
    keeps_bind (keeps_addDentry hI _) fun _ =>
      keeps_bind (keeps_when (keeps_bind (keeps_addDentry hI _) fun _ =>
        keeps_addDentry hI _)) fun _ =>
        keeps_bind (keeps_when (keeps_bind (keeps_updateMtime hI _ _) fun _ =>
          keeps_updateCtime hI _ _)) fun _ => keeps_pure _

theorem keeps_deleteInodeIfNoref (inode : ℕ) :
    (self.deleteInodeIfNoref inode : Conn X Unit).Keeps I :=
  keeps_atomically <| keeps_bind keeps_get fun _ =>
    keeps_when (keeps_modify fun _ h => hI.deleteMetadata h _)

theorem keeps_linkDentry (now : Now) (inode p : ℕ) (n : Name) :
    (self.linkDentry now inode p n : Conn X DBFileAttr).Keeps I :=
  keeps_atomically <| keeps_bind (keeps_getInodeLocal _) fun _ =>
    keeps_bind keeps_ofOption fun _ => keeps_bind keeps_require fun _ =>
      keeps_bind (keeps_getDentrySingle _ _) fun _ => keeps_bind keeps_require fun _ =>
        keeps_bind (keeps_addDentry hI _) fun _ =>
          keeps_bind (keeps_when (keeps_bind (keeps_updateMtime hI _ _) fun _ =>
            keeps_bind (keeps_updateMtime hI _ _) fun _ => keeps_updateCtime hI _ _))
            fun _ => keeps_pure _

theorem keeps_deleteDentry (now : Now) (p : ℕ) (n : Name) :
    (self.deleteDentry now p n : Conn X ℕ).Keeps I :=
  keeps_atomically <| keeps_bind keeps_get fun _ => keeps_bind keeps_ofOption fun _ =>
    keeps_bind (keeps_deleteDentryLocal hI _ _) fun _ =>
      keeps_bind (keeps_deleteSubDentry hI _) fun _ =>
        keeps_bind (keeps_when (keeps_bind (keeps_updateCtime hI _ _) fun _ =>
          keeps_bind (keeps_updateMtime hI _ _) fun _ => keeps_updateCtime hI _ _))
          fun _ => keeps_pure _

/-- The end of `moveDentry`, after the entry has got its new key. -/
theorem keeps_move_tail (now : Now) (p p' i : ℕ) (t : FileType) (res : Option ℕ)
    (hparent : p ≠ p' → ∀ (db db' : Db X) (i : ℕ), I db → (db.updateDentry i dotdot fun e =>
      { e with childId := p' }) = some db' → I db') :
    (do Proc.when (p ≠ p' ∧ t = .Directory) (execute fun db => db.updateDentry i dotdot fun e =>
          { e with childId := p' })
        Proc.when self.timeRecording do
          updateCtime i now
          updateMtime p now
          updateCtime p now
          Proc.when (p ≠ p') do
            updateMtime p' now
            updateCtime p' now
        pure res : Conn X (Option ℕ)).Keeps I := by
  have hdots : (Proc.when (p ≠ p' ∧ t = .Directory) (execute fun db : Db X =>
      db.updateDentry i dotdot fun e => { e with childId := p' })).Keeps I := by
    by_cases hp : p ≠ p'
    · exact keeps_when (keeps_step fun db db' h hu => hparent hp db db' _ h hu)
    · unfold Proc.when
      rw [if_neg fun h => hp h.1]
      exact keeps_pure ()
  refine keeps_bind hdots fun _ => ?_
  exact keeps_bind (keeps_when (keeps_bind (keeps_updateCtime hI _ _) fun _ =>
    keeps_bind (keeps_updateMtime hI _ _) fun _ => keeps_bind (keeps_updateCtime hI _ _)
      fun _ => keeps_when (keeps_bind (keeps_updateMtime hI _ _) fun _ =>
        keeps_updateCtime hI _ _))) fun _ => keeps_pure _

/-- The one method that changes key columns keeps what row changes keep, provided that its own
changes of keys do. -/
theorem keeps_moveDentry_of_updates (now : Now) (p : ℕ) (n : Name) (p' : ℕ) (n' : Name)
    (hmove : ∀ db db' : Db X, I db → (db.updateDentry p n fun e =>
      { e with parentId := p', name := n' }) = some db' → I db')
    (hparent : p ≠ p' → ∀ (db db' : Db X) (i : ℕ), I db → (db.updateDentry i dotdot fun e =>
      { e with childId := p' }) = some db' → I db') :
    (self.moveDentry now p n p' n' : Conn X (Option ℕ)).Keeps I := by
  refine keeps_atomically <| keeps_bind (keeps_getDentrySingle _ _) fun _ =>
    keeps_bind keeps_ofOption fun dentry => keeps_bind (keeps_getDentrySingle _ _) fun _ =>
      keeps_bind (keeps_overwriteDentry hI _ _ _ _) fun res => ?_
  exact keeps_bind (keeps_step hmove) fun _ => self.keeps_move_tail hI now p p' _ _ res hparent

omit hI in
theorem keeps_moveDentry (hI : Db.Closed true c I) (now : Now) (p : ℕ) (n : Name) (p' : ℕ)
    (n' : Name) : (self.moveDentry now p n p' n' : Conn X (Option ℕ)).Keeps I :=
  self.keeps_moveDentry_of_updates hI now p n p' n'
    (fun db db' h hu => hI db db' (.updateDentry _ _ _ hu) h)
    fun _ db db' _ h hu => hI db db' (.updateDentry _ _ _ hu) h

theorem keeps_lookup (now : Now) (p : ℕ) (n : Name) :
    (self.lookup now p n : Conn X (Option DBFileAttr)).Keeps I :=
  keeps_bind keeps_get fun _ => keeps_bind (keeps_when (keeps_updateAtime hI _ _)) fun _ =>
    keeps_query _

theorem keeps_getData (now : Now) (inode block length : ℕ) :
    (self.getData now inode block length : Conn X Bytes).Keeps I :=
  keeps_atomically <| keeps_bind keeps_get fun _ =>
    keeps_bind (keeps_when (keeps_updateAtime hI _ _)) fun _ => keeps_pure _

theorem keeps_getDataAtTime (now : Now) (inode block length : ℕ) :
    (self.getDataAtTime now inode block length : Conn X Bytes).Keeps I :=
  keeps_atomically <| keeps_bind (self.keeps_queryTemp _) fun _ =>
    keeps_bind (keeps_when (keeps_updateAtime hI _ _)) fun _ => keeps_pure _

theorem keeps_writeData (now : Now) (inode block : ℕ) (data : Bytes) (size : UInt32) :
    (self.writeData now inode block data size : Conn X Unit).Keeps I :=
  keeps_atomically <| keeps_bind keeps_get fun _ => keeps_bind keeps_ofOption fun _ =>
    keeps_bind keeps_require fun _ =>
      keeps_bind (keeps_step fun _ _ h hu => hI.upsertData h hu) fun _ =>
        keeps_bind (keeps_when (keeps_modify fun db =>
            hI db _ (.updateMetadata db _ _ (.inr fun _ hm => hm)))) fun _ =>
              keeps_when (keeps_bind (keeps_updateMtime hI _ _) fun _ =>
            keeps_updateCtime hI _ _)

omit hI in
/-- `setattr` may store times that cannot be read back. -/
theorem keeps_updateInode (hI : Db.Closed b true I) (now : Now) (attr : DBFileAttr)
    (truncate : Bool) :
    (self.updateInode now attr truncate : Conn X Unit).Keeps I :=
  keeps_atomically <| keeps_bind (keeps_getInodeLocal _) fun _ =>
    keeps_bind keeps_ofOption fun _ => keeps_bind (keeps_utcFrom _) fun _ =>
      keeps_bind (keeps_ite (keeps_pure _) (keeps_utcFrom _)) fun _ =>
        keeps_bind (keeps_utcFrom _) fun _ =>
          keeps_bind (keeps_modify fun db => hI db _ (.updateMetadata db _ _ (.inl rfl))) fun _ =>
            keeps_when (keeps_releaseData hI _ _)

theorem keeps_releaseData (inode : ℕ) : (self.releaseData inode : Conn X Unit).Keeps I :=
  keeps_modify fun _ h => hI.deleteDataWhere h _

theorem keeps_deleteAllNorefInode : (self.deleteAllNorefInode : Conn X Unit).Keeps I :=
  keeps_modify fun db h => Db.Closed.foldl (I := I)
    (f := fun db (m : MetadataRow) => db.deleteMetadata m.id)
    (fun _ m hd => hI.deleteMetadata hd m.id) _ db h

theorem keeps_setXattr (now : Now) (inode : ℕ) (key : Name) (value : Bytes) :
    (self.setXattr now inode key value : Conn X Unit).Keeps I :=
  keeps_atomically <| keeps_bind (keeps_step fun db db' h hu => hI db db' (.replaceXattr _ hu) h)
    fun _ => keeps_when (keeps_updateCtime hI _ _)

theorem keeps_deleteXattr (now : Now) (inode : ℕ) (key : Name) :
    (self.deleteXattr now inode key : Conn X Unit).Keeps I :=
  keeps_atomically <| keeps_bind (keeps_modify fun db => hI db _ (.deleteXattrRow db _ _))
    fun _ => keeps_when (keeps_updateCtime hI _ _)

end Sqlite

/-! ### Operations on the namespace -/

/-- The operations that change the namespace. -/
inductive NamespaceOp
  | addInodeAndDentry (now : Now) (parent : ℕ) (name : Name) (attr : DBFileAttr)
  | linkDentry (now : Now) (inode parent : ℕ) (name : Name)
  | deleteDentry (now : Now) (parent : ℕ) (name : Name)
  | moveDentry (now : Now) (parent : ℕ) (name : Name) (new_parent : ℕ) (new_name : Name)
  | deleteInodeIfNoref (inode : ℕ)
  | deleteAllNorefInode

namespace NamespaceOp

/-- The database after an operation, whether it succeeds or not. -/
def run (self : Sqlite) (db : Db X) : NamespaceOp → Db X
  | .addInodeAndDentry now parent name attr =>
    (self.addInodeAndDentry now parent name attr db).1
  | .linkDentry now inode parent name => (self.linkDentry now inode parent name db).1
  | .deleteDentry now parent name => (self.deleteDentry now parent name db).1
  | .moveDentry now parent name new_parent new_name =>
    (self.moveDentry now parent name new_parent new_name db).1
  | .deleteInodeIfNoref inode => (self.deleteInodeIfNoref inode db).1
  | .deleteAllNorefInode => (self.deleteAllNorefInode db).1

theorem run_keeps {c : Bool} {I : Db X → Prop} (hI : Db.Closed true c I) (self : Sqlite) {db : Db X}
    (h : I db) (op : NamespaceOp) : I (op.run self db) := by
  cases op with
  | addInodeAndDentry now p n attr => exact (self.keeps_addInodeAndDentry hI now p n attr).fst h
  | linkDentry now i p n => exact (self.keeps_linkDentry hI now i p n).fst h
  | deleteDentry now p n => exact (self.keeps_deleteDentry hI now p n).fst h
  | moveDentry now p n p' n' => exact (self.keeps_moveDentry hI now p n p' n').fst h
  | deleteInodeIfNoref i => exact (self.keeps_deleteInodeIfNoref hI i).fst h
  | deleteAllNorefInode => exact (self.keeps_deleteAllNorefInode hI).fst h

theorem foldl_run_keeps {c : Bool} {I : Db X → Prop} (hI : Db.Closed true c I) (self : Sqlite)
    (ops : List NamespaceOp) {db : Db X} (h : I db) : I (ops.foldl (run self) db) := by
  induction ops generalizing db with
  | nil => exact h
  | cons op ops ih => exact ih (run_keeps hI self h op)

end NamespaceOp

end TemporalFs
