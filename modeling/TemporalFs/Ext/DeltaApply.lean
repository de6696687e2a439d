import Mathlib
import TemporalFs.Ext.DeltaFormat

/-!
# The delta decoder on arbitrary bytes

A database can hold anything where a delta is expected. On a delta with a NUL behind it,
`deltaApply` accepts exactly the texts of scripts that produce a target of the announced size. On
anything else it fails, or it leaves its buffers: `ofst+cnt` is computed with 32 bits, so that the
check against the size of the source can be passed by a copy from far behind its end. After a last
copy without its comma the code looks one byte behind the NUL.

## Main definitions

* `readCommand`, `commands`: the commands in a text.
* `script`: the commands of a delta.
* `Terminated`: what has to stand behind a delta.

## Main results

* `deltaApplyFunc_eq_done_iff`: what is accepted.
* `overflow_of_fault`: the only way out of the buffers.
-/

namespace TemporalFs.Fossil

/-- A NUL, and another byte that can be read. -/
def Terminated (behind : Bytes) : Prop := ∃ c rest, behind = 0 :: c :: rest

/-- The number at the start of a text that a NUL follows, and what comes next. -/
def readNumber (z : Bytes) : ℕ × Bytes := digits.read (2 ^ 32) z

/-- What comes next in a text: a command and what follows it, the checksum, or none of them. -/
inductive Command where
  | edit (e : Edit UInt8) (rest : Bytes)
  | stop
  | bad

/-- The command at the start of a text. The comma of a copy may be missing at the end. -/
def readCommand (z : Bytes) : Command :=
  if z.headD 0 = 0 then .bad
  else
    match (readNumber z).2 with
    | 64 :: y =>
      if (readNumber y).2 ≠ [] ∧ (readNumber y).2.headD 0 ≠ 44 then .bad
      else .edit (.copy (readNumber y).1 (readNumber z).1) (readNumber y).2.tail
    | 58 :: y =>
      if (readNumber z).1 > y.length then .bad
      else .edit (.insert (y.take (readNumber z).1)) (y.drop (readNumber z).1)
    | 59 :: _ => .stop
    | _ => .bad

/-- The commands of a text up to the first one that is malformed, and whether the checksum ends
them. -/
def commands : ℕ → Bytes → List (Edit UInt8) × Bool
  | 0, _ => ([], false)
  | fuel + 1, z =>
    match readCommand z with
    | .edit e rest => (e :: (commands fuel rest).1, (commands fuel rest).2)
    | .stop => ([], true)
    | .bad => ([], false)

theorem length_readNumber_le (z : Bytes) : (readNumber z).2.length ≤ z.length :=
  (digits.readFrom_suffix _ _ _).length_le

theorem readNumber_lt (z : Bytes) : (readNumber z).1 < 2 ^ 32 :=
  digits.readFrom_lt (by decide) z

/-- The NUL behind a text ends its last number. -/
theorem deltaGetInt_append (z after : Bytes) :
    deltaGetInt (z ++ 0 :: after) z.length =
      some ((readNumber z).1, (readNumber z).2 ++ 0 :: after, ((readNumber z).2.length : ℤ)) := by
  have hread : digits.read (2 ^ 32) (z ++ 0 :: after) =
      ((readNumber z).1, (readNumber z).2 ++ 0 :: after) :=
    digits.readFrom_append_cons (by decide) _ _ _ _
  unfold deltaGetInt
  rw [hread]
  simp only [List.append_eq_nil_iff, reduceCtorEq, and_false, ↓reduceIte, List.length_append,
    List.length_cons, Option.some.injEq, Prod.mk.injEq, true_and]
  omega

/-- A command takes at least its operator from the text. -/
theorem length_readCommand {z rest : Bytes} {e : Edit UInt8} (h : readCommand z = .edit e rest) :
    rest.length < z.length := by
  have hz := length_readNumber_le z
  unfold readCommand at h
  split_ifs at h
  split at h
  · rename_i y hy
    split_ifs at h
    obtain ⟨rfl, rfl⟩ := Command.edit.inj h
    have hy' := length_readNumber_le y
    rw [hy, List.length_cons] at hz
    rw [List.length_tail]
    omega
  · rename_i y hy
    split_ifs at h
    obtain ⟨rfl, rfl⟩ := Command.edit.inj h
    rw [hy, List.length_cons] at hz
    rw [List.length_drop]
    omega
  · exact absurd h (by simp)
  · exact absurd h (by simp)

theorem headD_append_nul (z after : Bytes) : (z ++ 0 :: after).headD 0 = z.headD 0 := by
  cases z with
  | nil => rfl
  | cons c z => rfl

theorem headD_append_of_ne {z : Bytes} (h : z.headD 0 ≠ 0) (after : Bytes) :
    z ++ after ≠ [] ∧ ¬((z ++ after).headD 0 = 0 ∨ (z.length : ℤ) ≤ 0) := by
  cases z with
  | nil => exact absurd rfl h
  | cons c z =>
    refine ⟨List.cons_ne_nil _ _, not_or.2 ⟨h, ?_⟩⟩
    rw [List.length_cons]
    omega

section Loop

variable {zSrc : Bytes} {limit : ℕ} {c : UInt8} {after : Bytes}

/-- Behind the NUL the loop ends with an error. -/
theorem applyLoop_behind (fuel total : ℕ) (zOut : Bytes) :
    applyLoop zSrc limit fuel (c :: after) (-1) total zOut = .error := by
  cases fuel with
  | zero => rfl
  | succ fuel => rw [applyLoop, if_neg (List.cons_ne_nil _ _), if_pos (Or.inr (by decide))]

/-- So it does at the NUL. -/
theorem applyLoop_nil (fuel total : ℕ) (zOut : Bytes) :
    applyLoop zSrc limit fuel (0 :: after) 0 total zOut = .error := by
  cases fuel with
  | zero => rfl
  | succ fuel => rw [applyLoop, if_neg (List.cons_ne_nil _ _), if_pos (Or.inr le_rfl)]

theorem applyLoop_stop {fuel total : ℕ} {z zOut : Bytes} (h : readCommand z = .stop) :
    applyLoop zSrc limit (fuel + 1) (z ++ 0 :: after) z.length total zOut =
      if total ≠ limit then .error else .done zOut := by
  unfold readCommand at h
  split_ifs at h with hhead
  obtain ⟨hne, hstart⟩ := headD_append_of_ne hhead (0 :: after)
  split at h
  · split_ifs at h
  · split_ifs at h
  · rename_i hz
    rw [applyLoop, if_neg hne, if_neg hstart, deltaGetInt_append, hz]
    rfl
  · exact absurd h (by simp)

theorem applyLoop_bad {fuel total : ℕ} {z zOut : Bytes} (hz : z.length < 2 ^ 31)
    (h : readCommand z = .bad) :
    applyLoop zSrc limit (fuel + 1) (z ++ 0 :: after) z.length total zOut = .error := by
  have hlen := length_readNumber_le z
  unfold readCommand at h
  by_cases hhead : z.headD 0 = 0
  · rw [← headD_append_nul z after] at hhead
    rw [applyLoop, if_neg (by simp), if_pos (Or.inl hhead)]
  rw [if_neg hhead] at h
  obtain ⟨hne, hstart⟩ := headD_append_of_ne hhead (0 :: after)
  rw [applyLoop, if_neg hne, if_neg hstart, deltaGetInt_append]
  split at h
  · rename_i y hy
    split_ifs at h with hcomma
    obtain ⟨d, y', hy'⟩ := List.exists_cons_of_ne_nil hcomma.1
    rw [hy'] at hcomma
    simp only [hy, List.cons_append, List.length_cons, Nat.cast_add, Nat.cast_one,
      Int.add_sub_cancel, deltaGetInt_append, hy']
    exact if_pos ⟨by omega, hcomma.2⟩
  · rename_i y hy
    split_ifs at h with hlong
    rw [hy, List.length_cons] at hlen
    simp only [hy, List.cons_append, List.length_cons, Nat.cast_add, Nat.cast_one,
      Int.add_sub_cancel]
    rw [Int.emod_eq_of_lt (by omega) (by omega)]
    by_cases htotal : (total + (readNumber z).1) % 2 ^ 32 > limit
    · exact if_pos htotal
    · rw [if_neg htotal]
      exact if_pos (by omega)
  · exact absurd h (by simp)
  · rename_i hcopy hinsert hstop
    cases hy : (readNumber z).2 with
    | nil => rfl
    | cons d y =>
      rw [List.cons_append]
      split
      · rename_i heq
        exact absurd heq (by simp)
      · rename_i heq
        simp only [Option.some.injEq, Prod.mk.injEq, List.cons.injEq] at heq
        exact absurd hy (heq.2.1.1 ▸ hcopy y)
      · rename_i heq
        simp only [Option.some.injEq, Prod.mk.injEq, List.cons.injEq] at heq
        exact absurd hy (heq.2.1.1 ▸ hinsert y)
      · rename_i heq
        simp only [Option.some.injEq, Prod.mk.injEq, List.cons.injEq] at heq
        exact absurd hy (heq.2.1.1 ▸ hstop y)
      · rfl

/-- **What a command can do.** It is carried out if it stays in the source and in the buffer, and
else it is an error, or a fault after an overflow. -/
theorem applyLoop_edit (fuel : ℕ) {total : ℕ} {z zOut rest : Bytes} {e : Edit UInt8}
    (hsrc : zSrc.length < 2 ^ 31) (hlimit : limit < 2 ^ 31) (hz : z.length < 2 ^ 31)
    (htotal : zOut.length = total) (hle : total ≤ limit) (h : readCommand z = .edit e rest) :
    (∃ y, e.output zSrc = some y ∧ total + y.length ≤ limit ∧
      applyLoop zSrc limit (fuel + 1) (z ++ 0 :: c :: after) z.length total zOut =
        applyLoop zSrc limit fuel (rest ++ 0 :: c :: after) rest.length (total + y.length)
          (zOut ++ y)) ∨
    (∀ y, e.output zSrc = some y → limit < total + y.length) ∧
      (applyLoop zSrc limit (fuel + 1) (z ++ 0 :: c :: after) z.length total zOut = .error ∨
        applyLoop zSrc limit (fuel + 1) (z ++ 0 :: c :: after) z.length total zOut = .fault ∧
          ∃ ofst cnt, e = .copy ofst cnt ∧ 2 ^ 32 ≤ ofst + cnt) := by
  have hlen := length_readNumber_le z
  unfold readCommand at h
  split_ifs at h with hhead
  obtain ⟨hne, hstart⟩ := headD_append_of_ne hhead (0 :: c :: after)
  split at h
  · rename_i y hy
    split_ifs at h with hcomma
    obtain ⟨rfl, rfl⟩ := Command.edit.inj h
    have hcnt := readNumber_lt z
    have hofst := readNumber_lt y
    rw [applyLoop, if_neg hne, if_neg hstart, deltaGetInt_append, hy]
    generalize (readNumber z).1 = cnt at hcnt ⊢
    simp only [List.cons_append, List.length_cons, Nat.cast_add, Nat.cast_one, Int.add_sub_cancel,
      deltaGetInt_append, Edit.output]
    generalize (readNumber y).1 = ofst at hofst ⊢
    generalize (readNumber y).2 = y' at hcomma ⊢
    have hcomma' : ¬((y'.length : ℤ) > 0 ∧ (y' ++ 0 :: c :: after).headD 0 ≠ 44) := by
      cases y' with
      | nil => exact fun h => absurd h.1 (by simp)
      | cons d y' => exact fun h => hcomma ⟨List.cons_ne_nil _ _, h.2⟩
    rw [if_neg hcomma']
    by_cases hfits : ofst + cnt ≤ zSrc.length ∧ total + cnt ≤ limit
    · have hpiece : ((zSrc.drop ofst).take cnt).length = cnt := by
        rw [List.length_take, List.length_drop]
        omega
      refine Or.inl ⟨_, if_pos hfits.1, by omega, ?_⟩
      rw [hpiece, if_neg (by omega), if_neg (by omega), if_pos (by omega),
        Nat.mod_eq_of_lt (by omega)]
      -- without its comma, the copy is the last command
      cases y' with
      | nil => exact (applyLoop_behind _ _ _).trans (applyLoop_nil _ _ _).symm
      | cons d y' =>
        rw [List.length_cons, Nat.cast_add, Nat.cast_one, Int.add_sub_cancel]
        rfl
    · refine Or.inr ⟨fun x hx => ?_, ?_⟩
      · split_ifs at hx with hcopy
        obtain rfl := Option.some.inj hx
        rw [List.length_take, List.length_drop]
        omega
      · split_ifs with htot hend hin
        · exact Or.inl rfl
        · exact Or.inl rfl
        · omega
        · exact Or.inr ⟨rfl, ofst, cnt, rfl, by omega⟩
  · rename_i y hy
    split_ifs at h with hlong
    obtain ⟨rfl, rfl⟩ := Command.edit.inj h
    rw [hy, List.length_cons] at hlen
    rw [applyLoop, if_neg hne, if_neg hstart, deltaGetInt_append, hy]
    generalize (readNumber z).1 = cnt at hlong ⊢
    have htake : (y.take cnt).length = cnt := List.length_take_of_le (not_lt.1 hlong)
    have hdrop : ((y.drop cnt).length : ℤ) = y.length - cnt := by
      rw [List.length_drop]
      omega
    simp only [List.cons_append, List.length_cons, Nat.cast_add, Nat.cast_one, Int.add_sub_cancel]
    rw [Int.emod_eq_of_lt (by omega) (by omega)]
    by_cases hfits : total + cnt ≤ limit
    · refine Or.inl ⟨y.take cnt, rfl, by omega, ?_⟩
      rw [htake, if_neg (by omega), if_neg (by omega),
        if_pos ⟨by rw [List.length_append]; omega, by omega⟩, Nat.mod_eq_of_lt (by omega),
        List.drop_append_of_le_length (not_lt.1 hlong),
        List.take_append_of_le_length (not_lt.1 hlong), hdrop]
    · refine Or.inr ⟨fun x hx => ?_, Or.inl (if_pos (by omega))⟩
      obtain rfl := Option.some.inj hx
      omega
  · exact absurd h (by simp)
  · exact absurd h (by simp)

/-- **The loop accepts the texts of scripts.** -/
theorem applyLoop_eq_done_iff (hsrc : zSrc.length < 2 ^ 31) (hlimit : limit < 2 ^ 31) (fuel : ℕ)
    {total : ℕ} {z zOut x : Bytes} (hz : z.length < 2 ^ 31) (htotal : zOut.length = total)
    (hle : total ≤ limit) :
    applyLoop zSrc limit fuel (z ++ 0 :: c :: after) z.length total zOut = .done x ↔
      (commands fuel z).2 = true ∧ ∃ y, patch zSrc (commands fuel z).1 = some y ∧
        zOut ++ y = x ∧ total + y.length = limit := by
  induction fuel generalizing z total zOut with
  | zero => simp [applyLoop, commands]
  | succ fuel ih =>
    rw [commands]
    cases hcmd : readCommand z with
    | bad => simp [applyLoop_bad hz hcmd]
    | stop =>
      rw [applyLoop_stop hcmd]
      by_cases hend : total = limit
      · simp [hend]
      · simp [hend]
    | edit e rest =>
      have hrest := length_readCommand hcmd
      simp only [patch_eq_some_cons]
      rcases applyLoop_edit fuel hsrc hlimit hz htotal hle hcmd with
        ⟨y, hy, hfits, hstep⟩ | ⟨hnot, hstep⟩
      · rw [hstep, ih (by omega) (by rw [List.length_append, htotal]) hfits]
        refine and_congr_right fun _ => ⟨?_, ?_⟩
        · rintro ⟨y', hy', rfl, hlen⟩
          refine ⟨y ++ y', ⟨y, y', hy, hy', rfl⟩, (List.append_assoc ..).symm, ?_⟩
          rw [List.length_append]
          omega
        · rintro ⟨-, ⟨y₀, y', hy₀, hy', rfl⟩, rfl, hlen⟩
          obtain rfl := Option.some.inj (hy.symm.trans hy₀)
          refine ⟨y', hy', List.append_assoc .., ?_⟩
          rw [List.length_append] at hlen
          omega
      · refine ⟨fun h => ?_, ?_⟩
        · rcases hstep with hstep | ⟨hstep, -⟩ <;> exact absurd (hstep.symm.trans h) (by simp)
        · rintro ⟨-, -, ⟨y, y', hy, -, rfl⟩, -, hlen⟩
          have hlarge := hnot y hy
          rw [List.length_append] at hlen
          omega

/-- **The loop leaves its buffers only after an overflow.** -/
theorem overflow_of_applyLoop (hsrc : zSrc.length < 2 ^ 31) (hlimit : limit < 2 ^ 31) (fuel : ℕ)
    {total : ℕ} {z zOut : Bytes} (hz : z.length < 2 ^ 31) (htotal : zOut.length = total)
    (hle : total ≤ limit)
    (h : applyLoop zSrc limit fuel (z ++ 0 :: c :: after) z.length total zOut = .fault) :
    ∃ ofst cnt, .copy ofst cnt ∈ (commands fuel z).1 ∧ 2 ^ 32 ≤ ofst + cnt := by
  induction fuel generalizing z total zOut with
  | zero => simp [applyLoop] at h
  | succ fuel ih =>
    rw [commands]
    cases hcmd : readCommand z with
    | bad => simp [applyLoop_bad hz hcmd] at h
    | stop =>
      rw [applyLoop_stop hcmd] at h
      split_ifs at h
    | edit e rest =>
      have hrest := length_readCommand hcmd
      rcases applyLoop_edit fuel hsrc hlimit hz htotal hle hcmd with
        ⟨y, -, hfits, hstep⟩ | ⟨-, hstep | ⟨-, ofst, cnt, rfl, hover⟩⟩
      · obtain ⟨ofst, cnt, hmem, hover⟩ :=
          ih (by omega) (by rw [List.length_append, htotal]) hfits (hstep.symm.trans h)
        exact ⟨ofst, cnt, List.mem_cons_of_mem _ hmem, hover⟩
      · exact absurd (hstep.symm.trans h) (by simp)
      · exact ⟨ofst, cnt, List.mem_cons_self, hover⟩

end Loop

theorem commands_nil (fuel : ℕ) : commands fuel [] = ([], false) := by
  cases fuel with
  | zero => rfl
  | succ fuel => rfl

/-- More fuel than the text has bytes changes nothing. -/
theorem commands_eq (fuel fuel' : ℕ) {z : Bytes} (hfuel : z.length ≤ fuel)
    (hfuel' : z.length ≤ fuel') : commands fuel z = commands fuel' z := by
  induction fuel generalizing fuel' z with
  | zero => rw [List.length_eq_zero_iff.1 (Nat.le_zero.1 hfuel), commands_nil, commands_nil]
  | succ fuel ih =>
    cases fuel' with
    | zero => rw [List.length_eq_zero_iff.1 (Nat.le_zero.1 hfuel'), commands_nil, commands_nil]
    | succ fuel' =>
      rw [commands, commands]
      cases hcmd : readCommand z with
      | bad => rfl
      | stop => rfl
      | edit e rest =>
        have hrest := length_readCommand hcmd
        dsimp only
        rw [ih fuel' (by omega) (by omega)]

/-- The commands of a delta, which follow the line with the size. -/
def script (zDelta : Bytes) : List (Edit UInt8) × Bool :=
  commands (readNumber zDelta).2.tail.length (readNumber zDelta).2.tail

section Delta

variable {zSrc zDelta behind : Bytes}

/-- **The size line is read twice**: a delta without a size is refused, and for the others the loop
is run on what follows the line, if there is memory for the output. -/
theorem deltaApplyFunc_cases (zSrc : Bytes) (hne : zDelta ≠ []) (hb : Terminated behind) :
    (∃ v < 0, deltaOutputSize (sqlite3ValueBlob zDelta behind) zDelta.length = some v ∧
      deltaApplyFunc zSrc zDelta behind = .error) ∨
    ∃ (n fuel : ℕ) (c : UInt8) (after : Bytes),
      deltaOutputSize (sqlite3ValueBlob zDelta behind) zDelta.length = some (n : ℤ) ∧
      n < 2 ^ 31 ∧ (readNumber zDelta).2.tail.length ≤ fuel ∧
      deltaApplyFunc zSrc zDelta behind =
        if (n : ℤ) + 1 > maxAllocation then .error
        else
          match applyLoop zSrc n fuel ((readNumber zDelta).2.tail ++ 0 :: c :: after)
            (readNumber zDelta).2.tail.length 0 [] with
          | .done aOut => if (aOut.length : ℤ) ≠ n then .error else .done aOut
          | r => r := by
  obtain ⟨c, after, rfl⟩ := hb
  have hlt := readNumber_lt zDelta
  have hget := deltaGetInt_append zDelta (c :: after)
  have hblob : sqlite3ValueBlob zDelta (0 :: c :: after) = zDelta ++ 0 :: c :: after := if_neg hne
  have hsize : deltaOutputSize (zDelta ++ 0 :: c :: after) zDelta.length =
      if (readNumber zDelta).2.headD 0 ≠ 10 then some (-1)
      else some (if (readNumber zDelta).1 < 2 ^ 31 then ((readNumber zDelta).1 : ℤ)
        else (readNumber zDelta).1 - 2 ^ 32) := by
    rw [deltaOutputSize, hget]
    dsimp only
    rw [headD_append_nul]
  unfold deltaApplyFunc
  dsimp only
  rw [hblob, hsize]
  by_cases hline : (readNumber zDelta).2.headD 0 ≠ 10
  · rw [if_pos hline]
    exact Or.inl ⟨-1, by decide, rfl, rfl⟩
  rw [if_neg hline]
  obtain ⟨z, hz⟩ : ∃ z, (readNumber zDelta).2 = 10 :: z := by
    cases hrest : (readNumber zDelta).2 with
    | nil => simp [hrest] at hline
    | cons d z => exact ⟨z, by simpa [hrest] using hline⟩
  by_cases hint : (readNumber zDelta).1 < 2 ^ 31
  · rw [if_pos hint]
    refine Or.inr ⟨_, (z ++ 0 :: c :: after).length + 1, c, after, rfl, hint, ?_, ?_⟩
    · rw [hz, List.tail_cons, List.length_append]
      omega
    · dsimp only
      have hlen : (((10 :: z).length : ℕ) : ℤ) - 1 = z.length := by simp
      rw [if_neg (by omega), deltaApply, hget, hz, List.cons_append]
      exact hlen ▸ rfl
  · rw [if_neg hint]
    refine Or.inl ⟨_, by omega, rfl, ?_⟩
    dsimp only
    rw [if_pos (by omega)]

theorem length_tail_readNumber (h : zDelta.length < 2 ^ 31) :
    (readNumber zDelta).2.tail.length < 2 ^ 31 := by
  have hle := length_readNumber_le zDelta
  rw [List.length_tail]
  omega

/-- **What is accepted**: the deltas that end with a checksum and whose commands produce a target of
the announced size. The checksum itself is not compared. -/
theorem deltaApplyFunc_eq_done_iff {x : Bytes} (hne : zDelta ≠ []) (hb : Terminated behind)
    (hsrc : zSrc.length < 2 ^ 30) (hdelta : zDelta.length < 2 ^ 30) (hx : x.length < 2 ^ 30) :
    deltaApplyFunc zSrc zDelta behind = .done x ↔
      deltaOutputSize (sqlite3ValueBlob zDelta behind) zDelta.length = some (x.length : ℤ) ∧
        (script zDelta).2 = true ∧ patch zSrc (script zDelta).1 = some x := by
  have hrest := length_tail_readNumber (show zDelta.length < 2 ^ 31 by omega)
  rcases deltaApplyFunc_cases zSrc hne hb with
    ⟨v, hv, hsize, happly⟩ | ⟨n, fuel, c, after, hsize, hn, hfuel, happly⟩
  · rw [happly, hsize]
    refine ⟨fun h => absurd h (by simp), fun h => ?_⟩
    have hlen := Option.some.inj h.1
    omega
  have hempty : ([] : Bytes).length = 0 := rfl
  have hscript : commands fuel (readNumber zDelta).2.tail = script zDelta :=
    commands_eq _ _ hfuel le_rfl
  have hiff : ∀ y, applyLoop zSrc n fuel ((readNumber zDelta).2.tail ++ 0 :: c :: after)
      (readNumber zDelta).2.tail.length 0 [] = .done y ↔ (script zDelta).2 = true ∧
        ∃ y', patch zSrc (script zDelta).1 = some y' ∧ y' = y ∧ y'.length = n := fun y => by
    refine (applyLoop_eq_done_iff (by omega) hn fuel hrest hempty (Nat.zero_le _)).trans ?_
    simp only [hscript, List.nil_append, Nat.zero_add]
  rw [happly, hsize, Option.some.injEq]
  constructor
  · intro h
    split_ifs at h with hmemory
    split at h
    · rename_i y hy
      obtain ⟨hend, y', hpatch, rfl, hlen⟩ := (hiff y).1 hy
      rw [if_neg (by simp [hlen]), Applied.done.injEq] at h
      subst h
      exact ⟨by rw [hlen], hend, hpatch⟩
    · rename_i hnot
      exact absurd h (hnot x)
  · rintro ⟨hlen, hend, hpatch⟩
    obtain rfl := Int.ofNat.inj hlen
    rw [(hiff x).2 ⟨hend, x, hpatch, rfl, rfl⟩, if_neg (by unfold maxAllocation; omega)]
    exact if_neg (not_not.2 rfl)

/-- A text with a copy, as `deltaCreate` writes it. -/
theorem deltaApplyFunc_eq_done_iff_sample :
    deltaApplyFunc [97, 98] [51, 10, 50, 64, 48, 44, 49, 58, 99, 48, 59] [0, 0] =
        .done [97, 98, 99] ↔
      deltaOutputSize (sqlite3ValueBlob [51, 10, 50, 64, 48, 44, 49, 58, 99, 48, 59] [0, 0])
          (11 : ℕ) = some ((3 : ℕ) : ℤ) ∧
        (script [51, 10, 50, 64, 48, 44, 49, 58, 99, 48, 59]).2 = true ∧
          patch [97, 98] (script [51, 10, 50, 64, 48, 44, 49, 58, 99, 48, 59]).1 =
            some [97, 98, 99] :=
  deltaApplyFunc_eq_done_iff (by decide) ⟨0, [], rfl⟩ (by decide) (by decide) (by decide)

/-- **The decoder leaves its buffers only after an overflow**: some copy of the delta has an end
that does not fit into 32 bits. -/
theorem overflow_of_fault (hne : zDelta ≠ []) (hb : Terminated behind)
    (hsrc : zSrc.length < 2 ^ 31) (hdelta : zDelta.length < 2 ^ 31)
    (h : deltaApplyFunc zSrc zDelta behind = .fault) :
    ∃ ofst cnt, .copy ofst cnt ∈ (script zDelta).1 ∧ 2 ^ 32 ≤ ofst + cnt := by
  have hrest := length_tail_readNumber hdelta
  rcases deltaApplyFunc_cases zSrc hne hb with
    ⟨v, hv, hsize, happly⟩ | ⟨n, fuel, c, after, hsize, hn, hfuel, happly⟩
  · exact absurd (happly.symm.trans h) (by simp)
  rw [happly] at h
  split_ifs at h with hmemory
  split at h
  · split_ifs at h
  · have hempty : ([] : Bytes).length = 0 := rfl
    have hscript : commands fuel (readNumber zDelta).2.tail = script zDelta :=
      commands_eq _ _ hfuel le_rfl
    rw [← hscript]
    exact overflow_of_applyLoop hsrc hn _ hrest hempty (Nat.zero_le _) h

/-- A copy of `2 ^ 32 - 1` bytes from 1 on passes the checks. -/
theorem overflow_of_fault_sample : ∃ ofst cnt, .copy ofst cnt ∈ (script
    [50, 10, 49, 58, 97, 51, 126, 126, 126, 126, 126, 64, 49, 44]).1 ∧ 2 ^ 32 ≤ ofst + cnt :=
  overflow_of_fault (by decide) ⟨0, [], rfl⟩ (by decide : ([97] : Bytes).length < 2 ^ 31)
    (by decide)
    (by decide +kernel)

end Delta

end TemporalFs.Fossil
