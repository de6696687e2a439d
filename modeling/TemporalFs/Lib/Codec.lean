import Mathlib

/-!
# Values in a stream of bytes

A codec writes a value as bytes and reads the first value off a stream. What was written is read
back, whatever comes after it, for the values that fit. Codecs for records are put together from
codecs for their fields.

## Main definitions

* `leBytes`, `leValue`: a number in a fixed count of bytes, the lowest first.
* `Codec`: how a value is written and read, with the law that connects the two.
* `Codec.unsigned`, `Codec.signed`, `Codec.block`: codecs for fields.
* `Codec.seq`, `Codec.dep`, `Codec.imap`: codecs for records.
* `Codec.readOne`, `Codec.readAll`: the value or the values that take up a stream.

## Main results

* `Codec.readAll_writeAll`: values written one behind the other are read back.
-/

/-- The lowest `n` bytes of a number, the lowest one first. -/
def leBytes : ℕ → ℕ → List UInt8
  | 0, _ => []
  | n + 1, v => UInt8.ofNat v :: leBytes n (v / 256)

/-- The number of which these are the bytes. -/
def leValue (l : List UInt8) : ℕ := Nat.ofDigits 256 (l.map UInt8.toNat)

@[simp] theorem length_leBytes (n v : ℕ) : (leBytes n v).length = n := by
  induction n generalizing v with
  | zero => rfl
  | succ n ih => rw [leBytes, List.length_cons, ih]

theorem leValue_leBytes (n v : ℕ) : leValue (leBytes n v) = v % 256 ^ n := by
  induction n generalizing v with
  | zero => rw [leBytes, leValue, List.map_nil, Nat.ofDigits_nil, pow_zero, Nat.mod_one]
  | succ n ih =>
    have hrest : Nat.ofDigits 256 ((leBytes n (v / 256)).map UInt8.toNat) = v / 256 % 256 ^ n :=
      ih (v / 256)
    rw [leBytes, leValue, List.map_cons, Nat.ofDigits_cons, hrest, pow_succ', Nat.mod_mul,
      UInt8.toNat_ofNat']

/-- How a value is written as bytes, and how the first one is read off a stream. -/
structure Codec (α : Type) where
  write : α → List UInt8
  read : List UInt8 → Option (α × List UInt8)
  /-- The values that can be told apart by their bytes. -/
  Fits : α → Prop
  read_write : ∀ a, Fits a → ∀ l, read (write a ++ l) = some (a, l)

namespace Codec

variable {α β : Type}

/-! ### Fields -/

/-- The first `n` bytes of a stream, if there are as many. -/
def split (n : ℕ) (l : List UInt8) : Option (List UInt8 × List UInt8) :=
  if n ≤ l.length then some (l.splitAt n) else none

theorem split_append {n : ℕ} {l : List UInt8} (h : l.length = n) (l' : List UInt8) :
    split n (l ++ l') = some (l, l') := by
  subst h
  rw [split, if_pos (by rw [List.length_append]; exact Nat.le_add_right _ _), List.splitAt_eq,
    List.take_left, List.drop_left]

/-- A number in `n` bytes. -/
def unsigned (n : ℕ) : Codec ℕ where
  write v := leBytes n v
  read l := (split n l).map (Prod.map leValue id)
  Fits v := v < 256 ^ n
  read_write v hv l := by
    rw [split_append (length_leBytes n v), Option.map_some, Prod.map_apply, leValue_leBytes,
      Nat.mod_eq_of_lt hv, id]

/-- An integer in `n` bytes, by its two's complement. -/
def signed (n : ℕ) : Codec ℤ where
  write v := leBytes n (v % (256 ^ n : ℕ)).toNat
  read l := (split n l).map (Prod.map (fun l => Int.bmod (leValue l) (256 ^ n)) id)
  Fits v := Int.bmod v (256 ^ n) = v
  read_write v hv l := by
    have hpos : (0 : ℤ) < (256 ^ n : ℕ) := by positivity
    have hnonneg := Int.emod_nonneg v hpos.ne'
    have hlt : (v % (256 ^ n : ℕ)).toNat < 256 ^ n := by
      have := Int.emod_lt_of_pos v hpos
      omega
    rw [split_append (length_leBytes _ _), Option.map_some, Prod.map_apply, leValue_leBytes,
      Nat.mod_eq_of_lt hlt, Int.toNat_of_nonneg hnonneg, Int.emod_bmod, hv, id]

/-- The integers that fit are those with their sign in `n` bytes. -/
theorem signed_fits {n : ℕ} {v : ℤ} (hlo : -(256 ^ n : ℕ) ≤ v * 2) (hhi : v * 2 < (256 ^ n : ℕ)) :
    (signed n).Fits v :=
  Int.bmod_eq_of_le_mul_two hlo hhi

/-- A block of `n` bytes. -/
def block (n : ℕ) : Codec (List UInt8) where
  write l := l
  read := split n
  Fits l := l.length = n
  read_write _ hl l' := split_append hl l'

/-! ### Records -/

/-- A value, and one whose layout depends on it. -/
def dep (c : Codec α) (d : α → Codec β) : Codec (α × β) where
  write p := c.write p.1 ++ (d p.1).write p.2
  read l := (c.read l).bind fun p => ((d p.1).read p.2).map (Prod.map (p.1, ·) id)
  Fits p := c.Fits p.1 ∧ (d p.1).Fits p.2
  read_write p hp l := by
    have hfst := c.read_write p.1 hp.1 ((d p.1).write p.2 ++ l)
    have hsnd := (d p.1).read_write p.2 hp.2 l
    rw [List.append_assoc, hfst, Option.bind_some, hsnd]
    rfl

/-- One value behind the other. -/
def seq (c : Codec α) (d : Codec β) : Codec (α × β) := c.dep fun _ => d

/-- Values of `β` by the values of `α` that stand for them. -/
def imap (c : Codec α) (f : α → β) (g : β → α) : Codec β where
  write b := c.write (g b)
  read l := (c.read l).map (Prod.map f id)
  Fits b := c.Fits (g b) ∧ f (g b) = b
  read_write b hb l := by
    rw [c.read_write (g b) hb.1, Option.map_some, Prod.map_apply, hb.2, id]

/-! ### Streams -/

/-- The value that takes up a stream. -/
def readOne (c : Codec α) (l : List UInt8) : Option α :=
  (c.read l).bind fun p => if p.2 = [] then some p.1 else none

theorem readOne_write (c : Codec α) {a : α} (h : c.Fits a) : c.readOne (c.write a) = some a := by
  have hread := c.read_write a h []
  rw [List.append_nil] at hread
  rw [readOne, hread, Option.bind_some, if_pos rfl]

/-- One value after the other, while the fuel lasts. -/
def readMany (c : Codec α) : ℕ → List UInt8 → Option (List α)
  | _, [] => some []
  | 0, _ :: _ => none
  | n + 1, b :: l => (c.read (b :: l)).bind fun p => (c.readMany n p.2).map (p.1 :: ·)

/-- The values in a stream; `none` where it does not end behind one. -/
def readAll (c : Codec α) (l : List UInt8) : Option (List α) := c.readMany l.length l

theorem readMany_writeAll (c : Codec α) {as : List α} (hfits : ∀ a ∈ as, c.Fits a)
    (hwrite : ∀ a ∈ as, c.write a ≠ []) {n : ℕ} (hn : as.length ≤ n) :
    c.readMany n (as.flatMap c.write) = some as := by
  induction as generalizing n with
  | nil => rw [List.flatMap_nil, readMany]
  | cons a as ih =>
    obtain ⟨n, rfl⟩ : ∃ m, n = m + 1 :=
      ⟨n - 1, by rw [List.length_cons] at hn; omega⟩
    have hrest := ih (fun b hb => hfits b (List.mem_cons_of_mem _ hb))
      (fun b hb => hwrite b (List.mem_cons_of_mem _ hb)) (Nat.le_of_succ_le_succ hn)
    have hne : c.write a ++ as.flatMap c.write ≠ [] :=
      List.append_ne_nil_of_left_ne_nil (hwrite a List.mem_cons_self) _
    rw [List.flatMap_cons]
    obtain ⟨x, l, hl⟩ := List.exists_cons_of_ne_nil hne
    rw [hl, readMany, ← hl, c.read_write a (hfits a List.mem_cons_self), Option.bind_some, hrest]
    rfl

/-- **Values written one behind the other** are read back. -/
theorem readAll_writeAll (c : Codec α) {as : List α} (hfits : ∀ a ∈ as, c.Fits a)
    (hwrite : ∀ a ∈ as, c.write a ≠ []) : c.readAll (as.flatMap c.write) = some as := by
  refine c.readMany_writeAll hfits hwrite ?_
  induction as with
  | nil => exact Nat.zero_le _
  | cons a as ih =>
    have hpos := List.length_pos_iff.2 (hwrite a List.mem_cons_self)
    have hle := ih (fun b hb => hfits b (List.mem_cons_of_mem _ hb))
      (fun b hb => hwrite b (List.mem_cons_of_mem _ hb))
    rw [List.flatMap_cons, List.length_append, List.length_cons]
    omega

end Codec
