import Homestead.Lib.Leb128
import Homestead.Model.ImpuCodec
import Mathlib.Data.Nat.Bitwise
import Mathlib.Data.Nat.Digits.Lemmas
import Mathlib.Tactic.IntervalCases
import Mathlib.Tactic.NormNum
import Mathlib.Tactic.Ring

/-!
# `Homestead.Proofs.Varbyte`: the size in front of a record

`encode_varbyte` and `decode_varbyte` store a size in groups of seven bits. The reader takes any
bytes, since what a store answers may not be a record at all.

`decodeVarbyteOn_fst` is what the reader makes of them: it gathers the groups of the number that
starts there, and drops the sum if it is `INT_MAX` or more. `gathered_eq` is that sum. Each group
is shifted as an `int`, so it is the low 32 bits of the number, with whatever the machine gives for
a shift that is wider than an `int`. A number of more than 32 bits can thus be taken for a small
one.

`decode_varbyte_exact_iff` says for which bytes the reader answers the number or 0 on every
machine. `encode_decode_varbyte` is the round trip: a size below `INT_MAX` has five groups at
most, and none of their shifts overflows. `decodeVarbyteOn_lost` ties the machine that loses all
the bits to the reader that records are read with.
-/

set_option autoImplicit false

namespace Homestead

/-! ### Bits -/

theorem and_0x7f (n : Nat) : n &&& 0x7f = n % 128 :=
  Nat.and_two_pow_sub_one_eq_mod n 7

theorem or_0x80 (n : Nat) : (n % 128) ||| 0x80 = n % 128 + 128 := by
  have h := Nat.two_pow_add_eq_or_of_lt (show n % 128 < 2 ^ 7 by omega) 1
  rw [show 2 ^ 7 * 1 = 0x80 by rfl] at h
  rw [Nat.or_comm]
  omega

/-- The flag of a byte is its bit of weight 128. -/
theorem and_0x80 {n : Nat} (h : n < 256) : (n &&& 0x80 = 0) ↔ n < 128 := by
  rw [show 0x80 = 2 ^ 7 by rfl, Nat.and_two_pow, Nat.testBit_eq_decide_div_mod_eq]
  by_cases hn : n < 128
  · simp [show n / 128 = 0 by omega, hn]
  · simp [show n / 128 = 1 by omega, hn]

theorem or_pairs (a b c d : Nat) : (a ||| b) ||| (c ||| d) = (a ||| c) ||| (b ||| d) := by
  ac_rfl

theorem shiftLeft_group (bits i : Nat) : bits <<< (7 * i) = bits * 128 ^ i := by
  rw [Nat.shiftLeft_eq, Nat.pow_mul]

/-! ### An `int` as a 64-bit operand -/

theorem intOperand_eq (n : Nat) :
    intOperand n = if n % 2 ^ 32 < 2 ^ 31 then n % 2 ^ 32 else n % 2 ^ 32 + (2 ^ 64 - 2 ^ 32) := by
  unfold intOperand
  rw [Int.bmod_def]
  split <;> split <;> omega

theorem intOperand_of_lt {n : Nat} (h : n < 2 ^ 31) : intOperand n = n := by
  rw [intOperand_eq]
  split <;> omega

/-- What the reader takes for a size is the low 32 bits, and the rest is too long. -/
theorem intOperand_lt_intMax_iff (n : Nat) : intOperand n < intMax ↔ n % 2 ^ 32 < intMax := by
  rw [intOperand_eq]
  unfold intMax
  split <;> omega

/-- The sign extension goes bit by bit. -/
theorem intOperand_or (a b : Nat) : intOperand ↑(a ||| b) = intOperand a ||| intOperand b := by
  have hext : ∀ n : Nat, intOperand n = ((BitVec.ofNat 32 n).signExtend 64).toNat := by
    intro n
    rw [BitVec.signExtend, BitVec.toNat_ofInt, BitVec.toInt_ofNat']
    rfl
  rw [hext, hext, hext, BitVec.ofNat_or, BitVec.signExtend_or, BitVec.toNat_or]

/-- The shift is done on the low 32 bits, so it is exact up to them. -/
theorem shiftedBits_eq (bits i : Nat) : shiftedBits bits i = intOperand ↑(bits * 128 ^ i) := by
  unfold shiftedBits intOperand
  rw [shiftLeft_group]

/-- A group and the groups above it have no bit in common. -/
theorem group_or {g i : Nat} (hg : g < 128) (n : Nat) :
    g * 128 ^ i ||| n * 128 ^ (i + 1) = (g + 128 * n) * 128 ^ i := by
  have hlow : g * 128 ^ i < 2 ^ (7 * (i + 1)) := by
    rw [Nat.pow_mul]
    calc g * 128 ^ i < 128 * 128 ^ i := Nat.mul_lt_mul_of_pos_right hg (Nat.pow_pos (by decide))
      _ = 128 ^ (i + 1) := by ring
  have hor := Nat.two_pow_add_eq_or_of_lt hlow n
  rw [Nat.pow_mul, show (2 ^ 7) ^ (i + 1) = 128 ^ (i + 1) by rfl] at hor
  rw [Nat.mul_comm n, Nat.or_comm, ← hor]
  ring

/-- Groups from the fifth on are beyond the 32 bits. -/
theorem intOperand_group {i : Nat} (hi : ¬ 7 * i < 32) (n : Nat) :
    intOperand ↑(n * 128 ^ i) = 0 := by
  obtain ⟨j, rfl⟩ := Nat.exists_eq_add_of_le (show 5 ≤ i by omega)
  have hmod : n * 128 ^ (5 + j) % 2 ^ 32 = 0 := by
    rw [show n * 128 ^ (5 + j) = 2 ^ 32 * (8 * n * 128 ^ j) by rw [Nat.pow_add]; ring]
    exact Nat.mul_mod_right _ _
  rw [intOperand_eq, hmod]
  rfl

/-! ### The sum of the groups -/

/-- The groups of a number from the group `i` on, as the reader adds them up. -/
def gathered (m : Overshift) : Nat → List Nat → Nat
  | _, [] => 0
  | i, g :: gs => shiftedBitsOn m g i ||| gathered m (i + 1) gs

/-- The part of it that comes from shifts wider than an `int`. -/
def overshifts (m : Overshift) : Nat → List Nat → Nat
  | _, [] => 0
  | i, g :: gs => (if 7 * i < 32 then 0 else intOperand (m.value g i)) ||| overshifts m (i + 1) gs

theorem shiftedBitsOn_eq (m : Overshift) (g i : Nat) :
    shiftedBitsOn m g i = intOperand ↑(g * 128 ^ i) |||
      (if 7 * i < 32 then 0 else intOperand (m.value g i)) := by
  unfold shiftedBitsOn
  split
  · rw [shiftedBits_eq, Nat.or_zero]
  · rename_i hi
    rw [intOperand_group hi, Nat.zero_or]

/-- The low 32 bits of the number, and what the machine gives for the rest. -/
theorem gathered_eq (m : Overshift) {gs : List Nat} (hlt : ∀ g ∈ gs, g < 128) (i : Nat) :
    gathered m i gs
      = intOperand (Nat.ofDigits 128 gs * 128 ^ i : Nat) ||| overshifts m i gs := by
  induction gs generalizing i with
  | nil =>
    rw [Nat.ofDigits_nil, Nat.zero_mul, intOperand_of_lt (by decide), Nat.zero_or]
    rfl
  | cons g gs ih =>
    have hrest := ih (fun x hx => hlt x (List.mem_cons_of_mem _ hx)) (i + 1)
    have hvalue : intOperand (Nat.ofDigits 128 (g :: gs) * 128 ^ i : Nat)
        = intOperand (g * 128 ^ i : Nat) |||
          intOperand (Nat.ofDigits 128 gs * 128 ^ (i + 1) : Nat) := by
      rw [← intOperand_or, group_or (hlt g List.mem_cons_self), Nat.ofDigits_cons]
    rw [gathered, overshifts, hrest, shiftedBitsOn_eq, hvalue]
    exact or_pairs _ _ _ _

/-- A group within the 32 bits does not matter for whether there are any beyond the fifth. -/
theorem lt_group_iff {g i : Nat} (hg : g < 128) (hi : 7 * i < 32) (n : Nat) :
    (g + 128 * n) * 128 ^ i < 2 ^ 35 ↔ n * 128 ^ (i + 1) < 2 ^ 35 := by
  have hcases : i < 5 := by omega
  interval_cases i <;> omega

theorem lt_wide_iff {i : Nat} (hi : ¬ 7 * i < 32) (n : Nat) : n * 128 ^ i < 2 ^ 35 ↔ n = 0 := by
  have hpow : 2 ^ 35 ≤ 128 ^ i :=
    calc 2 ^ 35 = 128 ^ 5 := by norm_num
      _ ≤ 128 ^ i := Nat.pow_le_pow_right (by decide) (by omega)
  constructor
  · intro hlt
    by_contra hne
    have hle : 128 ^ i ≤ n * 128 ^ i := Nat.le_mul_of_pos_left _ (Nat.pos_of_ne_zero hne)
    omega
  · rintro rfl
    simp

/-- A number of five groups leads to no shift that is wider than an `int`, but of zeros. -/
theorem overshifts_eq_zero (m : Overshift) {gs : List Nat} (hlt : ∀ g ∈ gs, g < 128) {i : Nat}
    (h : Nat.ofDigits 128 gs * 128 ^ i < 2 ^ 35) : overshifts m i gs = 0 := by
  induction gs generalizing i with
  | nil => rfl
  | cons g gs ih =>
    rw [Nat.ofDigits_cons] at h
    have hrest : Nat.ofDigits 128 gs * 128 ^ (i + 1) < 2 ^ 35 := by
      by_cases hi : 7 * i < 32
      · exact (lt_group_iff (hlt g List.mem_cons_self) hi _).mp h
      · have hzero := (lt_wide_iff hi _).mp h
        rw [show Nat.ofDigits 128 gs = 0 by omega]
        simp
    rw [overshifts, ih (fun x hx => hlt x (List.mem_cons_of_mem _ hx)) hrest, Nat.or_zero]
    split
    · rfl
    · rename_i hi
      have hzero := (lt_wide_iff hi _).mp h
      rw [show g = 0 by omega, m.value_zero]
      rfl

/-- A machine on which such a shift leaves one bit. -/
def Overshift.one : Overshift where
  value bits _ := if bits = 0 then 0 else 1
  value_zero _ := rfl

theorem overshifts_one {gs : List Nat} (hlt : ∀ g ∈ gs, g < 128) (i : Nat) :
    overshifts .one i gs = if Nat.ofDigits 128 gs * 128 ^ i < 2 ^ 35 then 0 else 1 := by
  induction gs generalizing i with
  | nil => simp [overshifts]
  | cons g gs ih =>
    have hg := hlt g List.mem_cons_self
    rw [overshifts, ih (fun x hx => hlt x (List.mem_cons_of_mem _ hx)) (i + 1), Nat.ofDigits_cons]
    by_cases hi : 7 * i < 32
    · rw [if_pos hi, Nat.zero_or]
      exact if_congr (lt_group_iff hg hi _).symm rfl rfl
    · -- One nonzero group beyond the width is enough.
      have hnext : ¬ 7 * (i + 1) < 32 := by omega
      have hvalue : intOperand (Overshift.one.value g i) = if g = 0 then 0 else 1 := by
        show intOperand (if g = 0 then 0 else 1) = _
        split <;> rfl
      simp only [if_neg hi, lt_wide_iff hi, lt_wide_iff hnext, hvalue]
      by_cases hzero : g = 0 <;> by_cases hhigh : Nat.ofDigits 128 gs = 0 <;> simp [hzero, hhigh]

/-! ### The reader -/

/-- How the loop ends that is entered inside the data with the sum `length`: at the end of a
number whose sum is small enough, or with a corrupt size. -/
inductive LoopEnds (m : Overshift) (data : Bytes) (offset i length : Nat) :
    Nat × Nat × Bool → Prop
  | number {gs : List Nat} (hgroups : Leb128.groups (data.drop offset) = some gs)
      (hlt : length ||| gathered m i gs < intMax) :
      LoopEnds m data offset i length (length ||| gathered m i gs, offset + gs.length, true)
  | corrupt {length' offset' : Nat} {done : Bool} (hwithin : offset' ≤ data.length)
      (hcorrupt : done = false ∨ intMax ≤ length')
      (hcause : ∀ gs, Leb128.groups (data.drop offset) = some gs →
        intMax ≤ length ||| gathered m i gs) :
      LoopEnds m data offset i length (length', offset', done)

/-- The number at an offset, by the flag of the byte there. -/
theorem groups_drop {data : Bytes} {offset : Nat} (h : offset < data.length) :
    Leb128.groups (data.drop offset) =
      if data[offset].toNat < 128 then some [data[offset].toNat]
      else (Leb128.groups (data.drop (offset + 1))).map ((data[offset].toNat % 128) :: ·) := by
  rw [List.drop_eq_getElem_cons h]
  rfl

/-- The groups after a flagged byte end the loop for the whole number. -/
theorem LoopEnds.more {m : Overshift} {data : Bytes} {offset i length g : Nat}
    {ends : Nat × Nat × Bool}
    (hgroups : Leb128.groups (data.drop offset)
      = (Leb128.groups (data.drop (offset + 1))).map (g :: ·))
    (h : LoopEnds m data (offset + 1) (i + 1) (length ||| shiftedBitsOn m g i) ends) :
    LoopEnds m data offset i length ends := by
  have hsum : ∀ gs, length ||| shiftedBitsOn m g i ||| gathered m (i + 1) gs
      = length ||| gathered m i (g :: gs) := by
    intro gs
    rw [gathered, Nat.or_assoc]
  cases h with
  | number hrest hlt =>
    rename_i gs
    rw [hrest] at hgroups
    rw [hsum] at hlt ⊢
    rw [Nat.add_assoc, Nat.add_comm 1]
    exact .number hgroups hlt
  | corrupt hwithin hcorrupt hcause =>
    refine .corrupt hwithin hcorrupt fun gs hgs => ?_
    rw [hgroups] at hgs
    obtain ⟨rest, hrest, rfl⟩ := Option.map_eq_some_iff.mp hgs
    rw [← hsum]
    exact hcause rest hrest

/-- Induction on what is left of the data. The sum only ever grows, so a sum that is too large
stays so, wherever the loop stops. -/
theorem loopEnds (m : Overshift) (data : Bytes) (offset i length : Nat)
    (hoffset : offset < data.length) :
    LoopEnds m data offset i length (decodeVarbyteLoopOn m data offset i length) := by
  have hbyte : (data.getD offset 0).toNat = data[offset].toNat := by
    rw [List.getD_eq_getElem _ _ hoffset]
  have hgroups := groups_drop hoffset
  rw [decodeVarbyteLoopOn]
  simp only [hbyte, and_0x7f, and_0x80 data[offset].toNat_lt]
  by_cases hflag : data[offset].toNat < 128
  · -- The last group.
    rw [if_pos hflag] at hgroups
    have hsum : length ||| shiftedBitsOn m (data[offset].toNat % 128) i
        = length ||| gathered m i [data[offset].toNat] := by
      rw [gathered, gathered, Nat.or_zero, Nat.mod_eq_of_lt hflag]
    rw [if_neg fun hgo => hgo.1 hflag, hsum, decide_eq_true hflag]
    by_cases hlt : length ||| gathered m i [data[offset].toNat] < intMax
    · exact .number hgroups hlt
    · refine .corrupt hoffset (.inr (Nat.le_of_not_lt hlt)) fun gs hgs => ?_
      obtain rfl : [data[offset].toNat] = gs := Option.some.inj (hgroups.symm.trans hgs)
      exact Nat.le_of_not_lt hlt
  · rw [if_neg hflag] at hgroups
    by_cases hsmall : length ||| shiftedBitsOn m (data[offset].toNat % 128) i < intMax
    · by_cases hnext : offset + 1 < data.length
      · rw [if_pos ⟨hflag, hsmall, hnext⟩]
        exact (loopEnds m data (offset + 1) (i + 1) _ hnext).more hgroups
      · -- The data ends within the number.
        rw [List.drop_eq_nil_of_le (Nat.le_of_not_lt hnext)] at hgroups
        rw [if_neg fun hgo => hnext hgo.2.2]
        refine .corrupt hoffset (.inl (decide_eq_false hflag)) fun gs hgs => ?_
        rw [hgroups] at hgs
        cases hgs
    · -- The sum is too large already.
      rw [if_neg fun hgo => hsmall hgo.2.1]
      refine .corrupt hoffset (.inr (Nat.le_of_not_lt hsmall)) fun gs hgs => ?_
      rw [hgroups] at hgs
      obtain ⟨rest, hrest, rfl⟩ := Option.map_eq_some_iff.mp hgs
      rw [gathered, ← Nat.or_assoc]
      exact Nat.le_trans (Nat.le_of_not_lt hsmall) Nat.left_le_or
termination_by data.length - offset

/-- The reader inside the data: it answers the sum of a number that ends there, or 0. -/
theorem decodeVarbyteOn_cases (m : Overshift) {data : Bytes} {offset : Nat}
    (hoffset : offset < data.length) :
    (∃ gs, Leb128.groups (data.drop offset) = some gs ∧ gathered m 0 gs < intMax ∧
      decodeVarbyteOn m data offset = (gathered m 0 gs, offset + gs.length)) ∨
    ((∀ gs, Leb128.groups (data.drop offset) = some gs → intMax ≤ gathered m 0 gs) ∧
      ∃ offset', offset' ≤ data.length ∧ decodeVarbyteOn m data offset = (0, offset')) := by
  have hends := loopEnds m data offset 0 0 hoffset
  unfold decodeVarbyteOn
  generalize decodeVarbyteLoopOn m data offset 0 0 = ends at hends ⊢
  cases hends with
  | number hgroups hlt =>
    rename_i gs
    rw [Nat.zero_or] at hlt ⊢
    exact .inl ⟨gs, hgroups, hlt, by simp [hlt]⟩
  | corrupt hwithin hcorrupt hcause =>
    simp only [Nat.zero_or] at hcause
    refine .inr ⟨hcause, _, hwithin, ?_⟩
    rcases hcorrupt with rfl | hlarge
    · simp
    · simp [hlarge]

theorem decodeVarbyteOn_of_number {m : Overshift} {data : Bytes} {offset : Nat} {gs : List Nat}
    (hgroups : Leb128.groups (data.drop offset) = some gs) (hlt : gathered m 0 gs < intMax) :
    decodeVarbyteOn m data offset = (gathered m 0 gs, offset + gs.length) := by
  have hoffset : offset < data.length := by
    by_contra hout
    rw [List.drop_eq_nil_of_le (Nat.le_of_not_lt hout)] at hgroups
    cases hgroups
  obtain ⟨gs', hgs', -, heq⟩ | ⟨hcause, -⟩ := decodeVarbyteOn_cases m hoffset
  · obtain rfl := Option.some.inj (hgroups.symm.trans hgs')
    exact heq
  · have hle := hcause gs hgroups
    omega

/-- The reader stays within the data that it is started in. -/
theorem decodeVarbyteOn_within (m : Overshift) {data : Bytes} {offset : Nat}
    (hoffset : offset < data.length) : (decodeVarbyteOn m data offset).2 ≤ data.length := by
  obtain ⟨gs, hgroups, -, heq⟩ | ⟨-, offset', hwithin, heq⟩ := decodeVarbyteOn_cases m hoffset
  · have hle := Leb128.length_groups_le hgroups
    rw [List.length_drop] at hle
    rw [heq]
    show offset + gs.length ≤ data.length
    omega
  · rw [heq]
    exact hwithin

/-- At the end of the data it reads the NUL after it, and steps over it. -/
theorem decodeVarbyteOn_end (m : Overshift) {data : Bytes} {offset : Nat}
    (hoffset : data.length ≤ offset) : decodeVarbyteOn m data offset = (0, offset + 1) := by
  have hbyte : data.getD offset 0 = 0 := List.getD_eq_default _ _ hoffset
  have hzero : shiftedBitsOn m 0 0 = 0 := by
    rw [shiftedBitsOn, if_pos (by decide)]
    decide
  have hloop : decodeVarbyteLoopOn m data offset 0 0 = (0, offset + 1, true) := by
    rw [decodeVarbyteLoopOn]
    simp only [hbyte]
    simp [hzero]
  unfold decodeVarbyteOn
  rw [hloop]
  rfl

/-- The check after the loop. -/
def checkedSize (n : Nat) : Nat := if n < intMax then n else 0

/-- The answer for any bytes and any offset. -/
theorem decodeVarbyteOn_fst (m : Overshift) (data : Bytes) (offset : Nat) :
    (decodeVarbyteOn m data offset).1 =
      ((Leb128.groups (data.drop offset)).map fun gs => checkedSize (gathered m 0 gs)).getD 0 := by
  by_cases hoffset : offset < data.length
  · obtain ⟨gs, hgroups, hlt, heq⟩ | ⟨hcause, offset', -, heq⟩ := decodeVarbyteOn_cases m hoffset
    · rw [heq, hgroups]
      exact (if_pos hlt).symm
    · rw [heq]
      cases hgroups : Leb128.groups (data.drop offset) with
      | none => rfl
      | some gs => exact (if_neg (Nat.not_lt.mpr (hcause gs hgroups))).symm
  · have hout := Nat.le_of_not_lt hoffset
    rw [decodeVarbyteOn_end m hout, List.drop_eq_nil_of_le hout]
    rfl

/-! ### The number and the sum -/

theorem overshifts_lost (i : Nat) (gs : List Nat) : overshifts .lost i gs = 0 := by
  induction gs generalizing i with
  | nil => rfl
  | cons g gs ih =>
    rw [overshifts, ih, Nat.or_zero]
    split <;> rfl

/-- What the reader should make of the number that starts at the offset. -/
def encodedLength (data : Bytes) (offset : Nat) : Nat :=
  ((Leb128.number (data.drop offset)).map checkedSize).getD 0

/-- The reader on the machine answers the number, or 0 for one that is not there or too long. -/
def DecodesExactly (m : Overshift) (data : Bytes) (offset : Nat) : Prop :=
  (decodeVarbyteOn m data offset).1 = encodedLength data offset

theorem decodesExactly_iff (m : Overshift) (data : Bytes) (offset : Nat) :
    DecodesExactly m data offset ↔ ∀ gs, Leb128.groups (data.drop offset) = some gs →
      checkedSize (gathered m 0 gs) = checkedSize (Nat.ofDigits 128 gs) := by
  unfold DecodesExactly encodedLength Leb128.number
  rw [decodeVarbyteOn_fst]
  cases Leb128.groups (data.drop offset) <;> simp

/-- The numbers that are not taken for another one. Each has a value or low 32 bits that the check
sees, or no group that is shifted out of an `int`. -/
def Recognized (n : Nat) : Prop :=
  n < intMax ∨ intMax ≤ n % 2 ^ 32 ∨ (n % 2 ^ 32 = 0 ∧ n < 2 ^ 35)

theorem checkedSize_gathered {gs : List Nat} (hlt : ∀ g ∈ gs, g < 128) :
    (∀ m, checkedSize (gathered m 0 gs) = checkedSize (Nat.ofDigits 128 gs))
      ↔ Recognized (Nat.ofDigits 128 gs) := by
  have hsum : ∀ m, gathered m 0 gs
      = intOperand (Nat.ofDigits 128 gs : Nat) ||| overshifts m 0 gs := by
    intro m
    rw [gathered_eq m hlt, Nat.pow_zero, Nat.mul_one]
  have hnone : ∀ m, Nat.ofDigits 128 gs < 2 ^ 35 → overshifts m 0 gs = 0 := by
    intro m hfive
    exact overshifts_eq_zero m hlt (by rwa [Nat.pow_zero, Nat.mul_one])
  have hone := overshifts_one hlt 0
  rw [Nat.pow_zero, Nat.mul_one] at hone
  generalize Nat.ofDigits 128 gs = n at hsum hnone hone
  constructor
  · intro hexact
    by_contra hrec
    unfold Recognized at hrec
    -- The number is too long, and its low 32 bits are not.
    have hlow : intOperand n = n % 2 ^ 32 := by
      rw [intOperand_eq, if_pos (by unfold intMax at hrec; omega)]
    have hlarge : checkedSize n = 0 := if_neg (by omega)
    have hlost := hexact .lost
    rw [hsum, overshifts_lost, Nat.or_zero, hlow, hlarge, checkedSize, if_pos (by omega)] at hlost
    have hwide : ¬ n < 2 ^ 35 := by omega
    have hleft := hexact .one
    rw [hsum, hone, if_neg hwide, hlow, hlost, hlarge] at hleft
    exact absurd hleft (by decide)
  · rintro (hsmall | hlow | ⟨hlow, hfive⟩) m
    · rw [hsum, hnone m (by unfold intMax at hsmall; omega), Nat.or_zero,
        intOperand_of_lt (by unfold intMax at hsmall; omega)]
    · have hle : intMax ≤ intOperand n := by
        rw [← Nat.not_lt, intOperand_lt_intMax_iff]
        omega
      have hsum_le : intMax ≤ gathered m 0 gs := by
        rw [hsum]
        exact Nat.le_trans hle Nat.left_le_or
      have hmod : n % 2 ^ 32 ≤ n := Nat.mod_le _ _
      rw [checkedSize, checkedSize, if_neg (by omega), if_neg (by omega)]
    · have hzero : intOperand n = 0 := by
        rw [intOperand_eq, hlow]
        rfl
      rw [hsum, hnone m hfive, hzero, Nat.or_zero, show checkedSize 0 = 0 by rfl]
      unfold checkedSize intMax
      split <;> omega

/-- The machines that lose the bits or keep one of them are enough to tell. -/
theorem forall_decodesExactly_iff (data : Bytes) (offset : Nat) :
    (∀ m, DecodesExactly m data offset)
      ↔ ∀ n, Leb128.number (data.drop offset) = some n → Recognized n := by
  simp only [decodesExactly_iff]
  constructor
  · intro h n hn
    obtain ⟨gs, hgs, rfl⟩ := Option.map_eq_some_iff.mp hn
    exact (checkedSize_gathered (Leb128.lt_of_mem_groups hgs)).mp fun m => h m gs hgs
  · intro h m gs hgs
    have hrec := h _ (Option.map_eq_some_iff.mpr ⟨gs, hgs, rfl⟩)
    exact (checkedSize_gathered (Leb128.lt_of_mem_groups hgs)).mpr hrec m

/-- The reader answers the number that starts at the offset, or 0 if it does not end or is too
long, on every machine, just when the number is recognized. It stays within the data just when it
is started inside it. -/
theorem decode_varbyte_exact_iff (data : Bytes) (offset : Nat) (hoffset : offset ≤ data.length) :
    ((∀ m, DecodesExactly m data offset ∧ (decodeVarbyteOn m data offset).2 ≤ data.length)
      ↔ offset < data.length ∧
        ∀ n, Leb128.number (data.drop offset) = some n → Recognized n) ∧
    ((∀ m, DecodesExactly m data offset)
      ↔ ∀ n, Leb128.number (data.drop offset) = some n → Recognized n) := by
  have hexact := forall_decodesExactly_iff data offset
  refine ⟨⟨fun h => ⟨?_, hexact.mp fun m => (h m).1⟩, fun ⟨hinside, h⟩ m => ?_⟩, hexact⟩
  · by_contra hend
    have hwithin := (h .lost).2
    rw [decodeVarbyteOn_end _ (Nat.le_of_not_lt hend)] at hwithin
    have hstep : offset + 1 ≤ data.length := hwithin
    omega
  · exact ⟨hexact.mpr h m, decodeVarbyteOn_within m hinside⟩

/-- A number of two groups, with a byte after it. -/
theorem decode_varbyte_exact_iff_example :
    Leb128.number [0xac, 0x02, 0x7f] = some 300 ∧
      ∀ m, DecodesExactly m [0xac, 0x02, 0x7f] 0 ∧
        (decodeVarbyteOn m [0xac, 0x02, 0x7f] 0).2 ≤ [(0xac : UInt8), 0x02, 0x7f].length := by
  have hnumber : Leb128.number [0xac, 0x02, 0x7f] = some 300 := by decide
  refine ⟨hnumber, (decode_varbyte_exact_iff _ 0 (by decide)).1.mpr ⟨by decide, ?_⟩⟩
  intro n hn
  obtain rfl : 300 = n := Option.some.inj (hnumber.symm.trans hn)
  exact .inl (by decide)

/-- Five bytes that hold `2 ^ 32 + 1`. The fifth group is shifted out of an `int`. -/
def wideNumber : Bytes := [0x81, 0x80, 0x80, 0x80, 0x10]

theorem decode_varbyte_exact_wide :
    Leb128.number wideNumber = some (2 ^ 32 + 1) ∧
      ∀ m, decodeVarbyteOn m wideNumber 0 = (1, 5) ∧ ¬ DecodesExactly m wideNumber 0 := by
  have hnumber : Leb128.number (wideNumber.drop 0) = some (2 ^ 32 + 1) := by decide
  refine ⟨hnumber, fun m => ?_⟩
  have hsum : gathered m 0 [1, 0, 0, 0, 16] = 1 := by
    rw [gathered_eq m (by decide), overshifts_eq_zero m (by decide) (by decide)]
    decide
  have hread : decodeVarbyteOn m wideNumber 0 = (1, 5) := by
    rw [decodeVarbyteOn_of_number (show _ = some [1, 0, 0, 0, 16] by decide)
      (by rw [hsum]; decide), hsum]
    rfl
  refine ⟨hread, ?_⟩
  rw [DecodesExactly, hread, encodedLength, hnumber]
  decide

/-- From the sixth group on the processors differ: here the shift is by 35 bits. -/
example : (decodeVarbyteOn .lost [0x80, 0x80, 0x80, 0x80, 0x80, 0x08] 0).1 = 0 ∧
    (decodeVarbyteOn .masked [0x80, 0x80, 0x80, 0x80, 0x80, 0x08] 0).1 = 64 := by
  simp only [decodeVarbyteOn_fst]
  decide

/-! ### Sizes that are written -/

/-- One step of the writer, on numbers. -/
theorem encodeVarbyte_eq {n : Nat} (h : 0 < n) :
    encodeVarbyte n
      = UInt8.ofNat (if n / 128 > 0 then n % 128 + 128 else n % 128) :: encodeVarbyte (n / 128) := by
  rw [encodeVarbyte]
  simp only [Nat.ne_of_gt h, if_false, and_0x7f, Nat.shiftRight_eq_div_pow]
  rw [or_0x80]

theorem encodeVarbyte_zero : encodeVarbyte 0 = [] := by
  rw [encodeVarbyte]
  simp

/-- The writer stores the digits of the size. -/
theorem encodeVarbyte_digits (n : Nat) : encodeVarbyte n = Leb128.ofGroups (Nat.digits 128 n) := by
  induction n using Nat.strongRecOn with
  | ind n ih =>
    by_cases hzero : n = 0
    · rw [hzero, encodeVarbyte_zero, Nat.digits_zero]
      rfl
    · have hpos : 0 < n := Nat.pos_of_ne_zero hzero
      rw [encodeVarbyte_eq hpos, ih (n / 128) (by omega), Nat.digits_def' (by decide) hpos]
      by_cases hlast : n / 128 = 0
      · simp [hlast, Leb128.ofGroups]
      · rw [if_pos (Nat.pos_of_ne_zero hlast),
          Nat.digits_def' (by decide) (Nat.pos_of_ne_zero hlast)]
        rfl

/-- The size is read back on every machine, whatever is before and after it. -/
theorem decodeVarbyteOn_encodeVarbyte (m : Overshift) {n : Nat} (hpos : 0 < n) (hmax : n < intMax)
    (pre rest : Bytes) :
    decodeVarbyteOn m (pre ++ (encodeVarbyte n ++ rest)) pre.length
      = (n, pre.length + (encodeVarbyte n).length) := by
  have hlt : ∀ g ∈ Nat.digits 128 n, g < 128 := fun g hg => Nat.digits_lt_base (by decide) hg
  have hne : Nat.digits 128 n ≠ [] := Nat.digits_ne_nil_iff_ne_zero.mpr (Nat.ne_of_gt hpos)
  have hgroups : Leb128.groups ((pre ++ (encodeVarbyte n ++ rest)).drop pre.length)
      = some (Nat.digits 128 n) := by
    rw [List.drop_left, encodeVarbyte_digits, Leb128.groups_ofGroups hne hlt]
  -- The number is below `2 ^ 31`, so it has no group that a shift loses.
  have hsum : gathered m 0 (Nat.digits 128 n) = n := by
    have hsmall : n < 2 ^ 31 := by unfold intMax at hmax; omega
    have hfive : Nat.ofDigits 128 (Nat.digits 128 n) * 128 ^ 0 < 2 ^ 35 := by
      rw [Nat.ofDigits_digits]
      omega
    rw [gathered_eq m hlt, overshifts_eq_zero m hlt hfive, Nat.ofDigits_digits, Nat.or_zero,
      Nat.pow_zero, Nat.mul_one, intOperand_of_lt hsmall]
  rw [decodeVarbyteOn_of_number hgroups (by rwa [hsum]), hsum, encodeVarbyte_digits,
    Leb128.length_ofGroups]

/-- A group of a size is shifted by less than the width of an `int`, to a positive `int`. -/
theorem shift_of_encodeVarbyte {n : Nat} (hmax : n < intMax) {i : Nat} {b : UInt8}
    (h : (encodeVarbyte n)[i]? = some b) :
    7 * i < 32 ∧ (b.toNat &&& 0x7f) <<< (7 * i) < 2 ^ 31 := by
  have hlt : ∀ g ∈ Nat.digits 128 n, g < 128 := fun g hg => Nat.digits_lt_base (by decide) hg
  rw [encodeVarbyte_digits] at h
  have hdigit := Leb128.getElem?_ofGroups hlt h
  obtain ⟨hindex, -⟩ := List.getElem?_eq_some_iff.mp hdigit
  have hfive : (Nat.digits 128 n).length ≤ 5 := by
    rw [Nat.digits_length_le_iff (by decide)]
    unfold intMax at hmax
    omega
  -- The shifted group is a part of the size.
  have hvalue : b.toNat % 128 = n / 128 ^ i % 128 := by
    rw [← Nat.getD_digits n i (by decide), List.getD_eq_getElem?_getD, hdigit]
    rfl
  refine ⟨by omega, ?_⟩
  rw [and_0x7f, shiftLeft_group, hvalue]
  calc n / 128 ^ i % 128 * 128 ^ i ≤ n / 128 ^ i * 128 ^ i :=
        Nat.mul_le_mul_right _ (Nat.mod_le _ _)
    _ ≤ n := Nat.div_mul_le_self _ _
    _ < 2 ^ 31 := by unfold intMax at hmax; omega

/-- A size below `INT_MAX` is read back, up to the last byte of it, and none of its shifts
overflows an `int`. -/
theorem encode_decode_varbyte (m : Overshift) (n : Nat) (hpos : 0 < n) (hmax : n < intMax)
    (pre post : Bytes) :
    decodeVarbyteOn m (pre ++ encodeVarbyte n ++ post) pre.length
        = (n, pre.length + (encodeVarbyte n).length) ∧
      ∀ (i : Nat) (b : UInt8), (encodeVarbyte n)[i]? = some b →
        7 * i < 32 ∧ (b.toNat &&& 0x7f) <<< (7 * i) < 2 ^ 31 := by
  rw [List.append_assoc]
  exact ⟨decodeVarbyteOn_encodeVarbyte m hpos hmax pre post, fun i b => shift_of_encodeVarbyte hmax⟩

/-- The largest size, of five groups, between other bytes that look like more of it. -/
theorem encode_decode_varbyte_largest :
    decodeVarbyteOn .masked ([0xff] ++ encodeVarbyte (2 ^ 31 - 2) ++ [0xff]) 1
      = (2 ^ 31 - 2, 1 + (encodeVarbyte (2 ^ 31 - 2)).length) :=
  (encode_decode_varbyte .masked (2 ^ 31 - 2) (by decide) (by decide) [0xff] [0xff]).1

/-! ### The reader that loses the bits -/

theorem shiftedBitsOn_lost (bits i : Nat) : shiftedBitsOn .lost bits i = shiftedBits bits i := by
  have hlost : intOperand (Overshift.lost.value bits i) = 0 := rfl
  rw [shiftedBitsOn_eq, shiftedBits_eq, hlost, ite_self, Nat.or_zero]

theorem decodeVarbyteLoopOn_lost (data : Bytes) (offset i length : Nat) :
    decodeVarbyteLoopOn .lost data offset i length = decodeVarbyteLoop data offset i length := by
  fun_induction decodeVarbyteLoop data offset i length with
  | case1 offset i length byte length' done hgo ih =>
    rw [decodeVarbyteLoopOn, shiftedBitsOn_lost, if_pos hgo]
    exact ih
  | case2 offset i length byte length' done hstop =>
    rw [decodeVarbyteLoopOn, shiftedBitsOn_lost, if_neg hstop]

theorem decodeVarbyteOn_lost (data : Bytes) (offset : Nat) :
    decodeVarbyteOn .lost data offset = decodeVarbyte data offset := by
  unfold decodeVarbyteOn decodeVarbyte
  rw [decodeVarbyteLoopOn_lost]

theorem decodeVarbyte_encodeVarbyte {n : Nat} (hpos : 0 < n) (hmax : n < intMax) (pre rest : Bytes) :
    decodeVarbyte (pre ++ (encodeVarbyte n ++ rest)) pre.length
      = (n, pre.length + (encodeVarbyte n).length) := by
  rw [← decodeVarbyteOn_lost, decodeVarbyteOn_encodeVarbyte .lost hpos hmax]

end Homestead
