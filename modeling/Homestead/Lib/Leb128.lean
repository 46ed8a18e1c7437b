import Mathlib.Data.Nat.Digits.Defs
import Mathlib.Tactic.Common

/-!
# `Homestead.Lib.Leb128`: numbers in groups of seven bits

A number is stored as its digits to the base 128, the lowest one first, one in each byte. The bit
0x80 of a byte says that more digits follow. `groups` delimits a number at the start of some data
and answers its digits, and `ofGroups` is the bytes of some digits. Digits and values are
Mathlib's `Nat.digits` and `Nat.ofDigits`.

The digits may end in zeros: `groups` takes every way to write a number, and there is no longest
one.
-/

set_option autoImplicit false

namespace Leb128

/-- The digits of the number at the start of the data, or `none` if it does not end there. -/
def groups : List UInt8 → Option (List Nat)
  | [] => none
  | b :: data =>
    if b.toNat < 128 then some [b.toNat] else (groups data).map ((b.toNat % 128) :: ·)

/-- The number at the start of the data. -/
def number (data : List UInt8) : Option Nat := (groups data).map (Nat.ofDigits 128)

/-- The bytes of some digits. -/
def ofGroups : List Nat → List UInt8
  | [] => []
  | [g] => [UInt8.ofNat g]
  | g :: g' :: gs => UInt8.ofNat (g + 128) :: ofGroups (g' :: gs)

theorem groups_last {b : UInt8} (hb : b.toNat < 128) (data : List UInt8) :
    groups (b :: data) = some [b.toNat] := by
  rw [groups, if_pos hb]

theorem groups_more {b : UInt8} (hb : ¬ b.toNat < 128) (data : List UInt8) :
    groups (b :: data) = (groups data).map ((b.toNat % 128) :: ·) := by
  rw [groups, if_neg hb]

/-- A digit is below the base. -/
theorem lt_of_mem_groups {data : List UInt8} {gs : List Nat} (h : groups data = some gs) :
    ∀ g ∈ gs, g < 128 := by
  induction data generalizing gs with
  | nil => cases h
  | cons b data ih =>
    by_cases hb : b.toNat < 128
    · rw [groups_last hb] at h
      cases h
      simpa using hb
    · rw [groups_more hb] at h
      obtain ⟨rest, hrest, rfl⟩ := Option.map_eq_some_iff.mp h
      rintro g (_ | ⟨_, hg⟩)
      · exact Nat.mod_lt _ (by decide)
      · exact ih hrest g hg

/-- The digits take one byte each. -/
theorem length_groups_le {data : List UInt8} {gs : List Nat} (h : groups data = some gs) :
    gs.length ≤ data.length := by
  induction data generalizing gs with
  | nil => cases h
  | cons b data ih =>
    by_cases hb : b.toNat < 128
    · rw [groups_last hb] at h
      cases h
      simp
    · rw [groups_more hb] at h
      obtain ⟨rest, hrest, rfl⟩ := Option.map_eq_some_iff.mp h
      simpa using ih hrest

/-- The digits are delimited by their own bytes, whatever comes after them. -/
theorem groups_ofGroups {gs : List Nat} (hne : gs ≠ []) (hlt : ∀ g ∈ gs, g < 128)
    (rest : List UInt8) : groups (ofGroups gs ++ rest) = some gs := by
  induction gs with
  | nil => exact absurd rfl hne
  | cons g gs ih =>
    have hg := hlt g List.mem_cons_self
    cases gs with
    | nil =>
      have hbyte : (UInt8.ofNat g).toNat = g := by simp; omega
      rw [ofGroups, List.singleton_append, groups_last (by omega), hbyte]
    | cons g' gs =>
      have hbyte : (UInt8.ofNat (g + 128)).toNat = g + 128 := by simp; omega
      rw [ofGroups, List.cons_append, groups_more (by omega),
        ih (by simp) fun x hx => hlt x (List.mem_cons_of_mem _ hx), hbyte]
      simp [Nat.mod_eq_of_lt hg]

theorem length_ofGroups (gs : List Nat) : (ofGroups gs).length = gs.length := by
  induction gs with
  | nil => rfl
  | cons g gs ih =>
    cases gs with
    | nil => rfl
    | cons g' gs =>
      rw [ofGroups, List.length_cons, List.length_cons, ih]

/-- Each byte carries one digit. -/
theorem getElem?_ofGroups {gs : List Nat} (hlt : ∀ g ∈ gs, g < 128) {i : Nat} {b : UInt8}
    (h : (ofGroups gs)[i]? = some b) : gs[i]? = some (b.toNat % 128) := by
  induction gs generalizing i with
  | nil => cases h
  | cons g gs ih =>
    have hg := hlt g List.mem_cons_self
    cases gs with
    | nil =>
      cases i with
      | zero =>
        obtain rfl : UInt8.ofNat g = b := Option.some.inj h
        simp
        omega
      | succ i => cases h
    | cons g' gs =>
      cases i with
      | zero =>
        obtain rfl : UInt8.ofNat (g + 128) = b := Option.some.inj h
        simp
        omega
      | succ i => exact ih (fun x hx => hlt x (List.mem_cons_of_mem _ hx)) h

end Leb128
