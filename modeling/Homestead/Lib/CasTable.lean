import Mathlib.Tactic.Common

/-!
# `Homestead.Lib.CasTable`: a table with compare-and-set writes

A `CasTable K V` maps keys to versioned values, as a memcached-style store does. Each
write gives the key a version (its CAS value) that no earlier write of the table had. The
structure carries that fact: a stored version is positive and was already issued.

* `CasTable.put`, `CasTable.erase` and `CasTable.cas` are the unconditional write, the
  unconditional delete and the compare-and-set write, with 0 for an absent key.
* `CasTable.Later` is what any number of such operations can do to the table: an old
  version is either still there with its value or gone.
* `CasTable.Seen` is what a client keeps of a read. `Seen.later` says that it survives any
  activity of other clients, and `Seen.cells_eq` that a compare-and-set which succeeds
  finds the value that was read.
-/

set_option autoImplicit false

/-- A table of versioned values. `issued` is the last version given out. -/
structure CasTable (K V : Type) where
  cells : K → Option (Nat × V)
  issued : Nat
  fresh : ∀ k c v, cells k = some (c, v) → 0 < c ∧ c ≤ issued

namespace CasTable

variable {K V : Type}

/-- The table with no entry. -/
def empty : CasTable K V where
  cells _ := none
  issued := 0
  fresh _ _ _ h := nomatch h

/-- The value under `k`, without its version. -/
def value? (t : CasTable K V) (k : K) : Option V := (t.cells k).map Prod.snd

/-- The version a compare-and-set on `k` must present: 0 for an absent key. -/
def version (t : CasTable K V) (k : K) : Nat := ((t.cells k).map Prod.fst).getD 0

theorem value?_eq_some {t : CasTable K V} {k : K} {v : V} :
    t.value? k = some v ↔ ∃ c, t.cells k = some (c, v) := by
  unfold value?
  cases t.cells k with
  | none => simp
  | some p =>
    obtain ⟨c, v'⟩ := p
    simp

theorem value?_eq_none {t : CasTable K V} {k : K} : t.value? k = none ↔ t.cells k = none := by
  unfold value?
  cases t.cells k <;> simp

theorem value?_of_cells {t : CasTable K V} {k : K} {c : Nat} {v : V}
    (h : t.cells k = some (c, v)) : t.value? k = some v :=
  value?_eq_some.mpr ⟨c, h⟩

theorem version_of_cells {t : CasTable K V} {k : K} {c : Nat} {v : V}
    (h : t.cells k = some (c, v)) : t.version k = c := by
  simp [version, h]

theorem version_eq_zero {t : CasTable K V} {k : K} : t.version k = 0 ↔ t.cells k = none := by
  constructor
  · intro h
    cases hc : t.cells k with
    | none => rfl
    | some p =>
      have hpos := (t.fresh k p.1 p.2 hc).1
      rw [version_of_cells hc] at h
      omega
  · intro h
    simp [version, h]

section Write

variable [DecidableEq K]

/-- The unconditional write. -/
def put (t : CasTable K V) (k : K) (v : V) : CasTable K V where
  cells k' := if k' = k then some (t.issued + 1, v) else t.cells k'
  issued := t.issued + 1
  fresh k' c v' h := by
    split at h
    · cases h
      omega
    · have := t.fresh k' c v' h
      omega

/-- The unconditional delete. -/
def erase (t : CasTable K V) (k : K) : CasTable K V where
  cells k' := if k' = k then none else t.cells k'
  issued := t.issued
  fresh k' c v' h := by
    split at h
    · cases h
    · exact t.fresh k' c v' h

/-- The compare-and-set write. It answers `none` and writes nothing on contention. -/
def cas (t : CasTable K V) (k : K) (c : Nat) (v : V) : Option (CasTable K V) :=
  if t.version k = c then some (t.put k v) else none

@[simp] theorem put_cells_self (t : CasTable K V) (k : K) (v : V) :
    (t.put k v).cells k = some (t.issued + 1, v) := by
  simp [put]

theorem put_cells_ne (t : CasTable K V) {k k' : K} (v : V) (h : k' ≠ k) :
    (t.put k v).cells k' = t.cells k' := by
  simp [put, h]

@[simp] theorem erase_cells_self (t : CasTable K V) (k : K) : (t.erase k).cells k = none := by
  simp [erase]

theorem erase_cells_ne (t : CasTable K V) {k k' : K} (h : k' ≠ k) :
    (t.erase k).cells k' = t.cells k' := by
  simp [erase, h]

@[simp] theorem put_value?_self (t : CasTable K V) (k : K) (v : V) :
    (t.put k v).value? k = some v :=
  value?_of_cells (put_cells_self t k v)

theorem put_value?_ne (t : CasTable K V) {k k' : K} (v : V) (h : k' ≠ k) :
    (t.put k v).value? k' = t.value? k' := by
  simp [value?, put_cells_ne t v h]

@[simp] theorem erase_value?_self (t : CasTable K V) (k : K) : (t.erase k).value? k = none := by
  simp [value?]

theorem erase_value?_ne (t : CasTable K V) {k k' : K} (h : k' ≠ k) :
    (t.erase k).value? k' = t.value? k' := by
  simp [value?, erase_cells_ne t h]

theorem put_value? (t : CasTable K V) (k k' : K) (v : V) :
    (t.put k v).value? k' = if k' = k then some v else t.value? k' := by
  split
  · rename_i h
    rw [h, put_value?_self]
  · rename_i h
    exact put_value?_ne t v h

theorem erase_value? (t : CasTable K V) (k k' : K) :
    (t.erase k).value? k' = if k' = k then none else t.value? k' := by
  split
  · rename_i h
    rw [h, erase_value?_self]
  · rename_i h
    exact erase_value?_ne t h

/-- A compare-and-set with the current version writes. -/
theorem cas_of_version {t : CasTable K V} {k : K} {c : Nat} {v : V} (h : t.version k = c) :
    t.cas k c v = some (t.put k v) := by
  simp [cas, h]

theorem cas_eq_none {t : CasTable K V} {k : K} {c : Nat} {v : V} :
    t.cas k c v = none ↔ t.version k ≠ c := by
  unfold cas
  split <;> simp [*]

end Write

/-! ### What other clients can do -/

/-- `t'` can follow `t` under any writes and deletes: the versions of `t` that are still
there have the values they had. -/
structure Later (t t' : CasTable K V) : Prop where
  issued_le : t.issued ≤ t'.issued
  old : ∀ k c v, t'.cells k = some (c, v) → c ≤ t.issued → t.cells k = some (c, v)

namespace Later

theorem refl (t : CasTable K V) : Later t t := ⟨Nat.le_refl _, fun _ _ _ h _ => h⟩

theorem trans {t₁ t₂ t₃ : CasTable K V} (h₁ : Later t₁ t₂) (h₂ : Later t₂ t₃) :
    Later t₁ t₃ where
  issued_le := Nat.le_trans h₁.issued_le h₂.issued_le
  old k c v h hc := h₁.old k c v (h₂.old k c v h (Nat.le_trans hc h₁.issued_le)) hc

variable [DecidableEq K]

theorem put (t : CasTable K V) (k : K) (v : V) : Later t (t.put k v) where
  issued_le := Nat.le_succ _
  old k' c v' h hc := by
    by_cases hk : k' = k
    · subst hk
      rw [put_cells_self] at h
      cases h
      omega
    · rwa [put_cells_ne t v hk] at h

theorem erase (t : CasTable K V) (k : K) : Later t (t.erase k) where
  issued_le := Nat.le_refl _
  old k' c v' h _ := by
    by_cases hk : k' = k
    · subst hk
      rw [erase_cells_self] at h
      cases h
    · rwa [erase_cells_ne t hk] at h

end Later

/-- What a read of the value `v` with the version `c` under `k` says from then on: the
version is positive and was issued, and whenever it is the stored one, `v` is stored. -/
structure Seen (t : CasTable K V) (k : K) (c : Nat) (v : V) : Prop where
  pos : 0 < c
  issued : c ≤ t.issued
  same : ∀ v', t.cells k = some (c, v') → v' = v

namespace Seen

theorem of_cells {t : CasTable K V} {k : K} {c : Nat} {v : V} (h : t.cells k = some (c, v)) :
    Seen t k c v where
  pos := (t.fresh k c v h).1
  issued := (t.fresh k c v h).2
  same v' h' := by
    rw [h] at h'
    cases h'
    rfl

/-- A read stays valid whatever the other clients do. -/
theorem later {t t' : CasTable K V} {k : K} {c : Nat} {v : V} (hs : Seen t k c v)
    (hl : Later t t') : Seen t' k c v where
  pos := hs.pos
  issued := Nat.le_trans hs.issued hl.issued_le
  same v' h' := hs.same v' (hl.old k c v' h' hs.issued)

/-- A compare-and-set with the version of a read that succeeds finds the value read. -/
theorem cells_eq {t : CasTable K V} {k : K} {c : Nat} {v : V} (hs : Seen t k c v)
    (h : t.version k = c) : t.cells k = some (c, v) := by
  cases hc : t.cells k with
  | none =>
    have := version_eq_zero.mpr hc
    have := hs.pos
    omega
  | some p =>
    obtain ⟨c', v'⟩ := p
    rw [version_of_cells hc] at h
    subst h
    rw [hs.same v' hc]

end Seen

end CasTable
