import Homestead.Model.ImplicitRegistrationSet
import Mathlib.Data.List.Sort

/-!
# `Homestead.Proofs.Data`: what the IRS tracks

`Data` maps an identity to the state the user left it in. The lemmas here give each
operation of the IRS by its effect on one key, so that no later proof unfolds a map:

* `Data.mem_elementsInState` and `Data.mem_present` for the two listings,
* `Data.getElem?_setElements` for `set_elements`,
* `Data.getElem?_mergeDataSets` and `Data.getElem?_emplaceDeleted` for the two merges with
  a stored record,
* `Data.getElem?_ofStored` and `Data.present_ofStored` for the constructor.
-/

set_option autoImplicit false

namespace Homestead.Data

open Std

/-! ### Listings -/

theorem mem_elementsInState {data : Data} {status : State} {key : String} :
    key ∈ data.elementsInState status ↔ data[key]? = some status := by
  simp [elementsInState, ExtTreeMap.mem_toList_iff_getElem?_eq_some]

theorem mem_present {data : Data} {key : String} :
    key ∈ data.present ↔ data[key]? = some .unchanged ∨ data[key]? = some .added := by
  simp only [present, List.mem_map, List.mem_filter, decide_eq_true_eq, Prod.exists,
    exists_and_right, exists_eq_right, ExtTreeMap.mem_toList_iff_getElem?_eq_some]
  constructor
  · rintro ⟨status, hstatus, rfl | rfl⟩
    · exact .inl hstatus
    · exact .inr hstatus
  · rintro (h | h)
    · exact ⟨_, h, .inl rfl⟩
    · exact ⟨_, h, .inr rfl⟩

/-- The keys that pass a test on their entries come in the order of the map. -/
theorem ordered_filter_keys (data : Data) (test : String × State → Bool) :
    ((data.toList.filter test).map Prod.fst).Pairwise fun a b => compare a b = .lt := by
  rw [List.pairwise_map]
  exact (ExtTreeMap.ordered_keys_toList (t := data)).filter test

theorem ordered_present (data : Data) :
    data.present.Pairwise fun a b => compare a b = .lt :=
  ordered_filter_keys data _

theorem ordered_elementsInState (data : Data) (status : State) :
    (data.elementsInState status).Pairwise fun a b => compare a b = .lt :=
  ordered_filter_keys data _

theorem compare_self_ne_lt (a : String) : compare a a ≠ .lt := by
  have hself : compare a a = .eq := ReflCmp.compare_self
  rw [hself]
  decide

theorem nodup_of_ordered {l : List String} (h : l.Pairwise fun a b => compare a b = .lt) :
    l.Nodup := by
  refine List.Pairwise.imp (fun {a b} hab heq => ?_) h
  subst heq
  exact compare_self_ne_lt a hab

theorem nodup_elementsInState (data : Data) (status : State) :
    (data.elementsInState status).Nodup :=
  nodup_of_ordered (ordered_elementsInState data status)

/-- Two listings in the order of the map are equal when they have the same elements. -/
theorem eq_of_ordered {l₁ l₂ : List String}
    (h₁ : l₁.Pairwise fun a b => compare a b = .lt)
    (h₂ : l₂.Pairwise fun a b => compare a b = .lt) (h : ∀ x, x ∈ l₁ ↔ x ∈ l₂) : l₁ = l₂ := by
  have hperm : l₁.Perm l₂ :=
    (List.perm_ext_iff_of_nodup (nodup_of_ordered h₁) (nodup_of_ordered h₂)).mpr h
  refine hperm.eq_of_pairwise (fun a b _ _ (hab : compare a b = .lt) hba => ?_) h₁ h₂
  exact absurd (TransCmp.lt_trans hab hba) (compare_self_ne_lt a)

/-! ### Operations, key by key -/

theorem getElem?_insert (data : Data) (key key' : String) (status : State) :
    (data.insert key status)[key']? = if key' = key then some status else data[key']? := by
  rw [ExtTreeMap.getElem?_insert]
  simp only [LawfulEqCmp.compare_eq_iff_eq]
  exact if_congr eq_comm rfl rfl

theorem getElem?_insertIfNew (data : Data) (key key' : String) (status : State) :
    (data.insertIfNew key status)[key']?
      = if key' = key ∧ data[key']? = none then some status else data[key']? := by
  rw [ExtTreeMap.getElem?_insertIfNew]
  simp only [LawfulEqCmp.compare_eq_iff_eq, ExtTreeMap.mem_iff_isSome_getElem?]
  refine if_congr ?_ rfl rfl
  constructor
  · rintro ⟨rfl, hnone⟩
    exact ⟨rfl, by simpa using hnone⟩
  · rintro ⟨rfl, hnone⟩
    exact ⟨rfl, by simp [hnone]⟩

/-- A fold of `emplace` over a list of keys. -/
theorem getElem?_foldl_insertIfNew (keys : List String) (data : Data) (status : State)
    (key : String) :
    (keys.foldl (fun data key => data.insertIfNew key status) data)[key]?
      = if key ∈ keys ∧ data[key]? = none then some status else data[key]? := by
  induction keys generalizing data with
  | nil => simp
  | cons k keys ih =>
    rw [List.foldl_cons, ih, getElem?_insertIfNew]
    by_cases hk : key = k
    · subst hk
      by_cases hnone : data[key]? = none <;> simp [hnone]
    · simp [hk]

theorem getElem?_emplaceDeleted (data : Data) (keys : List String) (key : String) :
    (data.emplaceDeleted keys)[key]?
      = if key ∈ keys ∧ data[key]? = none then some .deleted else data[key]? :=
  getElem?_foldl_insertIfNew keys data .deleted key

/-- `merge_data_sets` on one key: unknown keys of the store become unchanged, unchanged
keys that the store has lost become deleted, and the rest stays. -/
theorem getElem?_mergeDataSets (data : Data) (added : List String) (key : String) :
    (data.mergeDataSets added)[key]?
      = match data[key]? with
        | none => if key ∈ added then some .unchanged else none
        | some .unchanged => if key ∈ added then some .unchanged else some .deleted
        | some status => some status := by
  unfold mergeDataSets
  rw [ExtTreeMap.getElem?_map, getElem?_foldl_insertIfNew]
  cases hkey : data[key]? with
  | none => by_cases hmem : key ∈ added <;> simp [hmem]
  | some status =>
    cases status with
    | added => simp
    | unchanged => by_cases hmem : key ∈ added <;> simp [hmem]
    | deleted => simp

/-- The keys that are unchanged after a merge. -/
theorem mergeDataSets_unchanged {data : Data} {added : List String} {key : String} :
    (data.mergeDataSets added)[key]? = some .unchanged ↔
      key ∈ added ∧ (data[key]? = none ∨ data[key]? = some .unchanged) := by
  rw [getElem?_mergeDataSets]
  cases data[key]? with
  | none => simp
  | some st => cases st <;> by_cases h : key ∈ added <;> simp [h]

theorem getElem?_setElement (data : Data) (entry key : String) :
    (data.setElement entry)[key]?
      = if key = entry ∧ data[key]? ≠ some .unchanged then some .added else data[key]? := by
  unfold setElement
  by_cases hk : key = entry
  · subst hk
    cases hkey : data[key]? with
    | none => simp
    | some status => cases status <;> simp [hkey]
  · simp only [hk, false_and, if_false]
    split
    · simp [getElem?_insert, hk]
    · simp [getElem?_insert, hk]
    · rfl

theorem getElem?_foldl_setElement (entries : List String) (data : Data) (key : String) :
    (entries.foldl setElement data)[key]?
      = if key ∈ entries ∧ data[key]? ≠ some .unchanged then some .added else data[key]? := by
  induction entries generalizing data with
  | nil => simp
  | cons entry entries ih =>
    rw [List.foldl_cons, ih, getElem?_setElement]
    by_cases hk : key = entry
    · subst hk
      by_cases hu : data[key]? = some .unchanged <;> simp [hu]
    · simp [hk]

/-- `set_elements` on one key. The ignored key keeps its state when it is listed. -/
theorem getElem?_setElements (updated : List String) (data : Data) (ignore key : String) :
    (setElements updated data ignore)[key]?
      = if key ∈ updated then
          if key ≠ ignore ∧ data[key]? ≠ some .unchanged then some .added else data[key]?
        else data[key]?.map fun _ => .deleted := by
  unfold setElements
  rw [getElem?_foldl_setElement, ExtTreeMap.getElem?_map]
  simp only [List.mem_filter, decide_eq_true_eq]
  by_cases hu : key ∈ updated
  · simp [hu]
  · simp [hu]

theorem getElem?_deleteTracked (data : Data) (key : String) :
    data.deleteTracked[key]? = data[key]?.map fun _ => .deleted :=
  ExtTreeMap.getElem?_map

theorem getElem?_foldl_insert (keys : List String) (data : Data) (status : State)
    (key : String) :
    (keys.foldl (fun data key => data.insert key status) data)[key]?
      = if key ∈ keys then some status else data[key]? := by
  induction keys generalizing data with
  | nil => simp
  | cons k keys ih =>
    rw [List.foldl_cons, ih, getElem?_insert]
    by_cases hk : key = k <;> simp [hk]

theorem getElem?_ofStored (keys : List String) (key : String) :
    (ofStored keys)[key]? = if key ∈ keys then some .unchanged else none := by
  unfold ofStored
  rw [getElem?_foldl_insert, ExtTreeMap.getElem?_empty]

/-! ### What the listings become -/

theorem mem_present_ofStored {keys : List String} {key : String} :
    key ∈ (ofStored keys).present ↔ key ∈ keys := by
  rw [mem_present, getElem?_ofStored]
  by_cases h : key ∈ keys <;> simp [h]

/-- A listing of a map survives a store and a read. -/
theorem present_ofStored (data : Data) : (ofStored data.present).present = data.present :=
  eq_of_ordered (ordered_present _) (ordered_present _) fun _ => mem_present_ofStored

/-- The refreshed merge only records deletions. -/
theorem present_emplaceDeleted (data : Data) (keys : List String) :
    (data.emplaceDeleted keys).present = data.present := by
  refine eq_of_ordered (ordered_present _) (ordered_present _) fun key => ?_
  rw [mem_present, mem_present, getElem?_emplaceDeleted]
  split
  · rename_i h
    simp [h.2]
  · rfl

/-- Once everything tracked is deleted, the unrefreshed merge and the refreshed one track
the same keys. -/
theorem tracked_mergeDataSets {data : Data} {added : List String} {key : String} :
    (data.mergeDataSets added)[key]? ≠ none ↔ data[key]? ≠ none ∨ key ∈ added := by
  rw [getElem?_mergeDataSets]
  cases data[key]? with
  | none => by_cases h : key ∈ added <;> simp [h]
  | some status =>
    cases status with
    | added => simp
    | unchanged => by_cases h : key ∈ added <;> simp [h]
    | deleted => simp

theorem tracked_emplaceDeleted {data : Data} {keys : List String} {key : String} :
    (data.emplaceDeleted keys)[key]? ≠ none ↔ data[key]? ≠ none ∨ key ∈ keys := by
  rw [getElem?_emplaceDeleted]
  cases data[key]? with
  | none => by_cases h : key ∈ keys <;> simp [h]
  | some status => simp

theorem elementsInState_deleteTracked {data : Data} {status : State} (h : status ≠ .deleted) :
    data.deleteTracked.elementsInState status = [] := by
  rw [List.eq_nil_iff_forall_not_mem]
  intro key hkey
  rw [mem_elementsInState, getElem?_deleteTracked] at hkey
  cases hd : data[key]? with
  | none => simp [hd] at hkey
  | some _ => simp [hd, Ne.symm h] at hkey

end Homestead.Data
