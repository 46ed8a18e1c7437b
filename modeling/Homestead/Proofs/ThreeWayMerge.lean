import Homestead.Proofs.Data
import Mathlib.Data.List.Induction

/-!
# `Homestead.Proofs.ThreeWayMerge`: an IRS merged with several store views

An IRS that was read from a store is merged with the stored record again and again: at each
conflict, and at each remote store of one put. The IMPIs that it lists afterwards should be
those of the last view, with the ones its user has added and without the ones its user has
deleted (`IsThreeWayMerge`).

`merge_law_iff` says when they are. One merge follows the law (`merge_law_once`). A sequence of
merges does not, because `merge_data_sets` marks an IMPI that a view does not list in the same
way as an IMPI that the user has deleted. So the law fails for exactly the IMPIs of the last
view that were listed earlier, were missing in between, and that the user has not touched.

The proof follows one IMPI. `getElem?_applyCalls` gives its state after the calls of the user, and
`getElem?_mergeViews` its state after the merges.
-/

set_option autoImplicit false

namespace Homestead

/-- The two calls of a user on the IMPIs of an IRS. -/
inductive ImpiCall
  | add (impi : String)
  | delete (impi : String)
  deriving DecidableEq, Repr

/-- The IMPI that a call is about. -/
def ImpiCall.impi : ImpiCall → String
  | .add impi => impi
  | .delete impi => impi

def ImpiCall.apply (irs : Irs) : ImpiCall → Irs
  | .add impi => irs.addAssociatedImpi impi
  | .delete impi => irs.deleteAssociatedImpi impi

/-- The calls of a user, in order. -/
def Irs.applyCalls (irs : Irs) (calls : List ImpiCall) : Irs := calls.foldl ImpiCall.apply irs

/-- The last call on an IMPI. -/
def lastCall (calls : List ImpiCall) (impi : String) : Option ImpiCall :=
  (calls.filter (·.impi = impi)).getLast?

/-- `Added`: the last call on the IMPI was an add. -/
def Added (calls : List ImpiCall) (impi : String) : Prop := lastCall calls impi = some (.add impi)

/-- `Deleted`: the last call on the IMPI was a delete. -/
def Deleted (calls : List ImpiCall) (impi : String) : Prop :=
  lastCall calls impi = some (.delete impi)

instance (calls : List ImpiCall) (impi : String) : Decidable (Added calls impi) :=
  inferInstanceAs (Decidable (_ = _))

instance (calls : List ImpiCall) (impi : String) : Decidable (Deleted calls impi) :=
  inferInstanceAs (Decidable (_ = _))

/-- The IRS merged in turn with the views of the stores, each with its clock reading. -/
def Irs.mergeViews (irs : Irs) (views : List (DefaultImpu × Int)) : Irs :=
  views.foldl (fun irs view => irs.updateFromImpuFromStore view.1 view.2) irs

/-- What a merge with the view `last` should leave: the IMPIs of the view and the added ones,
without the deleted ones. -/
def IsThreeWayMerge (calls : List ImpiCall) (last : DefaultImpu) (irs : Irs) : Prop :=
  ∀ impi, impi ∈ irs.getAssociatedImpis ↔
    (impi ∈ last.impis ∨ Added calls impi) ∧ ¬ Deleted calls impi

/-- No view that comes after one which lists the IMPI is without it. -/
def StaysListed (impi : String) (views : List DefaultImpu) : Prop :=
  views.Pairwise fun view later => impi ∈ view.impis → impi ∈ later.impis

instance (impi : String) (views : List DefaultImpu) : Decidable (StaysListed impi views) :=
  inferInstanceAs (Decidable (List.Pairwise _ _))

/-! ### The calls of the user -/

theorem applyCalls_snoc (irs : Irs) (calls : List ImpiCall) (call : ImpiCall) :
    irs.applyCalls (calls ++ [call]) = call.apply (irs.applyCalls calls) := by
  simp [Irs.applyCalls]

theorem lastCall_snoc (calls : List ImpiCall) (call : ImpiCall) (impi : String) :
    lastCall (calls ++ [call]) impi
      = if call.impi = impi then some call else lastCall calls impi := by
  by_cases h : call.impi = impi <;> simp [lastCall, h]

/-- The state of an IMPI after the calls: what the last call on it has made of it. -/
theorem getElem?_applyCalls (irs : Irs) (calls : List ImpiCall) (impi : String) :
    (irs.applyCalls calls).impis[impi]?
      = match lastCall calls impi with
        | some (.add _) => some .added
        | some (.delete _) => some .deleted
        | none => irs.impis[impi]? := by
  induction calls using List.reverseRecOn with
  | nil => rfl
  | append_singleton calls call ih =>
    rw [applyCalls_snoc, lastCall_snoc]
    cases call with
    | add key =>
      show ((irs.applyCalls calls).impis.insert key .added)[impi]? = _
      rw [Data.getElem?_insert]
      by_cases h : key = impi
      · simp [ImpiCall.impi, h]
      · simp [ImpiCall.impi, h, Ne.symm h, ih]
    | delete key =>
      show ((irs.applyCalls calls).impis.insert key .deleted)[impi]? = _
      rw [Data.getElem?_insert]
      by_cases h : key = impi
      · simp [ImpiCall.impi, h]
      · simp [ImpiCall.impi, h, Ne.symm h, ih]

/-- The last call on an IMPI is an add or a delete of that IMPI, or there is none. -/
theorem lastCall_cases (calls : List ImpiCall) (impi : String) :
    Added calls impi ∨ Deleted calls impi ∨ lastCall calls impi = none := by
  unfold Added Deleted
  cases h : lastCall calls impi with
  | none => simp
  | some call =>
    have hmem : call ∈ calls.filter (·.impi = impi) := List.mem_of_getLast? h
    have himpi : call.impi = impi := by simpa using (List.mem_filter.mp hmem).2
    cases call with
    | add key => simp [← himpi, ImpiCall.impi]
    | delete key => simp [← himpi, ImpiCall.impi]

/-! ### The merges -/

/-- An IMPI that the user has added or deleted stays so in every merge. -/
theorem getElem?_mergeViews_of_call {irs : Irs} {impi : String} {state : State}
    (hstate : state ≠ .unchanged) (h : irs.impis[impi]? = some state)
    (views : List (DefaultImpu × Int)) : (irs.mergeViews views).impis[impi]? = some state := by
  induction views generalizing irs with
  | nil => exact h
  | cons view views ih =>
    apply ih
    show (irs.impis.mergeDataSets view.1.impis)[impi]? = some state
    rw [Data.getElem?_mergeDataSets, h]
    cases state with
    | added => rfl
    | unchanged => exact absurd rfl hstate
    | deleted => rfl

/-- The state of an IMPI that the user has not touched, from the views that list it. `start` is
the record that the IRS was made from, so it is the first view. -/
theorem getElem?_mergeViews {irs : Irs} {impi : String} {start : DefaultImpu}
    (h : irs.impis[impi]? = if impi ∈ start.impis then some .unchanged else none)
    (views : List (DefaultImpu × Int)) :
    (irs.mergeViews views).impis[impi]?
      = if StaysListed impi (start :: views.map Prod.fst) then
          if impi ∈ ((start :: views.map Prod.fst).getLast (by simp)).impis then some .unchanged
          else none
        else some .deleted := by
  -- The first view becomes the record that the rest of the views are compared with.
  induction views generalizing irs start with
  | nil =>
    have hone : StaysListed impi [start] := List.pairwise_singleton _ _
    simp only [List.map_nil, List.getLast_singleton, if_pos hone]
    exact h
  | cons view views ih =>
    have hstep : (irs.updateFromImpuFromStore view.1 view.2).impis[impi]?
        = if impi ∈ view.1.impis then some .unchanged
          else if impi ∈ start.impis then some .deleted else none := by
      show (irs.impis.mergeDataSets view.1.impis)[impi]? = _
      rw [Data.getElem?_mergeDataSets, h]
      by_cases hstart : impi ∈ start.impis <;> by_cases hview : impi ∈ view.1.impis <;>
        simp [hstart, hview]
    rw [List.map_cons, List.getLast_cons (by simp)]
    by_cases hlost : impi ∈ start.impis ∧ impi ∉ view.1.impis
    · -- The view does not list the IMPI any more, so the merge takes it for deleted.
      have hnot : ¬ StaysListed impi (start :: view.1 :: views.map Prod.fst) := by
        intro hstays
        exact hlost.2 ((List.pairwise_cons.mp hstays).1 view.1 List.mem_cons_self hlost.1)
      rw [if_neg hnot]
      have hdeleted : (irs.updateFromImpuFromStore view.1 view.2).impis[impi]? = some .deleted := by
        simp [hstep, hlost]
      exact getElem?_mergeViews_of_call (by decide) hdeleted views
    · -- Otherwise the view can take the place of the record that the IRS was made from.
      have hstep' : (irs.updateFromImpuFromStore view.1 view.2).impis[impi]?
          = if impi ∈ view.1.impis then some .unchanged else none := by
        rw [hstep]
        by_cases hstart : impi ∈ start.impis
        · have hview : impi ∈ view.1.impis := by
            by_contra hview
            exact hlost ⟨hstart, hview⟩
          simp [hview]
        · simp [hstart]
      have hiff : StaysListed impi (start :: view.1 :: views.map Prod.fst)
          ↔ StaysListed impi (view.1 :: views.map Prod.fst) := by
        constructor
        · intro hstays
          exact (List.pairwise_cons.mp hstays).2
        · intro hstays
          refine List.pairwise_cons.mpr ⟨?_, hstays⟩
          intro later hlater hstart
          have hview : impi ∈ view.1.impis := by
            by_contra hview
            exact hlost ⟨hstart, hview⟩
          rcases List.mem_cons.mp hlater with rfl | hlater
          · exact hview
          · exact (List.pairwise_cons.mp hstays).1 later hlater hview
      have hrest : (irs.mergeViews (view :: views)).impis[impi]? = _ := ih hstep'
      rw [hrest]
      by_cases hstays : StaysListed impi (view.1 :: views.map Prod.fst)
      · rw [if_pos hstays, if_pos (hiff.mpr hstays)]
      · rw [if_neg hstays, if_neg fun h => hstays (hiff.mp h)]

/-! ### The law -/

/-- The IMPIs that the merges leave are those that the law asks for, up to the untouched ones of
the last view. -/
theorem mem_getAssociatedImpis_mergeViews (d : DefaultImpu) (now : Int) (calls : List ImpiCall)
    (views : List (DefaultImpu × Int)) (last : DefaultImpu × Int) (impi : String) :
    impi ∈ (((Irs.ofDefaultImpu d now).applyCalls calls).mergeViews
        (views ++ [last])).getAssociatedImpis ↔
      Added calls impi ∨ lastCall calls impi = none ∧ impi ∈ last.1.impis ∧
        StaysListed impi (d :: views.map Prod.fst) := by
  have hcalls := getElem?_applyCalls (Irs.ofDefaultImpu d now) calls impi
  show impi ∈ Data.present _ ↔ _
  rw [Data.mem_present]
  -- Only an IMPI without a call of the user depends on the views.
  rcases lastCall_cases calls impi with h | h | h
  · have hadded : ((Irs.ofDefaultImpu d now).applyCalls calls).impis[impi]? = some .added := by
      rw [hcalls, h]
    rw [getElem?_mergeViews_of_call (by decide) hadded]
    simp [h]
  · have hdeleted : ((Irs.ofDefaultImpu d now).applyCalls calls).impis[impi]? = some .deleted := by
      rw [hcalls, h]
    rw [getElem?_mergeViews_of_call (by decide) hdeleted]
    have hlast : lastCall calls impi = some (.delete impi) := h
    simp [Added, hlast]
  · have hstored : ((Irs.ofDefaultImpu d now).applyCalls calls).impis[impi]?
        = if impi ∈ d.impis then some .unchanged else none := by
      rw [hcalls, h]
      exact Data.getElem?_ofStored d.impis impi
    rw [getElem?_mergeViews hstored]
    -- The last view decides whether the IMPI is there, the ones before whether it was lost.
    have hsnoc : StaysListed impi (d :: (views ++ [last]).map Prod.fst)
        ↔ StaysListed impi (d :: views.map Prod.fst) ∧
          ∀ view ∈ d :: views.map Prod.fst, impi ∈ view.impis → impi ∈ last.1.impis := by
      have happend : d :: (views ++ [last]).map Prod.fst
          = (d :: views.map Prod.fst) ++ [last.1] := by simp
      rw [happend]
      unfold StaysListed
      rw [List.pairwise_append]
      simp only [List.pairwise_singleton, List.mem_singleton, forall_eq, true_and]
    have hlast : (d :: (views ++ [last]).map Prod.fst).getLast (by simp) = last.1 := by simp
    rw [hlast]
    have hnot : ¬ Added calls impi := by simp [Added, h]
    by_cases hmem : impi ∈ last.1.impis
    · have hiff : StaysListed impi (d :: (views ++ [last]).map Prod.fst)
          ↔ StaysListed impi (d :: views.map Prod.fst) := by
        rw [hsnoc]
        exact and_iff_left fun _ _ _ => hmem
      by_cases hstays : StaysListed impi (d :: views.map Prod.fst)
      · rw [if_pos (hiff.mpr hstays), if_pos hmem]
        simp [h, hmem, hstays]
      · rw [if_neg fun hlong => hstays (hiff.mp hlong)]
        simp [hnot, hstays]
    · rw [if_neg hmem]
      simp only [hmem, hnot, false_and, and_false, or_false, iff_false]
      split <;> simp

/-- The law, given for every IMPI that the user has not touched that it stays listed. -/
theorem isThreeWayMerge_of_staysListed {d : DefaultImpu} (now : Int) {calls : List ImpiCall}
    {views : List (DefaultImpu × Int)} {last : DefaultImpu × Int}
    (hstays : ∀ impi ∈ last.1.impis, lastCall calls impi = none →
      StaysListed impi (d :: views.map Prod.fst)) :
    IsThreeWayMerge calls last.1
      (((Irs.ofDefaultImpu d now).applyCalls calls).mergeViews (views ++ [last])) := by
  intro impi
  rw [mem_getAssociatedImpis_mergeViews]
  rcases lastCall_cases calls impi with h | h | h
  · have hlast : lastCall calls impi = some (.add impi) := h
    simp [Added, Deleted, hlast]
  · have hlast : lastCall calls impi = some (.delete impi) := h
    simp [Added, Deleted, hlast]
  · have hnot : ¬ Added calls impi ∧ ¬ Deleted calls impi := by simp [Added, Deleted, h]
    constructor
    · rintro (hadded | ⟨-, hmem, -⟩)
      · exact absurd hadded hnot.1
      · exact ⟨.inl hmem, hnot.2⟩
    · rintro ⟨hmem | hadded, -⟩
      · exact .inr ⟨h, hmem, hstays impi hmem h⟩
      · exact absurd hadded hnot.1

/-- One merge follows the law. -/
theorem merge_law_once (d : DefaultImpu) (now : Int) (calls : List ImpiCall)
    (view : DefaultImpu × Int) :
    IsThreeWayMerge calls view.1
      (((Irs.ofDefaultImpu d now).applyCalls calls).mergeViews [view]) := by
  have hone : ∀ impi, StaysListed impi [d] := fun _ => List.pairwise_singleton _ _
  show IsThreeWayMerge calls view.1
    (((Irs.ofDefaultImpu d now).applyCalls calls).mergeViews ([] ++ [view]))
  exact isThreeWayMerge_of_staysListed now fun impi _ _ => hone impi

/-- The merges of an IRS follow the law if and only if every IMPI of the last view that the user
has not touched was never missing after it was listed: in the record that the IRS was made
from, or in a view before the last one. -/
theorem merge_law_iff (d : DefaultImpu) (now : Int) (calls : List ImpiCall)
    (views : List (DefaultImpu × Int)) (last : DefaultImpu × Int) :
    IsThreeWayMerge calls last.1
        (((Irs.ofDefaultImpu d now).applyCalls calls).mergeViews (views ++ [last])) ↔
      ∀ impi ∈ last.1.impis, lastCall calls impi = none →
        StaysListed impi (d :: views.map Prod.fst) := by
  unfold IsThreeWayMerge
  constructor
  · intro hlaw impi hmem huntouched
    have hnot : ¬ Added calls impi ∧ ¬ Deleted calls impi := by simp [Added, Deleted, huntouched]
    have hpresent := (hlaw impi).mpr ⟨.inl hmem, hnot.2⟩
    rw [mem_getAssociatedImpis_mergeViews] at hpresent
    rcases hpresent with hadded | ⟨-, -, hstays⟩
    · exact absurd hadded hnot.1
    · exact hstays
  · exact isThreeWayMerge_of_staysListed now

/-- A record with the given IMPIs. It is for concrete merges. -/
def recordWith (impis : List String) : DefaultImpu where
  impu := "sip:d@example.com"
  associatedImpus := []
  impis := impis
  registrationState := .registered
  chargingAddresses := {}
  serviceProfile := ""
  cas := 1
  expiry := 0
  store := some 0

/-- An IMPI that one view does not list and the next one does is dropped, although its user has
made no call: the local store has lost it, and a remote store still has it. -/
theorem merge_drops_relisted_impi :
    ¬ IsThreeWayMerge [] (recordWith ["impi"])
      (((Irs.ofDefaultImpu (recordWith ["impi"]) 0).applyCalls []).mergeViews
        [(recordWith [], 0), (recordWith ["impi"], 0)]) := by
  intro hlaw
  have hpresent := (hlaw "impi").mpr (by decide)
  have hmem := (mem_getAssociatedImpis_mergeViews (recordWith ["impi"]) 0 [] [(recordWith [], 0)]
    (recordWith ["impi"], 0) "impi").mp hpresent
  exact absurd hmem (by decide)

end Homestead
