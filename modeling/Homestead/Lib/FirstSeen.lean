import Mathlib.Tactic.Common
import Mathlib.Data.List.Induction
import Mathlib.Data.List.Nodup

/-!
# `Homestead.Lib.FirstSeen`: the first occurrence of each key

A loop meets keys, each with a flag. It records a key that it has not met before, and marks it if
its flag is set. A key that it meets again is passed over, whatever the flag is then.
`FirstSeen` is the state of the loop.

`FirstSeen.Records` says what a state has to do with the keys that were met: the recorded keys are
those, each once, in the order in which they first occur, and the marked ones are those whose
first occurrence has the flag. `FirstSeen.records_of` is the loop, and `FirstSeen.head?_marked`
the first key that it marks.
-/

set_option autoImplicit false

/-- The keys that were met, and the marked ones among them. -/
structure FirstSeen (K : Type) where
  keys : List K := []
  marked : List K := []

namespace FirstSeen

variable {K : Type} [DecidableEq K]

/-- One key with its flag. -/
def record (seen : FirstSeen K) (e : K × Bool) : FirstSeen K :=
  if e.1 ∈ seen.keys then seen
  else
    { keys := seen.keys ++ [e.1]
      marked := if e.2 then seen.marked ++ [e.1] else seen.marked }

/-- All of them, in order. -/
def of (entries : List (K × Bool)) : FirstSeen K := entries.foldl record {}

/-- The state goes with the entries that were met. `lookup` is the flag of the first occurrence. -/
structure Records (entries : List (K × Bool)) (seen : FirstSeen K) : Prop where
  mem : ∀ k, k ∈ seen.keys ↔ k ∈ entries.map Prod.fst
  ordered : seen.keys.Pairwise fun a b =>
    (entries.map Prod.fst).idxOf a < (entries.map Prod.fst).idxOf b
  marked : seen.marked = seen.keys.filter fun k => entries.lookup k = some true

variable {entries : List (K × Bool)} {seen : FirstSeen K}

theorem Records.nodup (h : Records entries seen) : seen.keys.Nodup := by
  refine h.ordered.imp ?_
  rintro a b hlt rfl
  exact Nat.lt_irrefl _ hlt

/-- A key that occurs keeps its first occurrence when more are met. -/
theorem lookup_append_of_mem {k : K} (hk : k ∈ entries.map Prod.fst) (more : List (K × Bool)) :
    (entries ++ more).lookup k = entries.lookup k := by
  induction entries with
  | nil => cases hk
  | cons e entries ih =>
    obtain ⟨k', b⟩ := e
    rw [List.cons_append, List.lookup_cons, List.lookup_cons]
    by_cases heq : k = k'
    · simp [heq]
    · have hk' : k ∈ entries.map Prod.fst := by simpa [heq] using hk
      simp [beq_false_of_ne heq, ih hk']

/-- A key that is new has the occurrence that is met. -/
theorem lookup_snoc_of_not_mem {k : K} (hk : k ∉ entries.map Prod.fst) (b : Bool) :
    (entries ++ [(k, b)]).lookup k = some b := by
  induction entries with
  | nil => simp
  | cons e entries ih =>
    obtain ⟨k', b'⟩ := e
    obtain ⟨hne, hk'⟩ := not_or.mp (mt List.mem_cons.mpr hk)
    rw [List.cons_append, List.lookup_cons, beq_false_of_ne hne]
    exact ih hk'

theorem Records.record (h : Records entries seen) (e : K × Bool) :
    Records (entries ++ [e]) (seen.record e) := by
  obtain ⟨k, b⟩ := e
  -- What was met before is not changed by one more key.
  have hidx : ∀ a ∈ seen.keys, ((entries ++ [(k, b)]).map Prod.fst).idxOf a
      = (entries.map Prod.fst).idxOf a := by
    intro a ha
    rw [List.map_append]
    exact List.idxOf_append_of_mem ((h.mem a).mp ha)
  have hold : seen.keys.Pairwise fun a c => ((entries ++ [(k, b)]).map Prod.fst).idxOf a
      < ((entries ++ [(k, b)]).map Prod.fst).idxOf c := by
    refine h.ordered.imp_of_mem fun ha hc hlt => ?_
    rw [hidx _ ha, hidx _ hc]
    exact hlt
  have hlookup : seen.keys.filter (fun a => (entries ++ [(k, b)]).lookup a = some true)
      = seen.marked := by
    rw [h.marked]
    refine List.filter_congr fun a ha => ?_
    rw [lookup_append_of_mem ((h.mem a).mp ha)]
  unfold FirstSeen.record
  split
  · rename_i hmem
    have hmet := (h.mem k).mp hmem
    refine ⟨fun a => ?_, hold, hlookup.symm⟩
    rw [h.mem a, List.map_append, List.mem_append]
    refine ⟨.inl, ?_⟩
    rintro (ha | ha)
    · exact ha
    · rw [List.mem_singleton.mp ha]
      exact hmet
  · rename_i hnew
    have hmet : k ∉ entries.map Prod.fst := fun hmem => hnew ((h.mem k).mpr hmem)
    refine ⟨fun a => ?_, ?_, ?_⟩
    · rw [List.mem_append, h.mem a, List.map_append, List.mem_append]
      rfl
    · -- The new key comes after all that were met.
      refine List.pairwise_append.mpr ⟨hold, List.pairwise_singleton _ _, fun a ha c hc => ?_⟩
      rw [List.mem_singleton.mp hc, hidx a ha, List.map_append, List.idxOf_append_of_notMem hmet]
      exact Nat.lt_add_right _ (List.idxOf_lt_length_of_mem ((h.mem a).mp ha))
    · rw [List.filter_append, hlookup, List.filter_singleton, lookup_snoc_of_not_mem hmet]
      cases b <;> simp

/-- The whole loop. -/
theorem records_of (entries : List (K × Bool)) : Records entries (of entries) := by
  induction entries using List.reverseRecOn with
  | nil => exact ⟨fun _ => Iff.rfl, List.Pairwise.nil, rfl⟩
  | append_singleton entries e ih =>
    unfold of
    rw [List.foldl_append]
    exact ih.record e

/-- The first key that is marked is the first one whose first occurrence has the flag. -/
theorem Records.head?_marked (h : Records entries seen) :
    seen.marked.head? = seen.keys.find? fun k => entries.lookup k = some true := by
  rw [h.marked, List.head?_filter]

end FirstSeen
