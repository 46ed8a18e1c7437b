import Mathlib.Tactic.Common
import Mathlib.Data.List.Nodup

/-!
# `Homestead.Lib.Futures`: jobs that run in parallel, and a thread that waits for them in order

A thread queues one job for each element of a list, and each job fulfils its promise with a
value. The thread then takes the values in the order of the list, and waits at a promise that
is not fulfilled yet. `Futures` is a state of this, and a schedule is a list of
`FuturesEvent`s: the end of a job, or the thread taking the next value.

* `Futures.run_acc`: every schedule that gets to the end leaves the fold over the values, so
  the order in which the jobs end does not matter.
* `Futures.exists_step`: before the end there is always an event that can happen, and
  `Futures.step_left` says that each one brings the end nearer.
* `Futures.run_finish`: so every schedule can be continued to the end.
* `Futures.run_order`: every order of the jobs is the order of some schedule that gets to
  the end.
-/

set_option autoImplicit false

/-- What happens next: the job `i` ends, or the waiting thread takes the next value. -/
inductive FuturesEvent
  | fulfil (i : Nat)
  | take
  deriving DecidableEq, Repr

/-- The jobs in the order in which they end. -/
def FuturesEvent.fulfilled : List FuturesEvent → List Nat
  | [] => []
  | .fulfil i :: es => i :: fulfilled es
  | .take :: es => fulfilled es

/-- The promises, how many of them the thread has taken, and what it has made of them. -/
structure Futures (A S : Type) where
  promises : List (Option A)
  taken : Nat
  acc : S

namespace Futures

variable {A S : Type} (values : List A) (body : S → A → S)

/-- All jobs are queued, and none has ended. -/
def start (s : S) : Futures A S :=
  { promises := values.map fun _ => none, taken := 0, acc := s }

/-- One event. The answer is `none` for an event that cannot happen: a job ends once, and the
thread waits for a promise that is not fulfilled. -/
def step (c : Futures A S) : FuturesEvent → Option (Futures A S)
  | .fulfil i =>
    match c.promises[i]?, values[i]? with
    | some none, some a => some { c with promises := c.promises.set i (some a) }
    | _, _ => none
  | .take =>
    match c.promises[c.taken]? with
    | some (some a) => some { c with taken := c.taken + 1, acc := body c.acc a }
    | _ => none

/-- The state after a schedule. -/
def run (c : Futures A S) : List FuturesEvent → Option (Futures A S)
  | [] => some c
  | e :: es => (c.step values body e).bind fun c' => c'.run es

/-- The number of events until the end. -/
def left (c : Futures A S) : Nat :=
  c.promises.countP Option.isNone + (c.promises.length - c.taken)

/-- The promises hold the values of their own jobs, and the thread has folded those that it has
taken. -/
structure Inv (s : S) (c : Futures A S) : Prop where
  length : c.promises.length = values.length
  own : ∀ (i : Nat) (a : A), c.promises[i]? = some (some a) → values[i]? = some a
  taken_le : c.taken ≤ values.length
  acc : c.acc = (values.take c.taken).foldl body s

variable {values body}

theorem inv_start (s : S) : Inv values body s (start values s) where
  length := by simp [start]
  own i a h := by
    obtain ⟨b, -, hb⟩ := List.mem_map.mp (List.mem_of_getElem? h)
    cases hb
  taken_le := Nat.zero_le _
  acc := rfl

/-- Every event keeps the invariant. -/
theorem Inv.step {s : S} {c c' : Futures A S} (hc : Inv values body s c) {e : FuturesEvent}
    (h : c.step values body e = some c') : Inv values body s c' := by
  cases e with
  | fulfil i =>
    simp only [Futures.step] at h
    split at h
    · rename_i a hpromise hvalue
      cases h
      constructor
      · simp [hc.length]
      · intro j b hj
        -- Only the promise that is fulfilled changes, to the value of its own job.
        rw [List.getElem?_set] at hj
        split at hj
        · rename_i hij
          subst hij
          split at hj
          · cases hj
            exact hvalue
          · cases hj
        · exact hc.own j b hj
      · exact hc.taken_le
      · exact hc.acc
    · cases h
  | take =>
    simp only [Futures.step] at h
    split at h
    · rename_i a hpromise
      cases h
      have hvalue := hc.own _ a hpromise
      -- A promise that is fulfilled belongs to a job.
      have hlt : c.taken < values.length := by
        by_contra hge
        rw [List.getElem?_eq_none (by omega)] at hvalue
        cases hvalue
      constructor
      · exact hc.length
      · exact hc.own
      · exact hlt
      · show body c.acc a = (values.take (c.taken + 1)).foldl body s
        rw [List.take_add_one, hvalue, hc.acc]
        simp
    · cases h

theorem Inv.run {s : S} {c c' : Futures A S} (hc : Inv values body s c) {es : List FuturesEvent}
    (h : c.run values body es = some c') : Inv values body s c' := by
  induction es generalizing c with
  | nil =>
    cases h
    exact hc
  | cons e es ih =>
    obtain ⟨c₁, hstep, hrun⟩ := Option.bind_eq_some_iff.mp h
    exact ih (hc.step hstep) hrun

/-- Whatever the schedule, a thread that has taken every value has folded them in the order of
the list. -/
theorem run_acc {s : S} {c : Futures A S} {es : List FuturesEvent}
    (h : (start values s).run values body es = some c) (hend : c.taken = values.length) :
    c.acc = values.foldl body s := by
  have hc := (inv_start s).run h
  rw [hc.acc, hend, List.take_length]

/-- Before the end, the next promise is fulfilled and can be taken, or its job can end. -/
theorem exists_step {s : S} {c : Futures A S} (hc : Inv values body s c)
    (hend : c.taken ≠ values.length) : ∃ e c', c.step values body e = some c' := by
  have hlt : c.taken < values.length := by
    have := hc.taken_le
    omega
  have hpromise : c.promises[c.taken]? ≠ none := by
    rw [Ne, List.getElem?_eq_none_iff, hc.length]
    omega
  cases hnext : c.promises[c.taken]? with
  | none => exact absurd hnext hpromise
  | some promise =>
    cases promise with
    | none =>
      refine ⟨.fulfil c.taken, { c with promises := c.promises.set c.taken (some values[c.taken]) }, ?_⟩
      simp [Futures.step, hnext, List.getElem?_eq_getElem hlt]
    | some a =>
      refine ⟨.take, { c with taken := c.taken + 1, acc := body c.acc a }, ?_⟩
      simp [Futures.step, hnext]

/-- Every event lowers the number of events that are left. -/
theorem step_left {c c' : Futures A S} {e : FuturesEvent} (h : c.step values body e = some c') :
    c'.left < c.left := by
  cases e with
  | fulfil i =>
    simp only [Futures.step] at h
    split at h
    · rename_i a hpromise hvalue
      cases h
      obtain ⟨hi, hnone⟩ := List.getElem?_eq_some_iff.mp hpromise
      have hcount : (c.promises.set i (some a)).countP Option.isNone
          = c.promises.countP Option.isNone - 1 := by
        rw [List.countP_set hi, hnone]
        rfl
      have hpos : 0 < c.promises.countP Option.isNone :=
        List.countP_pos_iff.mpr ⟨none, List.mem_of_getElem? hpromise, rfl⟩
      simp only [left, List.length_set, hcount]
      omega
    · cases h
  | take =>
    simp only [Futures.step] at h
    split at h
    · rename_i a hpromise
      cases h
      obtain ⟨hi, -⟩ := List.getElem?_eq_some_iff.mp hpromise
      simp only [left]
      omega
    · cases h

/-- From every state that a schedule reaches, some schedule gets to the end. -/
theorem run_finish {s : S} {c : Futures A S} (hc : Inv values body s c) :
    ∃ es c', c.run values body es = some c' ∧ c'.taken = values.length := by
  by_cases hend : c.taken = values.length
  · exact ⟨[], c, rfl, hend⟩
  · obtain ⟨e, c₁, hstep⟩ := exists_step hc hend
    have hleft := step_left hstep
    obtain ⟨es, c', hrun, hend'⟩ := run_finish (hc.step hstep)
    refine ⟨e :: es, c', ?_, hend'⟩
    show (c.step values body e).bind _ = _
    rw [hstep]
    exact hrun
termination_by c.left

theorem run_append (c : Futures A S) (es es' : List FuturesEvent) :
    c.run values body (es ++ es')
      = (c.run values body es).bind fun c' => c'.run values body es' := by
  induction es generalizing c with
  | nil => rfl
  | cons e es ih =>
    show (c.step values body e).bind _ = ((c.step values body e).bind _).bind _
    rw [Option.bind_assoc]
    congr 1
    funext c'
    exact ih c'

/-- The jobs of `order` end one after the other. -/
theorem run_fulfil (body : S → A → S) {order : List Nat} (hnodup : order.Nodup) {c : Futures A S}
    (hopen : ∀ i ∈ order, i < values.length ∧ c.promises[i]? = some none) :
    ∃ c', c.run values body (order.map .fulfil) = some c' ∧ c'.taken = c.taken ∧
      (∀ i ∈ order, c'.promises[i]? = values[i]?.map some) ∧
      ∀ i, i ∉ order → c'.promises[i]? = c.promises[i]? := by
  induction order generalizing c with
  | nil => exact ⟨c, rfl, rfl, by simp, by simp⟩
  | cons j order ih =>
    obtain ⟨hnotMem, hnodup'⟩ := List.nodup_cons.mp hnodup
    obtain ⟨hj, hnone⟩ := hopen j List.mem_cons_self
    have hvalue := List.getElem?_eq_getElem hj
    have hstep : c.step values body (.fulfil j)
        = some { c with promises := c.promises.set j (some values[j]) } := by
      simp [Futures.step, hnone, hvalue]
    -- The other promises of the order are still open.
    have hne : ∀ i, i ≠ j →
        (c.promises.set j (some values[j]))[i]? = c.promises[i]? := by
      intro i hij
      rw [List.getElem?_set_ne (Ne.symm hij)]
    have hjlt : j < c.promises.length := (List.getElem?_eq_some_iff.mp hnone).1
    obtain ⟨c', hrun, htaken, hdone, hother⟩ := ih hnodup'
      (c := { c with promises := c.promises.set j (some values[j]) }) (by
        intro i hi
        obtain ⟨hi', hopen'⟩ := hopen i (List.mem_cons_of_mem _ hi)
        have hij : i ≠ j := fun heq => hnotMem (heq ▸ hi)
        exact ⟨hi', (hne i hij).trans hopen'⟩)
    refine ⟨c', ?_, htaken, ?_, ?_⟩
    · show (c.step values body (.fulfil j)).bind _ = _
      rw [hstep]
      exact hrun
    · intro i hi
      rcases List.mem_cons.mp hi with rfl | hi
      · rw [hother i hnotMem, hvalue]
        simp [hjlt]
      · exact hdone i hi
    · intro i hi
      have hij : i ≠ j := fun heq => hi (heq ▸ List.mem_cons_self)
      rw [hother i fun hmem => hi (List.mem_cons_of_mem _ hmem)]
      exact hne i hij

/-- Once every job has ended, the thread takes all the values that are left. -/
theorem run_take (body : S → A → S) (n : Nat) {c : Futures A S} (hn : c.taken + n = values.length)
    (hdone : ∀ i, i < values.length → c.promises[i]? = values[i]?.map some) :
    ∃ c', c.run values body (List.replicate n .take) = some c' ∧ c'.taken = values.length := by
  induction n generalizing c with
  | zero => exact ⟨c, rfl, by omega⟩
  | succ n ih =>
    have hlt : c.taken < values.length := by omega
    have hpromise := hdone c.taken hlt
    rw [List.getElem?_eq_getElem hlt] at hpromise
    have hstep : c.step values body .take
        = some { c with taken := c.taken + 1, acc := body c.acc values[c.taken] } := by
      simp [Futures.step, hpromise]
    obtain ⟨c', hrun, hend⟩ := ih
      (c := { c with taken := c.taken + 1, acc := body c.acc values[c.taken] })
      (by show c.taken + 1 + n = _; omega) hdone
    refine ⟨c', ?_, hend⟩
    rw [List.replicate_succ]
    show (c.step values body .take).bind _ = _
    rw [hstep]
    exact hrun

theorem fulfilled_append (es es' : List FuturesEvent) :
    FuturesEvent.fulfilled (es ++ es')
      = FuturesEvent.fulfilled es ++ FuturesEvent.fulfilled es' := by
  induction es with
  | nil => rfl
  | cons e es ih => cases e <;> simp [FuturesEvent.fulfilled, ih]

theorem fulfilled_map (order : List Nat) :
    FuturesEvent.fulfilled (order.map .fulfil) = order := by
  induction order with
  | nil => rfl
  | cons i order ih => simp [FuturesEvent.fulfilled, ih]

theorem fulfilled_replicate_take (n : Nat) :
    FuturesEvent.fulfilled (List.replicate n .take) = [] := by
  induction n with
  | zero => rfl
  | succ n ih => simp [List.replicate_succ, FuturesEvent.fulfilled, ih]

/-- Every order in which the jobs can end is the order of a schedule that gets to the end. -/
theorem run_order (body : S → A → S) {order : List Nat}
    (h : order.Perm (List.range values.length)) (s : S) :
    ∃ es c, FuturesEvent.fulfilled es = order ∧
      (start values s).run values body es = some c ∧ c.taken = values.length := by
  have hmem : ∀ i, i ∈ order ↔ i < values.length := by
    intro i
    rw [h.mem_iff, List.mem_range]
  obtain ⟨c, hrun, htaken, hdone, -⟩ := run_fulfil body
    (h.nodup_iff.mpr List.nodup_range) (c := start values s) (by
      intro i hi
      have hlt := (hmem i).mp hi
      exact ⟨hlt, by simp [start, hlt]⟩)
  obtain ⟨c', hrun', hend⟩ := run_take body values.length (c := c)
    (by rw [htaken]; simp [start]) fun i hi => hdone i ((hmem i).mpr hi)
  refine ⟨order.map .fulfil ++ List.replicate values.length .take, c', ?_, ?_, hend⟩
  · rw [fulfilled_append, fulfilled_map, fulfilled_replicate_take, List.append_nil]
  · rw [run_append, hrun]
    exact hrun'

end Futures
