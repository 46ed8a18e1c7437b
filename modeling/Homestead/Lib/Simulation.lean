import Homestead.Lib.CasTable
import Homestead.Lib.Traces

/-!
# `Homestead.Lib.Simulation`: one server in the place of another

A server that is proved about may be simpler than the one that runs. A `FailingHandler` is a
server whose calls may end the process instead of answering. `Simulates R C h g` says that it does
not fail on the calls of `C`, and answers them as the total server `h` does, while `R` relates
the states of the two.

* `Simulates.run` is the main result: a pool of clients whose calls are all in `C` runs on `g` in
  every interleaving as it does on `h`, with the same answers and the same results.
* `Eval.interp` is the rule for a program inside another one (`Prog.interp`), and
  `Eval.forEach_append` the one for two loops after each other.
* `CasTable.map f` is the table seen through a function on its values, under the same versions.
  `CasTable.map_put`, `CasTable.map_erase` and `CasTable.map_cas` say that each write is the same
  write on the table that is seen.
-/

set_option autoImplicit false

/-- A server whose calls may fail for good. -/
abbrev FailingHandler (Op : Type) (Resp : Op → Type) (W E : Type) : Type :=
  (o : Op) → W → Except E (Resp o × W)

section

variable {Op : Type} {Resp : Op → Type} {V W E α ι : Type}

/-- The server `g` answers the calls of `C` as `h` does, and keeps `R`. -/
def Simulates (R : V → W → Prop) (C : Op → Prop) (h : Handler Op Resp W)
    (g : FailingHandler Op Resp V E) : Prop :=
  ∀ o v w, C o → R v w → ∃ v', g o v = .ok ((h o w).1, v') ∧ R v' (h o w).2

namespace Pool

variable [DecidableEq ι]

/-- The pool on another server. -/
def withWorld (c : Pool ι Op Resp W α) (v : V) : Pool ι Op Resp V α :=
  { world := v, prog := c.prog, trace := c.trace }

variable (g : FailingHandler Op Resp V E)

/-- `Pool.step` on a server that may fail. -/
def tryStep (i : ι) (c : Pool ι Op Resp V α) : Except E (Pool ι Op Resp V α) :=
  match c.prog i with
  | .ret _ => .ok c
  | .call o k =>
    match g o c.world with
    | .error e => .error e
    | .ok (r, v) => .ok
      { world := v
        prog := Function.update c.prog i (k r)
        trace := c.trace ++ [(i, ⟨o, r⟩)] }
  | .doWhile body again s k =>
    .ok { c with prog := Function.update c.prog i (Prog.unroll body again s k) }

/-- `Pool.run` on a server that may fail. -/
def tryRun : List ι → Pool ι Op Resp V α → Except E (Pool ι Op Resp V α)
  | [], c => .ok c
  | i :: is, c =>
    match tryStep g i c with
    | .error e => .error e
    | .ok c' => tryRun is c'

end Pool

/-! ### Clients whose calls are known -/

namespace Only

variable {C : Op → Prop}

theorem of_call {o : Op} {k : Resp o → Prog Op Resp α} (h : Only C (.call o k)) (r : Resp o) :
    C o ∧ Only C (k r) :=
  ⟨h [⟨o, r⟩] (.call (.nil _)) ⟨o, r⟩ List.mem_cons_self,
    fun hs hbegins e he => h (⟨o, r⟩ :: hs) (.call hbegins) e (List.mem_cons_of_mem _ he)⟩

theorem of_doWhile {σ : Type} {body : σ → Prog Op Resp σ} {again : σ → Bool} {s : σ}
    {k : σ → Prog Op Resp α} (h : Only C (.doWhile body again s k)) :
    Only C (Prog.unroll body again s k) :=
  fun hs hbegins => h hs (.unroll hbegins)

end Only

/-- Clients that make calls of `C` only, whatever they are answered, do so in every schedule. -/
theorem Pool.meets_of_only [DecidableEq ι] {C : Op → Prop} {h : Handler Op Resp W} (is : List ι)
    {c : Pool ι Op Resp W α} (honly : ∀ i, Only C (c.prog i)) :
    Pool.Meets h (fun _ _ _ o => C o) is c := by
  induction is generalizing c with
  | nil => trivial
  | cons i is ih =>
    have hi := honly i
    -- The client that takes the step still makes calls of `C` only, and so do the others.
    have hupdate : ∀ p, Only C p → ∀ j, Only C (Function.update c.prog i p j) := by
      intro p hp j
      by_cases hj : j = i
      · subst hj
        rwa [Function.update_self]
      · rw [Function.update_of_ne hj]
        exact honly j
    unfold Pool.Meets Pool.step
    cases hp : c.prog i with
    | ret a => exact ⟨by simp [Prog.nextCall], ih honly⟩
    | call o k =>
      rw [hp] at hi
      obtain ⟨ho, hk⟩ := hi.of_call (h o c.world).1
      refine ⟨?_, ih (hupdate _ hk)⟩
      intro o' ho'
      cases ho'
      exact ho
    | doWhile body again s k =>
      rw [hp] at hi
      exact ⟨by simp [Prog.nextCall], ih (hupdate _ hi.of_doWhile)⟩

namespace Simulates

variable {R : V → W → Prop} {C : Op → Prop} {h : Handler Op Resp W}
variable {g : FailingHandler Op Resp V E}

/-- Fewer calls are simulated as well. -/
theorem mono {C' : Op → Prop} (hsim : Simulates R C h g) (hC : ∀ o, C' o → C o) :
    Simulates R C' h g :=
  fun o v w ho hR => hsim o v w (hC o ho) hR

variable [DecidableEq ι]

/-- One step of any client is the same step on the two servers. -/
theorem step (hsim : Simulates R C h g) (i : ι) {c : Pool ι Op Resp W α} {v : V}
    (hR : R v c.world) (hcall : ∀ o ∈ (c.prog i).nextCall, C o) :
    ∃ v', Pool.tryStep g i (c.withWorld v) = .ok ((c.step h i).withWorld v') ∧
      R v' (c.step h i).world := by
  unfold Pool.step Pool.tryStep Pool.withWorld
  cases hp : c.prog i with
  | ret a => exact ⟨v, by simp, hR⟩
  | call o k =>
    rw [hp] at hcall
    obtain ⟨v', hg, hR'⟩ := hsim o v c.world (hcall o rfl) hR
    exact ⟨v', by simp [hg], hR'⟩
  | doWhile body again s k => exact ⟨v, by simp, hR⟩

/-- Every interleaving is the same on the two servers. -/
theorem run (hsim : Simulates R C h g) (is : List ι) {c : Pool ι Op Resp W α} {v : V}
    (hR : R v c.world) (hmeets : Pool.Meets h (fun _ _ _ o => C o) is c) :
    ∃ v', Pool.tryRun g is (c.withWorld v) = .ok ((c.run h is).withWorld v') ∧
      R v' (c.run h is).world := by
  induction is generalizing c v with
  | nil => exact ⟨v, rfl, hR⟩
  | cons i is ih =>
    obtain ⟨hcall, hrest⟩ := hmeets
    obtain ⟨v₁, hstep, hR₁⟩ := hsim.step i hR hcall
    obtain ⟨v', hrun, hR'⟩ := ih hR₁ hrest
    refine ⟨v', ?_, hR'⟩
    simp only [Pool.tryRun, hstep]
    exact hrun

end Simulates

end

/-! ### A program inside another one -/

section

variable {Op Op' : Type} {Resp : Op → Type} {Resp' : Op' → Type} {V W α : Type}
variable {h : Handler Op Resp W} {g : Handler Op' Resp' V} {f : (o : Op) → Prog Op' Resp' (Resp o)}

/-- A program whose calls are replaced by programs runs as before, when each of these does what the
call does. -/
theorem Eval.interp (R : W → V → Prop) {C : Op → Prop}
    (hcall : ∀ o w v, C o → R w v → ∃ v', Eval g (f o) v (h o w).1 v' ∧ R (h o w).2 v')
    {p : Prog Op Resp α} {w w' : W} {a : α} (he : Eval h p w a w') (hp : Only C p) {v : V}
    (hR : R w v) : ∃ v', Eval g (p.interp f) v a v' ∧ R w' v' := by
  induction he generalizing v with
  | ret a w => exact ⟨v, .ret a v, hR⟩
  | @call o k w a w' next ih =>
    obtain ⟨ho, hk⟩ := hp.of_call (h o w).1
    obtain ⟨v₁, hf, hR₁⟩ := hcall o w v ho hR
    obtain ⟨v', hnext, hR'⟩ := ih hk hR₁
    exact ⟨v', hf.bind hnext, hR'⟩
  | @unroll σ body again s k w a w' next ih =>
    obtain ⟨v', hnext, hR'⟩ := ih hp.of_doWhile hR
    rw [Prog.interp_unroll] at hnext
    exact ⟨v', .unroll hnext, hR'⟩

/-- A loop over one list and then over another. -/
theorem Eval.forEach_append {X σ : Type} {h : Handler Op Resp W} {body : X → σ → Prog Op Resp σ}
    {xs ys : List X} {s₁ s₂ s₃ : σ} {w₁ w₂ w₃ : W}
    (hxs : Eval h (Prog.forEach xs body s₁) w₁ s₂ w₂) (hys : Eval h (Prog.forEach ys body s₂) w₂ s₃ w₃) :
    Eval h (Prog.forEach (xs ++ ys) body s₁) w₁ s₃ w₃ := by
  induction xs generalizing s₁ w₁ with
  | nil =>
    obtain ⟨rfl, rfl⟩ := Eval.ret_iff.mp hxs
    exact hys
  | cons x xs ih =>
    obtain ⟨s, w, hfirst, hrest⟩ := hxs.bind_inv
    exact hfirst.bind (ih hrest)

end

/-! ### Tables seen through a function -/

namespace CasTable

variable {K V W : Type}

theorem ext {t t' : CasTable K V} (hcells : t.cells = t'.cells) (hissued : t.issued = t'.issued) :
    t = t' := by
  cases t
  cases t'
  cases hcells
  cases hissued
  rfl

/-- The table with each value replaced, under the same versions. -/
def map (f : V → W) (t : CasTable K V) : CasTable K W where
  cells k := (t.cells k).map fun p => (p.1, f p.2)
  issued := t.issued
  fresh k c w h := by
    obtain ⟨p, hp, heq⟩ := Option.map_eq_some_iff.mp h
    cases heq
    exact t.fresh k p.1 p.2 hp

variable (f : V → W)

theorem map_cells (t : CasTable K V) (k : K) :
    (t.map f).cells k = (t.cells k).map fun p => (p.1, f p.2) := rfl

theorem map_cells_of_none {t : CasTable K V} {k : K} (h : t.cells k = none) :
    (t.map f).cells k = none := by
  simp [map, h]

theorem map_cells_of_some {t : CasTable K V} {k : K} {c : Nat} {v : V}
    (h : t.cells k = some (c, v)) : (t.map f).cells k = some (c, f v) := by
  simp [map, h]

@[simp] theorem map_version (t : CasTable K V) (k : K) : (t.map f).version k = t.version k := by
  simp [version, map, Function.comp_def]

variable [DecidableEq K]

theorem map_put (t : CasTable K V) (k : K) (v : V) : (t.put k v).map f = (t.map f).put k (f v) := by
  refine ext (funext fun k' => ?_) rfl
  by_cases hk : k' = k
  · subst hk
    simp [map]
  · rw [put_cells_ne _ _ hk, map_cells, map_cells, put_cells_ne _ _ hk]

theorem map_erase (t : CasTable K V) (k : K) : (t.erase k).map f = (t.map f).erase k := by
  refine ext (funext fun k' => ?_) rfl
  by_cases hk : k' = k
  · subst hk
    simp [map]
  · rw [erase_cells_ne _ hk, map_cells, map_cells, erase_cells_ne _ hk]

/-- A compare-and-set write finds contention in both tables, or writes in both. -/
theorem map_cas (t : CasTable K V) (k : K) (c : Nat) (v : V) :
    (t.map f).cas k c (f v) = (t.cas k c v).map (map f) := by
  by_cases hc : t.version k = c
  · rw [cas_of_version hc, cas_of_version ((map_version f t k).trans hc), Option.map_some, map_put]
  · rw [cas_eq_none.mpr hc, cas_eq_none.mpr fun h => hc ((map_version f t k).symm.trans h)]
    rfl

end CasTable
