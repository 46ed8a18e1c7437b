import Homestead.Lib.Prog
import Mathlib.Logic.Function.Basic

/-!
# `Homestead.Lib.RelyGuarantee`: clients of one server in any interleaving

A `Pool` is a family of programs that share one server. `Pool.step i` lets client `i` make
its next call, so a schedule is a list of clients, and `Pool.run` over all schedules is
every interleaving at the granularity of single calls. The trace records the calls with
their answers.

A `Contract` says, for one client, what the others may do between two of its calls
(`rely`), which condition a run grants it at a call (`assume`), and what it does itself
(`guar`). `Safe` is the judgement that a program keeps its contract. Its rules follow the
shape of the program: `Safe.ret`, `Safe.call`, `Safe.bind`, `Safe.loop`, `Safe.forEach`.

`Pool.Sound.run` composes the clients: when each one is `Safe` and each guarantee is
inside the others' rely, every state of every run keeps the contracts, and an invariant
that each guaranteed call keeps holds in every state.
-/

set_option autoImplicit false

/-- A call and its answer. -/
abbrev Event (Op : Type) (Resp : Op → Type) : Type := (o : Op) × Resp o

/-- What a client may count on and what it promises. `assume` and `guar` read the
client's own calls so far, the server state, and the call it is about to make. -/
structure Contract (Op : Type) (Resp : Op → Type) (W : Type) where
  rely : W → W → Prop
  assume : List (Event Op Resp) → W → Op → Prop
  guar : List (Event Op Resp) → W → Op → Prop
  rely_refl : ∀ w, rely w w
  rely_trans : ∀ {w₁ w₂ w₃}, rely w₁ w₂ → rely w₂ w₃ → rely w₁ w₃

section Safe

variable {Op : Type} {Resp : Op → Type} {W : Type}
variable (h : Handler Op Resp W) (C : Contract Op Resp W) {α β σ : Type}

/-- `p` keeps the contract for `n` steps, and a result it returns within them satisfies `Q`
from then on. -/
def SafeN (Q : α → List (Event Op Resp) → W → Prop) :
    Nat → Prog Op Resp α → List (Event Op Resp) → W → Prop
  | 0, _, _, _ => True
  | _ + 1, .ret a, hs, w => ∀ w', C.rely w w' → Q a hs w'
  | n + 1, .call o k, hs, w => ∀ w', C.rely w w' → C.assume hs w' o →
      C.guar hs w' o ∧ SafeN Q n (k (h o w').1) (hs ++ [⟨o, (h o w').1⟩]) (h o w').2
  | n + 1, .doWhile body again s k, hs, w => SafeN Q n (Prog.unroll body again s k) hs w

/-- `p`, whose calls so far are `hs`, keeps the contract `C` from the server state `w` on,
and a result it returns satisfies `Q`. -/
def Safe (Q : α → List (Event Op Resp) → W → Prop) (p : Prog Op Resp α)
    (hs : List (Event Op Resp)) (w : W) : Prop :=
  ∀ n, SafeN h C Q n p hs w

variable {h C}
variable {Q : α → List (Event Op Resp) → W → Prop} {Q' : β → List (Event Op Resp) → W → Prop}

theorem SafeN.rely {n : Nat} {p : Prog Op Resp α} {hs : List (Event Op Resp)} {w w' : W}
    (hp : SafeN h C Q n p hs w) (hr : C.rely w w') : SafeN h C Q n p hs w' := by
  induction n generalizing p with
  | zero => trivial
  | succ n ih =>
    cases p with
    | ret a => exact fun w'' hr' => hp w'' (C.rely_trans hr hr')
    | call o k => exact fun w'' hr' => hp w'' (C.rely_trans hr hr')
    | doWhile body again s k => exact ih hp

/-- Sequencing at a bounded number of steps. The continuation may use the postcondition of
`p` at every state the others can reach from the return. -/
theorem SafeN.bind {n : Nat} {p : Prog Op Resp α} {f : α → Prog Op Resp β}
    {hs : List (Event Op Resp)} {w : W} (hp : SafeN h C Q n p hs w)
    (hf : ∀ a hs' w', (∀ w'', C.rely w' w'' → Q a hs' w'') → ∀ m ≤ n,
      SafeN h C Q' m (f a) hs' w') : SafeN h C Q' n (p >>= f) hs w := by
  induction n generalizing p hs w with
  | zero => trivial
  | succ n ih =>
    cases p with
    | ret a => exact hf a hs w hp (n + 1) (Nat.le_refl _)
    | call o k =>
      intro w' hr ha
      obtain ⟨hg, hk⟩ := hp w' hr ha
      exact ⟨hg, ih hk fun a hs' w'' hq m hm => hf a hs' w'' hq m (by omega)⟩
    | doWhile body again s k =>
      have hrest : SafeN h C Q' n (Prog.unroll body again s k >>= f) hs w :=
        ih hp fun a hs' w'' hq m hm => hf a hs' w'' hq m (by omega)
      rw [Prog.unroll_bind] at hrest
      exact hrest

namespace Safe

/-- What the other clients do does not break the judgement. -/
theorem rely {p : Prog Op Resp α} {hs : List (Event Op Resp)} {w w' : W}
    (hp : Safe h C Q p hs w) (hr : C.rely w w') : Safe h C Q p hs w' :=
  fun n => (hp n).rely hr

theorem ret {a : α} {hs : List (Event Op Resp)} {w : W} (hq : ∀ w', C.rely w w' → Q a hs w') :
    Safe h C Q (.ret a) hs w := by
  intro n
  cases n with
  | zero => trivial
  | succ n => exact hq

/-- A returned result satisfies the postcondition at every later state. -/
theorem post {a : α} {hs : List (Event Op Resp)} {w : W} (hp : Safe h C Q (.ret a) hs w) :
    Q a hs w :=
  hp 1 w (C.rely_refl w)

theorem call {o : Op} {k : Resp o → Prog Op Resp α} {hs : List (Event Op Resp)} {w : W}
    (hk : ∀ w', C.rely w w' → C.assume hs w' o →
      C.guar hs w' o ∧ Safe h C Q (k (h o w').1) (hs ++ [⟨o, (h o w').1⟩]) (h o w').2) :
    Safe h C Q (.call o k) hs w := by
  intro n
  cases n with
  | zero => trivial
  | succ n =>
    intro w' hr ha
    exact ⟨(hk w' hr ha).1, (hk w' hr ha).2 n⟩

/-- Inversion of `call` at the state where the call is made. -/
theorem of_call {o : Op} {k : Resp o → Prog Op Resp α} {hs : List (Event Op Resp)} {w : W}
    (hp : Safe h C Q (.call o k) hs w) (ha : C.assume hs w o) :
    C.guar hs w o ∧ Safe h C Q (k (h o w).1) (hs ++ [⟨o, (h o w).1⟩]) (h o w).2 :=
  ⟨(hp 1 w (C.rely_refl w) ha).1, fun n => (hp (n + 1) w (C.rely_refl w) ha).2⟩

theorem of_doWhile {body : σ → Prog Op Resp σ} {again : σ → Bool} {s : σ}
    {k : σ → Prog Op Resp α} {hs : List (Event Op Resp)} {w : W}
    (hp : Safe h C Q (.doWhile body again s k) hs w) :
    Safe h C Q (Prog.unroll body again s k) hs w :=
  fun n => hp (n + 1)

theorem bind {p : Prog Op Resp α} {f : α → Prog Op Resp β} {hs : List (Event Op Resp)} {w : W}
    (hp : Safe h C Q p hs w)
    (hf : ∀ a hs' w', (∀ w'', C.rely w' w'' → Q a hs' w'') → Safe h C Q' (f a) hs' w') :
    Safe h C Q' (p >>= f) hs w :=
  fun n => (hp n).bind fun a hs' w' hq m _ => hf a hs' w' hq m

/-- A weaker postcondition. -/
theorem weaken {Q₁ Q₂ : α → List (Event Op Resp) → W → Prop} {p : Prog Op Resp α}
    {hs : List (Event Op Resp)} {w : W} (hp : Safe h C Q₁ p hs w)
    (hq : ∀ a hs' w', Q₁ a hs' w' → Q₂ a hs' w') : Safe h C Q₂ p hs w := by
  have hb : Safe h C Q₂ (p >>= fun a => .ret a) hs w :=
    hp.bind fun a hs' w' hq₁ => .ret fun w'' hr => hq a hs' w'' (hq₁ w'' hr)
  rwa [Prog.bind_ret] at hb

/-- The loop rule: `Inv` holds at the start of every pass, and a pass ends with `Inv` or,
when the loop is left, with the postcondition. -/
theorem loop {body : σ → Prog Op Resp σ} {again : σ → Bool}
    {Q : σ → List (Event Op Resp) → W → Prop} (Inv : σ → List (Event Op Resp) → W → Prop)
    (hbody : ∀ s hs w, Inv s hs w → Safe h C
      (fun s' hs' w' => if again s' then Inv s' hs' w' else Q s' hs' w') (body s) hs w)
    {s : σ} {hs : List (Event Op Resp)} {w : W} (hinit : Inv s hs w) :
    Safe h C Q (Prog.loop body again s) hs w := by
  -- Strong induction on the number of steps: a further pass has fewer of them.
  suffices key : ∀ n s hs w, Inv s hs w →
      SafeN h C Q n (.doWhile body again s .ret) hs w from fun n => key n s hs w hinit
  intro n
  induction n using Nat.strongRecOn with
  | ind n ih =>
    intro s hs w hi
    cases n with
    | zero => trivial
    | succ n =>
      refine (hbody s hs w hi n).bind fun s' hs' w' hq m hm => ?_
      cases hagain : again s' with
      | true =>
        have hi' := hq w' (C.rely_refl w')
        rw [hagain] at hi'
        exact ih m (by omega) s' hs' w' hi'
      | false =>
        refine Safe.ret (fun w'' hr => ?_) m
        have hq' := hq w'' hr
        rw [hagain] at hq'
        exact hq'

/-- The rule for a loop over a list. `Inv` speaks of the elements still to come. -/
theorem forEach {X : Type} {body : X → σ → Prog Op Resp σ}
    (Inv : List X → σ → List (Event Op Resp) → W → Prop)
    (hstable : ∀ xs s hs w w', Inv xs s hs w → C.rely w w' → Inv xs s hs w')
    (hstep : ∀ x xs s hs w, Inv (x :: xs) s hs w →
      Safe h C (fun s' hs' w' => Inv xs s' hs' w') (body x s) hs w)
    {xs : List X} {s : σ} {hs : List (Event Op Resp)} {w : W} (hinit : Inv xs s hs w) :
    Safe h C (fun s' hs' w' => Inv [] s' hs' w') (Prog.forEach xs body s) hs w := by
  induction xs generalizing s hs w with
  | nil => exact .ret fun w' hr => hstable _ _ _ _ _ hinit hr
  | cons x xs ih =>
    exact (hstep x xs s hs w hinit).bind fun s' hs' w' hi => ih (hi w' (C.rely_refl w'))

end Safe

end Safe

/-! ### Pools of clients -/

/-- Clients that share a server, with the calls made so far. -/
structure Pool (ι Op : Type) (Resp : Op → Type) (W α : Type) where
  world : W
  prog : ι → Prog Op Resp α
  trace : List (ι × Event Op Resp)

/-- The pool before any call. -/
def Pool.start {ι Op : Type} {Resp : Op → Type} {W α : Type} (w : W)
    (prog : ι → Prog Op Resp α) : Pool ι Op Resp W α :=
  { world := w, prog := prog, trace := [] }

/-- The call a program makes next, if it is at a call. -/
def Prog.nextCall {Op : Type} {Resp : Op → Type} {α : Type} : Prog Op Resp α → Option Op
  | .call o _ => some o
  | _ => none

namespace Pool

variable {ι Op : Type} {Resp : Op → Type} {W α : Type} [DecidableEq ι]
variable (h : Handler Op Resp W)

/-- The calls of one client in a trace. -/
def histOf (i : ι) (tr : List (ι × Event Op Resp)) : List (Event Op Resp) :=
  (tr.filter (fun e => e.1 = i)).map Prod.snd

theorem histOf_snoc_self (i : ι) (tr : List (ι × Event Op Resp)) (e : Event Op Resp) :
    histOf i (tr ++ [(i, e)]) = histOf i tr ++ [e] := by
  simp [histOf]

theorem histOf_snoc_ne {i j : ι} (hij : j ≠ i) (tr : List (ι × Event Op Resp))
    (e : Event Op Resp) : histOf i (tr ++ [(j, e)]) = histOf i tr := by
  simp [histOf, hij]

theorem mem_histOf {i : ι} {tr : List (ι × Event Op Resp)} {e : Event Op Resp} :
    e ∈ histOf i tr ↔ (i, e) ∈ tr := by
  simp [histOf]

/-- Client `i` makes its next call, or unrolls a loop. A client that has returned stays. -/
def step (i : ι) (c : Pool ι Op Resp W α) : Pool ι Op Resp W α :=
  match c.prog i with
  | .ret _ => c
  | .call o k =>
    { world := (h o c.world).2
      prog := Function.update c.prog i (k (h o c.world).1)
      trace := c.trace ++ [(i, ⟨o, (h o c.world).1⟩)] }
  | .doWhile body again s k =>
    { c with prog := Function.update c.prog i (Prog.unroll body again s k) }

/-- The pool after a schedule. -/
def run : List ι → Pool ι Op Resp W α → Pool ι Op Resp W α
  | [], c => c
  | i :: is, c => run is (c.step h i)

theorem run_append (is js : List ι) (c : Pool ι Op Resp W α) :
    run h (is ++ js) c = run h js (run h is c) := by
  induction is generalizing c with
  | nil => rfl
  | cons i is ih => exact ih _

/-- Every call of the schedule meets the condition `A` at the state where it is made. -/
def Meets (A : ι → List (Event Op Resp) → W → Op → Prop) :
    List ι → Pool ι Op Resp W α → Prop
  | [], _ => True
  | i :: is, c =>
    (∀ o ∈ (c.prog i).nextCall, A i (histOf i c.trace) c.world o) ∧ Meets A is (c.step h i)

instance decidableMeets {A : ι → List (Event Op Resp) → W → Op → Prop}
    [∀ i hs w o, Decidable (A i hs w o)] :
    (is : List ι) → (c : Pool ι Op Resp W α) → Decidable (Meets h A is c)
  | [], _ => .isTrue trivial
  | i :: is, c =>
    have := decidableMeets (A := A) is (c.step h i)
    inferInstanceAs (Decidable (_ ∧ _))

/-- The condition holds on the first part of a schedule that meets it. -/
theorem Meets.of_append {A : ι → List (Event Op Resp) → W → Op → Prop} {is js : List ι}
    {c : Pool ι Op Resp W α} (hm : Meets h A (is ++ js) c) : Meets h A is c := by
  induction is generalizing c with
  | nil => trivial
  | cons i is ih => exact ⟨hm.1, ih hm.2⟩

/-- A schedule that meets a condition meets every weaker one. -/
theorem Meets.mono {A A' : ι → List (Event Op Resp) → W → Op → Prop}
    (hA : ∀ i hs w o, A i hs w o → A' i hs w o) {is : List ι} {c : Pool ι Op Resp W α}
    (hm : Meets h A is c) : Meets h A' is c := by
  induction is generalizing c with
  | nil => trivial
  | cons i is ih => exact ⟨fun o ho => hA i _ _ o (hm.1 o ho), ih hm.2⟩

/-- A condition that is always granted is met by every schedule. -/
theorem meets_of_forall {A : ι → List (Event Op Resp) → W → Op → Prop}
    (hA : ∀ i hs w o, A i hs w o) (is : List ι) (c : Pool ι Op Resp W α) : Meets h A is c := by
  induction is generalizing c with
  | nil => trivial
  | cons i is ih => exact ⟨fun o _ => hA i _ _ o, ih _⟩

variable {h}

/-- The pool keeps its contracts, and the invariant `J` holds. -/
structure Sound (h : Handler Op Resp W) (C : ι → Contract Op Resp W)
    (Q : ι → α → List (Event Op Resp) → W → Prop) (J : W → List (ι × Event Op Resp) → Prop)
    (c : Pool ι Op Resp W α) : Prop where
  safe : ∀ i, Safe h (C i) (Q i) (c.prog i) (histOf i c.trace) c.world
  inv : J c.world c.trace

section

variable {C : ι → Contract Op Resp W} {Q : ι → α → List (Event Op Resp) → W → Prop}
variable {J : W → List (ι × Event Op Resp) → Prop}

/-- One step of any client keeps the pool sound. -/
theorem Sound.step {c : Pool ι Op Resp W α} (hc : Sound h C Q J c)
    (hne : ∀ i j w tr o, i ≠ j → J w tr → (C i).guar (histOf i tr) w o →
      (C j).rely w (h o w).2)
    (hJ : ∀ i w tr o, J w tr → (C i).guar (histOf i tr) w o →
      J (h o w).2 (tr ++ [(i, ⟨o, (h o w).1⟩)])) (i : ι)
    (ha : ∀ o ∈ (c.prog i).nextCall, (C i).assume (histOf i c.trace) c.world o) :
    Sound h C Q J (c.step h i) := by
  have hsafe := hc.safe i
  unfold Pool.step
  cases hp : c.prog i with
  | ret a => exact hc
  | call o k =>
    rw [hp] at hsafe ha
    obtain ⟨hg, hk⟩ := hsafe.of_call (ha o rfl)
    refine ⟨fun j => ?_, hJ i c.world c.trace o hc.inv hg⟩
    -- Thread `i` took the step, which it guarantees and every other thread relies on.
    by_cases hj : j = i
    · subst hj
      simp only [Function.update_self, histOf_snoc_self]
      exact hk
    · simp only [Function.update_of_ne hj, histOf_snoc_ne (Ne.symm hj)]
      exact (hc.safe j).rely (hne i j _ _ o (Ne.symm hj) hc.inv hg)
  | doWhile body again s k =>
    rw [hp] at hsafe
    refine ⟨fun j => ?_, hc.inv⟩
    by_cases hj : j = i
    · subst hj
      simp only [Function.update_self]
      exact hsafe.of_doWhile
    · simp only [Function.update_of_ne hj]
      exact hc.safe j

/-- Composition: every state of every run keeps the contracts and the invariant. -/
theorem Sound.run {c : Pool ι Op Resp W α} (hc : Sound h C Q J c)
    (hne : ∀ i j w tr o, i ≠ j → J w tr → (C i).guar (histOf i tr) w o →
      (C j).rely w (h o w).2)
    (hJ : ∀ i w tr o, J w tr → (C i).guar (histOf i tr) w o →
      J (h o w).2 (tr ++ [(i, ⟨o, (h o w).1⟩)])) (is : List ι)
    (ha : Meets h (fun i => (C i).assume) is c) : Sound h C Q J (run h is c) := by
  induction is generalizing c with
  | nil => exact hc
  | cons i is ih => exact ih (hc.step hne hJ i ha.1) ha.2

/-- The result of a client that has returned satisfies its postcondition. -/
theorem Sound.post {c : Pool ι Op Resp W α} (hc : Sound h C Q J c) {i : ι} {a : α}
    (hi : c.prog i = .ret a) : Q i a (histOf i c.trace) c.world := by
  have hsafe := hc.safe i
  rw [hi] at hsafe
  exact hsafe.post

end

end Pool
