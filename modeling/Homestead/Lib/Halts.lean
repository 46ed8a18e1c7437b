import Homestead.Lib.RelyGuarantee

/-!
# `Homestead.Lib.Halts`: a program that ends once the others are quiet

A `Running` program shares its server with other clients. `others n` are the calls that
they make before its call number `n`, so `Running.run` over all `others` is every
interleaving. `Running.Returns` says that the program returns after finitely many steps.

`Halts` is the judgement that a program returns among other clients that make at most `b`
writes from now on. It is inductive, so a derivation is a bound on the run of the program.
Its rules follow the shape of the program: `Halts.bind`, `Halts.loop` with a measure that
falls from pass to pass, and `Halts.forEach`.

* `Halts.returns` goes from the judgement to every interleaving with boundedly many writes.
* `Running.not_returns` is the rule for a program that never returns.
-/

set_option autoImplicit false

section Running

variable {Op : Type} {Resp : Op → Type} {W : Type} (h : Handler Op Resp W) {α : Type}

/-- The server after the calls `os`. -/
def Handler.after (os : List Op) (w : W) : W := os.foldl (fun w o => (h o w).2) w

/-- The program has returned. -/
def Prog.returned : Prog Op Resp α → Bool
  | .ret _ => true
  | _ => false

theorem Prog.eq_ret_of_returned {p : Prog Op Resp α} (hp : p.returned = true) : ∃ a, p = .ret a := by
  cases p with
  | ret a => exact ⟨a, rfl⟩
  | call o k => cases hp
  | doWhile body again s k => cases hp

/-- A program with the calls it has made so far. -/
structure Running (Op : Type) (Resp : Op → Type) (W α : Type) where
  prog : Prog Op Resp α
  hist : List (Event Op Resp)
  world : W

/-- The program before its first call. -/
def Running.start (p : Prog Op Resp α) (w : W) : Running Op Resp W α :=
  { prog := p, hist := [], world := w }

namespace Running

/-- The program makes its next call, after those of the others, or unrolls a loop. -/
def step (others : Nat → List Op) (c : Running Op Resp W α) : Running Op Resp W α :=
  match c.prog with
  | .ret _ => c
  | .call o k =>
    let w := Handler.after h (others c.hist.length) c.world
    { prog := k (h o w).1, hist := c.hist ++ [⟨o, (h o w).1⟩], world := (h o w).2 }
  | .doWhile body again s k => { c with prog := Prog.unroll body again s k }

/-- The program after `n` steps. -/
def run (others : Nat → List Op) : Nat → Running Op Resp W α → Running Op Resp W α
  | 0, c => c
  | n + 1, c => run others n (c.step h others)

/-- The program returns after finitely many steps. -/
def Returns (others : Nat → List Op) (c : Running Op Resp W α) : Prop :=
  ∃ n a, (c.run h others n).prog = .ret a

/-- Every call of the program meets the condition `A` at the state where it is made. -/
def Meets (A : List (Event Op Resp) → W → Op → Prop) (others : Nat → List Op)
    (c : Running Op Resp W α) : Prop :=
  ∀ n, ∀ o ∈ (c.run h others n).prog.nextCall,
    A (c.run h others n).hist
      (Handler.after h (others (c.run h others n).hist.length) (c.run h others n).world) o

variable {h} {others : Nat → List Op} {c : Running Op Resp W α}

theorem Returns.of_step (hc : Returns h others (c.step h others)) : Returns h others c := by
  obtain ⟨n, a, hn⟩ := hc
  exact ⟨n + 1, a, hn⟩

theorem step_of_ret {a : α} (hc : c.prog = .ret a) : c.step h others = c := by
  unfold step
  rw [hc]

theorem run_of_ret {a : α} (hc : c.prog = .ret a) (n : Nat) : c.run h others n = c := by
  induction n with
  | zero => rfl
  | succ n ih =>
    show (c.step h others).run h others n = c
    rw [step_of_ret hc, ih]

theorem run_add (n m : Nat) (c : Running Op Resp W α) :
    c.run h others (n + m) = (c.run h others n).run h others m := by
  induction n generalizing c with
  | zero => rw [Nat.zero_add]; rfl
  | succ n ih =>
    rw [Nat.succ_add]
    exact ih (c.step h others)

/-- A program that returns does so from every state of its run. -/
theorem Returns.run (hc : Returns h others c) (m : Nat) : Returns h others (c.run h others m) := by
  obtain ⟨n, a, hn⟩ := hc
  refine ⟨n, a, ?_⟩
  rw [← run_add, Nat.add_comm, run_add, run_of_ret hn]
  exact hn

theorem Returns.call {o : Op} {k : Resp o → Prog Op Resp α} {hs : List (Event Op Resp)} {w w' : W}
    {r : Resp o} (hserve : h o (Handler.after h (others hs.length) w) = (r, w'))
    (hc : Returns h others { prog := .call o k, hist := hs, world := w }) :
    Returns h others { prog := k r, hist := hs ++ [⟨o, r⟩], world := w' } := by
  have hstep := hc.run 1
  simp only [Running.run, step, hserve] at hstep
  exact hstep

theorem Returns.doWhile {σ : Type} {body : σ → Prog Op Resp σ} {again : σ → Bool} {s : σ}
    {k : σ → Prog Op Resp α} {hs : List (Event Op Resp)} {w : W}
    (hc : Returns h others { prog := .doWhile body again s k, hist := hs, world := w }) :
    Returns h others { prog := Prog.unroll body again s k, hist := hs, world := w } :=
  hc.run 1

/-- A program is inside an invariant that no step leaves and that excludes a return. -/
theorem not_returns (Inv : Running Op Resp W α → Prop)
    (hstep : ∀ c, Inv c → Inv (c.step h others)) (hret : ∀ c a, Inv c → c.prog ≠ .ret a)
    (hc : Inv c) : ¬ Returns h others c := by
  rintro ⟨n, a, hn⟩
  induction n generalizing c with
  | zero => exact hret c a hc hn
  | succ n ih => exact ih (hstep c hc) hn

/-- The condition has to be checked up to the return only. -/
theorem meets_of_run {A : List (Event Op Resp) → W → Op → Prop} (n : Nat)
    (hret : (c.run h others n).prog.returned = true)
    (hA : ∀ i < n, ∀ o ∈ (c.run h others i).prog.nextCall, A (c.run h others i).hist
      (Handler.after h (others (c.run h others i).hist.length) (c.run h others i).world) o) :
    Meets h A others c := by
  obtain ⟨a, hret⟩ := Prog.eq_ret_of_returned hret
  intro i o ho
  by_cases hi : i < n
  · exact hA i hi o ho
  · obtain ⟨m, rfl⟩ := Nat.exists_eq_add_of_le (Nat.le_of_not_lt hi)
    rw [run_add, run_of_ret hret, hret] at ho
    cases ho

end Running

end Running

section Halts

variable {Op : Type} {Resp : Op → Type} {W : Type}
variable (h : Handler Op Resp W) (writes : Op → Bool)

/-- The other clients can take the server from `w` to `w'`, and can make `b'` writes after
that when they can make `b` in all. -/
def Interferes (b : Nat) (w : W) (b' : Nat) (w' : W) : Prop :=
  ∃ os, w' = Handler.after h os w ∧ os.countP writes + b' = b

variable (A : List (Event Op Resp) → W → Op → Prop)

/-- The program returns among other clients that make at most `b` writes, when its calls meet
the condition `A`. `Q` holds of the result, of the writes that are left, of the calls of the
program, and of the server. -/
inductive Halts {α : Type} (Q : α → Nat → List (Event Op Resp) → W → Prop) :
    Nat → Prog Op Resp α → List (Event Op Resp) → W → Prop
  | ret {a : α} {b : Nat} {hs : List (Event Op Resp)} {w : W} (hq : Q a b hs w) :
      Halts Q b (.ret a) hs w
  | call {o : Op} {k : Resp o → Prog Op Resp α} {b : Nat} {hs : List (Event Op Resp)} {w : W}
      (next : ∀ b' w', Interferes h writes b w b' w' → A hs w' o →
        Halts Q b' (k (h o w').1) (hs ++ [⟨o, (h o w').1⟩]) (h o w').2) :
      Halts Q b (.call o k) hs w
  | unroll {σ : Type} {body : σ → Prog Op Resp σ} {again : σ → Bool} {s : σ}
      {k : σ → Prog Op Resp α} {b : Nat} {hs : List (Event Op Resp)} {w : W}
      (next : Halts Q b (Prog.unroll body again s k) hs w) :
      Halts Q b (.doWhile body again s k) hs w

namespace Halts

variable {h writes A} {α β σ : Type} {Q : α → Nat → List (Event Op Resp) → W → Prop}
variable {Q' : β → Nat → List (Event Op Resp) → W → Prop}
variable {b : Nat} {hs : List (Event Op Resp)} {w : W}

theorem bind {p : Prog Op Resp α} {f : α → Prog Op Resp β} (hp : Halts h writes A Q b p hs w)
    (hf : ∀ a b' hs' w', Q a b' hs' w' → Halts h writes A Q' b' (f a) hs' w') :
    Halts h writes A Q' b (p >>= f) hs w := by
  induction hp with
  | ret hq => exact hf _ _ _ _ hq
  | call _ ih => exact .call fun b' w' he ha => ih b' w' he ha
  | unroll _ ih =>
    rw [Prog.unroll_bind] at ih
    exact .unroll ih

/-- A weaker postcondition. -/
theorem weaken {Q₁ Q₂ : α → Nat → List (Event Op Resp) → W → Prop} {p : Prog Op Resp α}
    (hp : Halts h writes A Q₁ b p hs w) (hq : ∀ a b' hs' w', Q₁ a b' hs' w' → Q₂ a b' hs' w') :
    Halts h writes A Q₂ b p hs w := by
  have hb : Halts h writes A Q₂ b (p >>= fun a => .ret a) hs w :=
    hp.bind fun a b' hs' w' hq₁ => .ret (hq a b' hs' w' hq₁)
  rwa [Prog.bind_ret] at hb

/-- The loop rule. `Inv n` holds at the start of a pass with the measure `n`, and a further
pass starts with a smaller one. -/
theorem loop {body : σ → Prog Op Resp σ} {again : σ → Bool}
    {Q : σ → Nat → List (Event Op Resp) → W → Prop}
    (Inv : Nat → σ → Nat → List (Event Op Resp) → W → Prop)
    (hbody : ∀ n s b hs w, Inv n s b hs w → Halts h writes A (fun s' b' hs' w' =>
      if again s' then ∃ n' < n, Inv n' s' b' hs' w' else Q s' b' hs' w') b (body s) hs w)
    {n : Nat} {s : σ} (hinit : Inv n s b hs w) :
    Halts h writes A Q b (Prog.loop body again s) hs w := by
  induction n using Nat.strongRecOn generalizing s b hs w with
  | ind n ih =>
    refine .unroll ((hbody n s b hs w hinit).bind fun s' b' hs' w' hq => ?_)
    cases hagain : again s' with
    | true =>
      rw [hagain] at hq
      obtain ⟨n', hn', hinv⟩ := hq
      exact ih n' hn' hinv
    | false =>
      rw [hagain] at hq
      exact .ret hq

/-- The rule for a loop over a list. -/
theorem forEach {X : Type} {body : X → σ → Prog Op Resp σ}
    (Inv : σ → Nat → List (Event Op Resp) → W → Prop) {xs : List X}
    (hstep : ∀ x ∈ xs, ∀ s b hs w, Inv s b hs w → Halts h writes A Inv b (body x s) hs w)
    {s : σ} (hinit : Inv s b hs w) :
    Halts h writes A Inv b (Prog.forEach xs body s) hs w := by
  induction xs generalizing s b hs w with
  | nil => exact .ret hinit
  | cons x xs ih =>
    refine (hstep x List.mem_cons_self s b hs w hinit).bind fun s' b' hs' w' hinv => ?_
    exact ih (fun y hy => hstep y (List.mem_cons_of_mem _ hy)) hinv

/-- A program that halts returns in every interleaving in which the others make no more than
`b` writes from its next call on. -/
theorem returns {p : Prog Op Resp α} (hp : Halts h writes A Q b p hs w) {others : Nat → List Op}
    (hb : ∀ n, ((List.range' hs.length n).flatMap others).countP writes ≤ b)
    (hm : Running.Meets h A others { prog := p, hist := hs, world := w }) :
    Running.Returns h others { prog := p, hist := hs, world := w } := by
  induction hp with
  | ret hq => exact ⟨0, _, rfl⟩
  | @call o k b hs w next ih =>
    -- The calls of the others before this one take their writes out of the budget.
    have hfirst : (others hs.length).countP writes ≤ b := by simpa using hb 1
    refine Running.Returns.of_step (ih (b - (others hs.length).countP writes) _
      ⟨others hs.length, rfl, by omega⟩ (hm 0 o rfl) (fun n => ?_) fun n => hm (n + 1))
    have hrest := hb (n + 1)
    rw [List.range'_succ, List.flatMap_cons, List.countP_append] at hrest
    rw [List.length_append, List.length_singleton]
    omega
  | unroll next ih => exact Running.Returns.of_step (ih hb fun n => hm (n + 1))

end Halts

end Halts
