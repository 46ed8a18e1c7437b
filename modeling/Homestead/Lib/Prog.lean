import Mathlib.Tactic.Common

/-!
# `Homestead.Lib.Prog`: programs that call a shared server

A `Prog Op Resp α` is a program that issues calls `o : Op` to a server, reads the answer
`Resp o`, and ends with a result in `α`. The `doWhile` node is the C loop
`do { body } while (again)`. It is a node of its own, so a retry loop that never ends is a
finite piece of data, and its unrolling is a silent step of the semantics.

* `Prog.unroll` is one unrolling of the loop.
* `Prog.forEach` is the loop over a list with one state variable.
* `Prog.interp` replaces each call by a program over other calls.
* `Eval` is the run of a program alone on the server (big step). `Eval.bind`,
  `Eval.doWhile` and `Eval.forEach` are its rules, and `Eval.det` says that the run is
  deterministic.
* `Prog.exec` is the same run as a function with a step bound, for concrete inputs.
-/

set_option autoImplicit false

/-- A program over the calls `Op` with the answers `Resp`. -/
inductive Prog (Op : Type) (Resp : Op → Type) : Type → Type 1
  | ret {α : Type} (a : α) : Prog Op Resp α
  | call {α : Type} (o : Op) (k : Resp o → Prog Op Resp α) : Prog Op Resp α
  | doWhile {σ α : Type} (body : σ → Prog Op Resp σ) (again : σ → Bool) (s : σ)
      (k : σ → Prog Op Resp α) : Prog Op Resp α

/-- A server: the answer to each call and the state after it. -/
abbrev Handler (Op : Type) (Resp : Op → Type) (W : Type) : Type :=
  (o : Op) → W → Resp o × W

namespace Prog

variable {Op : Type} {Resp : Op → Type} {α β γ σ : Type}

/-- Sequencing. A loop keeps its body and passes the rest into its continuation. -/
def bind {α β : Type} : Prog Op Resp α → (α → Prog Op Resp β) → Prog Op Resp β
  | .ret a, f => f a
  | .call o k, f => .call o fun r => bind (k r) f
  | .doWhile body again s k, f => .doWhile body again s fun x => bind (k x) f

instance : Monad (Prog Op Resp) where
  pure := .ret
  bind := bind

@[simp] theorem pure_def (a : α) : (pure a : Prog Op Resp α) = .ret a := rfl

@[simp] theorem ret_bind (a : α) (f : α → Prog Op Resp β) :
    (Prog.ret a : Prog Op Resp α) >>= f = f a := rfl

@[simp] theorem call_bind (o : Op) (k : Resp o → Prog Op Resp α) (f : α → Prog Op Resp β) :
    Prog.call o k >>= f = .call o fun r => k r >>= f := rfl

@[simp] theorem doWhile_bind (body : σ → Prog Op Resp σ) (again : σ → Bool) (s : σ)
    (k : σ → Prog Op Resp α) (f : α → Prog Op Resp β) :
    Prog.doWhile body again s k >>= f = .doWhile body again s fun x => k x >>= f := rfl

theorem bind_ret (p : Prog Op Resp α) : (p >>= fun a => .ret a) = p := by
  induction p with
  | ret a => rfl
  | call o k ih =>
    rw [call_bind]
    exact congrArg _ (funext fun r => ih r)
  | doWhile body again s k _ ih =>
    rw [doWhile_bind]
    exact congrArg _ (funext fun x => ih x)

theorem bind_bind (p : Prog Op Resp α) (f : α → Prog Op Resp β) (g : β → Prog Op Resp γ) :
    p >>= f >>= g = p >>= fun a => f a >>= g := by
  induction p with
  | ret a => rfl
  | call o k ih =>
    rw [call_bind, call_bind, call_bind]
    exact congrArg _ (funext fun r => ih r f)
  | doWhile body again s k _ ih =>
    rw [doWhile_bind, doWhile_bind, doWhile_bind]
    exact congrArg _ (funext fun x => ih x f)

instance : LawfulMonad (Prog Op Resp) :=
  LawfulMonad.mk' (Prog Op Resp)
    (fun p => bind_ret p)
    (fun _ _ => rfl)
    (fun p f g => bind_bind p f g)

/-- One unrolling of `do { body } while (again)` from the loop state `s`. -/
def unroll (body : σ → Prog Op Resp σ) (again : σ → Bool) (s : σ)
    (k : σ → Prog Op Resp α) : Prog Op Resp α :=
  body s >>= fun s' => if again s' then .doWhile body again s' k else k s'

theorem unroll_bind (body : σ → Prog Op Resp σ) (again : σ → Bool) (s : σ)
    (k : σ → Prog Op Resp α) (f : α → Prog Op Resp β) :
    unroll body again s k >>= f = unroll body again s fun x => k x >>= f := by
  unfold unroll
  rw [bind_bind]
  refine congrArg _ (funext fun s' => ?_)
  cases again s' <;> rfl

/-- The loop `do { body } while (again)` as a program of its own. -/
def loop (body : σ → Prog Op Resp σ) (again : σ → Bool) (s : σ) : Prog Op Resp σ :=
  .doWhile body again s .ret

/-- `for (x : xs) { body }`, with the variables the body assigns in `s`. -/
def forEach {X : Type} (xs : List X) (body : X → σ → Prog Op Resp σ) (s : σ) :
    Prog Op Resp σ :=
  match xs with
  | [] => .ret s
  | x :: xs => body x s >>= fun s' => forEach xs body s'

@[simp] theorem forEach_nil {X : Type} (body : X → σ → Prog Op Resp σ) (s : σ) :
    forEach [] body s = .ret s := rfl

@[simp] theorem forEach_cons {X : Type} (x : X) (xs : List X)
    (body : X → σ → Prog Op Resp σ) (s : σ) :
    forEach (x :: xs) body s = body x s >>= fun s' => forEach xs body s' := rfl

section Interp

variable {Op' : Type} {Resp' : Op' → Type}

/-- The program with each call `o` replaced by the program `f o`. -/
def interp (f : (o : Op) → Prog Op' Resp' (Resp o)) {α : Type} : Prog Op Resp α → Prog Op' Resp' α
  | .ret a => .ret a
  | .call o k => f o >>= fun r => interp f (k r)
  | .doWhile body again s k => .doWhile (fun s => interp f (body s)) again s fun s => interp f (k s)

theorem interp_bind (f : (o : Op) → Prog Op' Resp' (Resp o)) (p : Prog Op Resp α)
    (g : α → Prog Op Resp β) : (p >>= g).interp f = p.interp f >>= fun a => (g a).interp f := by
  induction p with
  | ret a => rfl
  | call o k ih =>
    rw [call_bind, interp, interp, bind_bind]
    exact congrArg _ (funext fun r => ih r g)
  | doWhile body again s k _ ih =>
    rw [doWhile_bind, interp, interp, doWhile_bind]
    exact congrArg _ (funext fun x => ih x g)

theorem interp_unroll (f : (o : Op) → Prog Op' Resp' (Resp o)) (body : σ → Prog Op Resp σ)
    (again : σ → Bool) (s : σ) (k : σ → Prog Op Resp α) :
    (unroll body again s k).interp f
      = unroll (fun s => (body s).interp f) again s fun s => (k s).interp f := by
  unfold unroll
  rw [interp_bind]
  refine congrArg _ (funext fun s' => ?_)
  cases again s' <;> rfl

end Interp

end Prog

/-! ### A program alone on the server -/

section Eval

variable {Op : Type} {Resp : Op → Type} {W : Type} (h : Handler Op Resp W)
variable {α β σ : Type}

/-- `Eval h p w a w'`: the program `p`, started at the server state `w` with no other
client, returns `a` and leaves the server in `w'`. -/
inductive Eval : Prog Op Resp α → W → α → W → Prop
  | ret (a : α) (w : W) : Eval (.ret a) w a w
  | call {o : Op} {k : Resp o → Prog Op Resp α} {w : W} {a : α} {w' : W}
      (next : Eval (k (h o w).1) (h o w).2 a w') : Eval (.call o k) w a w'
  | unroll {σ : Type} {body : σ → Prog Op Resp σ} {again : σ → Bool} {s : σ}
      {k : σ → Prog Op Resp α} {w : W} {a : α} {w' : W}
      (next : Eval (Prog.unroll body again s k) w a w') :
      Eval (.doWhile body again s k) w a w'

namespace Eval

variable {h}

theorem ret_iff {a b : α} {w w' : W} :
    Eval h (.ret a) w b w' ↔ b = a ∧ w' = w := by
  constructor
  · intro he
    cases he
    exact ⟨rfl, rfl⟩
  · rintro ⟨rfl, rfl⟩
    exact .ret _ _

theorem call_iff {o : Op} {k : Resp o → Prog Op Resp α} {a : α} {w w' : W} :
    Eval h (.call o k) w a w' ↔ Eval h (k (h o w).1) (h o w).2 a w' := by
  constructor
  · intro he
    cases he with
    | call next => exact next
  · exact .call

theorem doWhile_iff {body : σ → Prog Op Resp σ} {again : σ → Bool} {s : σ}
    {k : σ → Prog Op Resp α} {a : α} {w w' : W} :
    Eval h (.doWhile body again s k) w a w'
      ↔ Eval h (Prog.unroll body again s k) w a w' := by
  constructor
  · intro he
    cases he with
    | unroll next => exact next
  · exact .unroll

/-- A program alone on the server is deterministic. -/
theorem det {p : Prog Op Resp α} {w : W} {a b : α} {w₁ w₂ : W}
    (h₁ : Eval h p w a w₁) (h₂ : Eval h p w b w₂) : a = b ∧ w₁ = w₂ := by
  induction h₁ with
  | ret a w =>
    obtain ⟨rfl, rfl⟩ := ret_iff.mp h₂
    exact ⟨rfl, rfl⟩
  | call _ ih => exact ih (call_iff.mp h₂)
  | unroll _ ih => exact ih (doWhile_iff.mp h₂)

/-- What holds of some run holds of the one that is known. -/
theorem exists_iff {p : Prog Op Resp α} {w w₁ : W} {a : α} (hp : Eval h p w a w₁)
    {P : α → Prop} : (∃ b w₂, Eval h p w b w₂ ∧ P b) ↔ P a := by
  constructor
  · rintro ⟨b, w₂, he, hb⟩
    obtain ⟨rfl, -⟩ := he.det hp
    exact hb
  · exact fun ha => ⟨a, w₁, hp, ha⟩

/-- What every call keeps of the server a run keeps. -/
theorem frame {F : W → W → Prop} (hrefl : ∀ w, F w w)
    (htrans : ∀ w₁ w₂ w₃, F w₁ w₂ → F w₂ w₃ → F w₁ w₃) (hcall : ∀ o w, F w (h o w).2)
    {p : Prog Op Resp α} {w w' : W} {a : α} (he : Eval h p w a w') : F w w' := by
  induction he with
  | ret a w => exact hrefl w
  | call _ ih => exact htrans _ _ _ (hcall _ _) ih
  | unroll _ ih => exact ih

/-- Sequencing: run `p`, then the rest on its result. -/
theorem bind {p : Prog Op Resp α} {f : α → Prog Op Resp β} {w w₁ w₂ : W} {a : α} {b : β}
    (hp : Eval h p w a w₁) (hf : Eval h (f a) w₁ b w₂) : Eval h (p >>= f) w b w₂ := by
  induction hp with
  | ret a w => exact hf
  | call _ ih => exact .call (ih hf)
  | unroll _ ih =>
    have hrest := ih hf
    rw [Prog.unroll_bind] at hrest
    exact .unroll hrest

/-- Inversion of sequencing. The induction is on the derivation with the split of the
program generalised: a loop in front unrolls, and the unrolling is again a sequence. -/
theorem bind_inv {p : Prog Op Resp α} {f : α → Prog Op Resp β} {w w₂ : W} {b : β}
    (hpf : Eval h (p >>= f) w b w₂) :
    ∃ a w₁, Eval h p w a w₁ ∧ Eval h (f a) w₁ b w₂ := by
  -- The induction is on the evaluation, whose program has to be a variable.
  generalize hq : p >>= f = q at hpf
  induction hpf generalizing p with
  | ret b w =>
    cases p with
    | ret a =>
      refine ⟨a, w, .ret _ _, ?_⟩
      rw [Prog.ret_bind] at hq
      exact hq ▸ .ret _ _
    | call o k => cases hq
    | doWhile body again s k => cases hq
  | @call o k w b w' next ih =>
    cases p with
    | ret a =>
      refine ⟨a, w, .ret _ _, ?_⟩
      rw [Prog.ret_bind] at hq
      exact hq ▸ .call next
    | call o' k' =>
      rw [Prog.call_bind] at hq
      cases hq
      obtain ⟨a, w₁, hp, hf⟩ := ih rfl
      exact ⟨a, w₁, .call hp, hf⟩
    | doWhile body again s k => cases hq
  | @unroll σ body again s k w b w' next ih =>
    cases p with
    | ret a =>
      refine ⟨a, w, .ret _ _, ?_⟩
      rw [Prog.ret_bind] at hq
      exact hq ▸ .unroll next
    | call o' k' => cases hq
    | doWhile body' again' s' k' =>
      rw [Prog.doWhile_bind] at hq
      cases hq
      obtain ⟨a, w₁, hp, hf⟩ := ih (Prog.unroll_bind _ _ _ _ _)
      exact ⟨a, w₁, .unroll hp, hf⟩

theorem bind_iff {p : Prog Op Resp α} {f : α → Prog Op Resp β} {w w₂ : W} {b : β} :
    Eval h (p >>= f) w b w₂ ↔ ∃ a w₁, Eval h p w a w₁ ∧ Eval h (f a) w₁ b w₂ :=
  ⟨bind_inv, fun ⟨_, _, hp, hf⟩ => bind hp hf⟩

/-- A loop whose body ends it at the first pass. -/
theorem loop_once {body : σ → Prog Op Resp σ} {again : σ → Bool} {s s' : σ} {w w' : W}
    (hb : Eval h (body s) w s' w') (hs : again s' = false) :
    Eval h (Prog.loop body again s) w s' w' := by
  refine .unroll (hb.bind ?_)
  rw [hs]
  exact .ret _ _

/-- A loop whose body asks for another pass. -/
theorem loop_again {body : σ → Prog Op Resp σ} {again : σ → Bool} {s s' s'' : σ}
    {w w' w'' : W} (hb : Eval h (body s) w s' w') (hs : again s' = true)
    (hl : Eval h (Prog.loop body again s') w' s'' w'') :
    Eval h (Prog.loop body again s) w s'' w'' := by
  refine .unroll (hb.bind ?_)
  rw [hs]
  exact hl

/-- A loop that comes back to a set of states after every pass does not end. -/
theorem not_loop {body : σ → Prog Op Resp σ} {again : σ → Bool} (P : σ → W → Prop)
    (hP : ∀ s w s' w', P s w → Eval h (body s) w s' w' → again s' = true ∧ P s' w')
    {s : σ} {w : W} (hs : P s w) (b : σ) (w' : W) :
    ¬ Eval h (Prog.loop body again s) w b w' := by
  intro he
  -- Induction on the derivation, for every program that is this loop or its body's rest.
  have key : ∀ (p : Prog Op Resp σ) (v : W), Eval h p v b w' →
      ∀ (q : Prog Op Resp σ), p = (q >>= fun s' =>
        if again s' then .doWhile body again s' .ret else .ret s') →
      (∀ s' v', Eval h q v s' v' → again s' = true ∧ P s' v') → False := by
    clear he
    intro p v hpv
    induction hpv with
    | ret b v =>
      intro q hq hqP
      cases q with
      | ret a =>
        obtain ⟨ha, -⟩ := hqP a v (.ret _ _)
        rw [Prog.ret_bind, ha] at hq
        cases hq
      | call o k => cases hq
      | doWhile body again s k => cases hq
    | @call o k v b w' next ih =>
      intro q hq hqP
      cases q with
      | ret a =>
        obtain ⟨ha, -⟩ := hqP a v (.ret _ _)
        rw [Prog.ret_bind, ha] at hq
        cases hq
      | call o' k' =>
        rw [Prog.call_bind] at hq
        cases hq
        exact ih _ rfl fun s' v' he' => hqP s' v' (.call he')
      | doWhile body' again' s' k' => cases hq
    | @unroll τ body' again' s' k' v b w' next ih =>
      intro q hq hqP
      cases q with
      | ret a =>
        obtain ⟨ha, hPa⟩ := hqP a v (.ret _ _)
        rw [Prog.ret_bind, ha] at hq
        cases hq
        -- The loop starts its next pass from a state of `P`.
        exact ih (body a) rfl fun s' v' he' => hP a v s' v' hPa he'
      | call o' k' => cases hq
      | doWhile body'' again'' s'' k'' =>
        rw [Prog.doWhile_bind] at hq
        cases hq
        exact ih _ (Prog.unroll_bind _ _ _ _ _).symm fun s' v' he' => hqP s' v' (.unroll he')
  cases he with
  | unroll next => exact key _ _ next (body s) rfl fun s' v' he' => hP s w s' v' hs he'

/-- The loop over a list keeps an invariant that speaks of the elements still to come. -/
theorem forEach {X : Type} {body : X → σ → Prog Op Resp σ} (Inv : List X → σ → W → Prop)
    (hstep : ∀ x xs s w, Inv (x :: xs) s w → ∃ s' w', Eval h (body x s) w s' w' ∧ Inv xs s' w')
    {xs : List X} {s : σ} {w : W} (hinit : Inv xs s w) :
    ∃ s' w', Eval h (Prog.forEach xs body s) w s' w' ∧ Inv [] s' w' := by
  induction xs generalizing s w with
  | nil => exact ⟨s, w, .ret _ _, hinit⟩
  | cons x xs ih =>
    obtain ⟨s₁, w₁, he, hinv⟩ := hstep x xs s w hinit
    obtain ⟨s', w', he', hinv'⟩ := ih hinv
    exact ⟨s', w', he.bind he', hinv'⟩

/-- A loop over distinct keys whose body works on its own key. `get w k` is what the server
holds for the key `k`, `E k` is the effect of the body on it, and `F` is a frame: what every
pass keeps of the rest of the server. -/
theorem forEach_keys {K V : Type} {body : K → σ → Prog Op Resp σ} (get : W → K → V)
    (Ok : σ → Prop) (E : K → V → V → Prop) (F : W → W → Prop) (hrefl : ∀ w, F w w)
    (htrans : ∀ w₁ w₂ w₃, F w₁ w₂ → F w₂ w₃ → F w₁ w₃) {keys : List K} (hnodup : keys.Nodup)
    {s : σ} {w : W} (hs : Ok s)
    (hbody : ∀ k ∈ keys, ∀ s w', Ok s → F w w' → get w' k = get w k →
      ∃ s' w'', Eval h (body k s) w' s' w'' ∧ Ok s' ∧ F w' w'' ∧ E k (get w' k) (get w'' k) ∧
        ∀ k', k' ≠ k → get w'' k' = get w' k') :
    ∃ s' w', Eval h (Prog.forEach keys body s) w s' w' ∧ Ok s' ∧ F w w' ∧
      (∀ k ∈ keys, E k (get w k) (get w' k)) ∧ ∀ k, k ∉ keys → get w' k = get w k := by
  -- The keys still to come are as they were, and the others have had their pass.
  let Inv : List K → σ → W → Prop := fun todo s' w' =>
    Ok s' ∧ F w w' ∧ todo.Nodup ∧ (∀ k ∈ todo, k ∈ keys ∧ get w' k = get w k) ∧
      (∀ k ∈ keys, k ∉ todo → E k (get w k) (get w' k)) ∧ ∀ k, k ∉ keys → get w' k = get w k
  have hstep : ∀ k todo s₁ w₁, Inv (k :: todo) s₁ w₁ →
      ∃ s₂ w₂, Eval h (body k s₁) w₁ s₂ w₂ ∧ Inv todo s₂ w₂ := by
    rintro k todo s₁ w₁ ⟨hok, hf, hnd, htodo, hdone, hother⟩
    obtain ⟨hk, hsame⟩ := htodo k (by simp)
    obtain ⟨s₂, w₂, he, hok₂, hf₂, hE, hne⟩ := hbody k hk s₁ w₁ hok hf hsame
    obtain ⟨hnot, hnd'⟩ := List.nodup_cons.mp hnd
    refine ⟨s₂, w₂, he, hok₂, htrans _ _ _ hf hf₂, hnd', ?_, ?_, ?_⟩
    · intro k' hk'
      have hkk : k' ≠ k := fun heq => hnot (heq ▸ hk')
      obtain ⟨hmem, hsame'⟩ := htodo k' (List.mem_cons_of_mem _ hk')
      exact ⟨hmem, (hne k' hkk).trans hsame'⟩
    · intro k' hk' hnot'
      by_cases hkk : k' = k
      · subst hkk
        exact hsame ▸ hE
      · rw [hne k' hkk]
        refine hdone k' hk' fun hmem => ?_
        rcases List.mem_cons.mp hmem with heq | hmem
        · exact hkk heq
        · exact hnot' hmem
    · intro k' hk'
      have hkk : k' ≠ k := fun heq => hk' (heq ▸ hk)
      exact (hne k' hkk).trans (hother k' hk')
  have hinit : Inv keys s w :=
    ⟨hs, hrefl w, hnodup, fun k hk => ⟨hk, rfl⟩, fun k hk hnot => absurd hk hnot,
      fun _ _ => rfl⟩
  obtain ⟨s', w', he, hok, hframe, -, -, hdone, hother⟩ := Eval.forEach Inv hstep hinit
  exact ⟨s', w', he, hok, hframe, fun k hk => hdone k hk (by simp), hother⟩

/-- In a loop over distinct keys that has ended each key had its pass, which found the key as it was
before the loop and left it as it is after it. `get w k` is what the server holds for the key `k`,
and `F` is what every pass keeps of the rest of the server. -/
theorem forEach_pass {K V : Type} {body : K → σ → Prog Op Resp σ} (get : W → K → V)
    (Ok : σ → Prop) (F : W → W → Prop) (hrefl : ∀ w, F w w)
    (htrans : ∀ w₁ w₂ w₃, F w₁ w₂ → F w₂ w₃ → F w₁ w₃)
    (hbody : ∀ k s w s' w', Ok s → Eval h (body k s) w s' w' →
      Ok s' ∧ F w w' ∧ ∀ k', k' ≠ k → get w' k' = get w k')
    {keys : List K} (hnodup : keys.Nodup) {s s' : σ} {w w' : W} (hs : Ok s)
    (he : Eval h (Prog.forEach keys body s) w s' w') :
    Ok s' ∧ F w w' ∧ (∀ k, k ∉ keys → get w' k = get w k) ∧
      ∀ k ∈ keys, ∃ s₁ v s₂ v', Ok s₁ ∧ Eval h (body k s₁) v s₂ v' ∧ F w v ∧ F v' w' ∧
        get v k = get w k ∧ get w' k = get v' k := by
  induction keys generalizing s w with
  | nil =>
    obtain ⟨rfl, rfl⟩ := ret_iff.mp he
    exact ⟨hs, hrefl _, fun _ _ => rfl, by simp⟩
  | cons x xs ih =>
    obtain ⟨s₁, w₁, hx, hxs⟩ := bind_inv he
    obtain ⟨hnot, hnd⟩ := List.nodup_cons.mp hnodup
    obtain ⟨hs₁, hF₁, hother⟩ := hbody x s w s₁ w₁ hs hx
    obtain ⟨hs', hF₂, hkept, hpass⟩ := ih hnd hs₁ hxs
    refine ⟨hs', htrans _ _ _ hF₁ hF₂, ?_, ?_⟩
    · intro k hk
      rw [List.mem_cons, not_or] at hk
      exact (hkept k hk.2).trans (hother k hk.1)
    · intro k hk
      rcases List.mem_cons.mp hk with rfl | hk
      · exact ⟨s, w, s₁, w₁, hs, hx, hrefl w, hF₂, rfl, hkept k hnot⟩
      · -- A later key is left alone by the pass of `x`.
        obtain ⟨s₂, v, s₃, v', hs₂, he', hFv, hFv', hv, hv'⟩ := hpass k hk
        have hne : k ≠ x := fun heq => hnot (heq ▸ hk)
        exact ⟨s₂, v, s₃, v', hs₂, he', htrans _ _ _ hF₁ hFv, hFv', hv.trans (hother k hne), hv'⟩

/-- A loop over a list does not end when its body does not end at some element, and the
bodies before it keep what makes it so. -/
theorem not_forEach {X : Type} {body : X → σ → Prog Op Resp σ} (P : W → Prop) (x : X)
    (hkeep : ∀ y s w s' w', P w → Eval h (body y s) w s' w' → P w')
    (hx : ∀ s w s' w', P w → ¬ Eval h (body x s) w s' w') {xs : List X} (hmem : x ∈ xs)
    {s s' : σ} {w w' : W} (hw : P w) : ¬ Eval h (Prog.forEach xs body s) w s' w' := by
  induction xs generalizing s w with
  | nil => cases hmem
  | cons y ys ih =>
    intro he
    obtain ⟨s₁, w₁, hy, hys⟩ := bind_inv he
    rcases List.mem_cons.mp hmem with rfl | hmem
    · exact hx _ _ _ _ hw hy
    · exact ih hmem (hkeep _ _ _ _ _ hw hy) hys

end Eval

end Eval

/-! ### Running a program on a concrete input -/

namespace Prog

variable {Op : Type} {Resp : Op → Type} {W α : Type}

/-- The run of `p` alone, for at most `n` calls and unrollings. -/
def exec (h : Handler Op Resp W) : Nat → Prog Op Resp α → W → Option (α × W)
  | _, .ret a, w => some (a, w)
  | 0, _, _ => none
  | n + 1, .call o k, w => exec h n (k (h o w).1) (h o w).2
  | n + 1, .doWhile body again s k, w => exec h n (unroll body again s k) w

/-- A run that ends within the bound is an `Eval`. -/
theorem eval_of_exec {h : Handler Op Resp W} {n : Nat} {p : Prog Op Resp α} {w : W} {a : α}
    {w' : W} (he : exec h n p w = some (a, w')) : Eval h p w a w' := by
  induction n generalizing p w with
  | zero =>
    cases p with
    | ret b =>
      simp only [exec, Option.some.injEq, Prod.mk.injEq] at he
      obtain ⟨rfl, rfl⟩ := he
      exact .ret _ _
    | call o k => cases he
    | doWhile body again s k => cases he
  | succ n ih =>
    cases p with
    | ret b =>
      simp only [exec, Option.some.injEq, Prod.mk.injEq] at he
      obtain ⟨rfl, rfl⟩ := he
      exact .ret _ _
    | call o k => exact .call (ih he)
    | doWhile body again s k => exact .unroll (ih he)

end Prog
