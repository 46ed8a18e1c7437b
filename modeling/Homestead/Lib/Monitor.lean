import Homestead.Lib.Traces

/-!
# `Homestead.Lib.Monitor`: what a program may do next

A `Monitor` reads the calls of a run with their answers, keeps a state, and says at each state
which calls are permitted. `Keeps M Q s p` says that `p`, started at the monitor state `s`, makes
only permitted calls whatever it is answered, and that a result it returns satisfies `Q` with
the state that it leaves. It is partial correctness: a loop that never ends keeps every `Q`.

* `Keeps.ret`, `Keeps.call`, `Keeps.bind`, `Keeps.loop` and `Keeps.forEach` follow the shape of
  the program, and `Keeps.of_only` takes over what `Only` says.
* `Keeps.interp` is the rule for a program inside another one (`Prog.interp`).
* `Keeps.begins` and `Keeps.ran` are the facts about runs, unfinished and finished.
* `Keeps.safe` is the fact about a client of a pool: a monitor is a contract (`Monitor.contract`).
  `Keeps.sound` puts such clients together.
-/

set_option autoImplicit false

section Monitor

variable {Op : Type} {Resp : Op → Type} {S : Type} {α β σ : Type}

/-- An observer of the calls. -/
structure Monitor (Op : Type) (Resp : Op → Type) (S : Type) where
  permits : S → Op → Prop
  step : S → Event Op Resp → S

namespace Monitor

variable (M : Monitor Op Resp S)

/-- The state after the calls of `hs`. -/
def after (s : S) (hs : List (Event Op Resp)) : S := hs.foldl M.step s

theorem after_append (s : S) (h₁ h₂ : List (Event Op Resp)) :
    M.after s (h₁ ++ h₂) = M.after (M.after s h₁) h₂ :=
  List.foldl_append

/-- What every call keeps holds after all of them. -/
theorem after_keeps {P : S → Prop} (hstep : ∀ s e, P s → P (M.step s e)) {s : S} (hs : P s)
    (h : List (Event Op Resp)) : P (M.after s h) := by
  induction h generalizing s with
  | nil => exact hs
  | cons e h ih => exact ih (hstep s e hs)

/-- The monitor as a contract that counts on nothing. -/
def contract {W : Type} (s₀ : S) : Contract Op Resp W where
  rely _ _ := True
  assume _ _ _ := True
  guar hs _ o := M.permits (M.after s₀ hs) o
  rely_refl _ := trivial
  rely_trans _ _ := trivial

/-- `p` makes only permitted calls in its first `n` steps, and a result it returns within them
satisfies `Q`. -/
def KeepsN (Q : α → S → Prop) : Nat → S → Prog Op Resp α → Prop
  | 0, _, _ => True
  | _ + 1, s, .ret a => Q a s
  | n + 1, s, .call o k => ∀ r, M.permits s o ∧ KeepsN Q n (M.step s ⟨o, r⟩) (k r)
  | n + 1, s, .doWhile body again x k => KeepsN Q n s (Prog.unroll body again x k)

/-- `p`, started at `s`, makes only permitted calls, and a result it returns satisfies `Q`. -/
def Keeps (Q : α → S → Prop) (s : S) (p : Prog Op Resp α) : Prop := ∀ n, M.KeepsN Q n s p

variable {M} {Q : α → S → Prop} {Q' : β → S → Prop}

theorem KeepsN.bind {n : Nat} {s : S} {p : Prog Op Resp α} {f : α → Prog Op Resp β}
    (hp : M.KeepsN Q n s p) (hf : ∀ a s', Q a s' → ∀ m ≤ n, M.KeepsN Q' m s' (f a)) :
    M.KeepsN Q' n s (p >>= f) := by
  induction n generalizing p s with
  | zero => trivial
  | succ n ih =>
    cases p with
    | ret a => exact hf a s hp (n + 1) (Nat.le_refl _)
    | call o k =>
      intro r
      obtain ⟨hpermits, hk⟩ := hp r
      exact ⟨hpermits, ih hk fun a s' hq m hm => hf a s' hq m (by omega)⟩
    | doWhile body again x k =>
      have hrest : M.KeepsN Q' n s (Prog.unroll body again x k >>= f) :=
        ih hp fun a s' hq m hm => hf a s' hq m (by omega)
      rw [Prog.unroll_bind] at hrest
      exact hrest

theorem KeepsN.mono {n m : Nat} (hm : m ≤ n) {s : S} {p : Prog Op Resp α}
    (hp : M.KeepsN Q n s p) : M.KeepsN Q m s p := by
  induction m generalizing n p s with
  | zero => trivial
  | succ m ih =>
    obtain ⟨n, rfl⟩ : ∃ k, n = k + 1 := ⟨n - 1, by omega⟩
    cases p with
    | ret a => exact hp
    | call o k => exact fun r => ⟨(hp r).1, ih (by omega) (hp r).2⟩
    | doWhile body again x k => exact ih (n := n) (by omega) hp

namespace Keeps

theorem ret {a : α} {s : S} (hq : Q a s) : M.Keeps Q s (.ret a) := by
  intro n
  cases n with
  | zero => trivial
  | succ n => exact hq

theorem call {o : Op} {k : Resp o → Prog Op Resp α} {s : S}
    (hk : ∀ r, M.permits s o ∧ M.Keeps Q (M.step s ⟨o, r⟩) (k r)) : M.Keeps Q s (.call o k) := by
  intro n
  cases n with
  | zero => trivial
  | succ n => exact fun r => ⟨(hk r).1, (hk r).2 n⟩

/-- A call that takes the monitor to `s'` whatever it is answered. -/
theorem call_to {o : Op} {k : Resp o → Prog Op Resp α} {s s' : S} (hpermits : M.permits s o)
    (hstep : ∀ r, M.step s ⟨o, r⟩ = s') (hk : ∀ r, M.Keeps Q s' (k r)) : M.Keeps Q s (.call o k) := by
  refine .call fun r => ⟨hpermits, ?_⟩
  rw [hstep r]
  exact hk r

theorem bind {s : S} {p : Prog Op Resp α} {f : α → Prog Op Resp β} (hp : M.Keeps Q s p)
    (hf : ∀ a s', Q a s' → M.Keeps Q' s' (f a)) : M.Keeps Q' s (p >>= f) :=
  fun n => (hp n).bind fun a s' hq m _ => hf a s' hq m

theorem weaken {Q₁ Q₂ : α → S → Prop} {s : S} {p : Prog Op Resp α} (hp : M.Keeps Q₁ s p)
    (hq : ∀ a s', Q₁ a s' → Q₂ a s') : M.Keeps Q₂ s p := by
  have hb : M.Keeps Q₂ s (p >>= fun a => .ret a) := hp.bind fun a s' h => .ret (hq a s' h)
  rwa [Prog.bind_ret] at hb

/-- What is known of every finished run may be added to the postcondition. -/
theorem and_ran {s : S} {p : Prog Op Resp α} (hp : M.Keeps Q s p) {R : α → Prop}
    (hR : ∀ hs a, Ran p hs a → R a) : M.Keeps (fun a s' => Q a s' ∧ R a) s p := by
  intro n
  induction n generalizing s p with
  | zero => trivial
  | succ n ih =>
    cases p with
    | ret a => exact ⟨hp 1, hR _ _ (.ret a)⟩
    | call o k =>
      exact fun r => ⟨(hp 1 r).1, ih (fun m => (hp (m + 1) r).2) fun hs a h => hR _ _ (.call h)⟩
    | doWhile body again x k => exact ih (fun m => hp (m + 1)) fun hs a h => hR _ _ (.unroll h)

/-- The loop rule: `Inv` holds at the start of every pass. -/
theorem loop {body : σ → Prog Op Resp σ} {again : σ → Bool} {Q : σ → S → Prop} (Inv : σ → S → Prop)
    (hbody : ∀ x s, Inv x s → M.Keeps (fun x' s' => if again x' then Inv x' s' else Q x' s') s (body x))
    {x : σ} {s : S} (hinit : Inv x s) : M.Keeps Q s (Prog.loop body again x) := by
  -- Strong induction on the number of steps: a further pass has fewer of them.
  suffices key : ∀ n x s, Inv x s → M.KeepsN Q n s (.doWhile body again x .ret) from
    fun n => key n x s hinit
  intro n
  induction n using Nat.strongRecOn with
  | ind n ih =>
    intro x s hi
    cases n with
    | zero => trivial
    | succ n =>
      refine (hbody x s hi n).bind fun x' s' hq m hm => ?_
      cases hagain : again x' with
      | true =>
        rw [hagain] at hq
        exact ih m (by omega) x' s' hq
      | false =>
        have hq' : Q x' s' := by rwa [hagain] at hq
        exact Keeps.ret hq' m

/-- The rule for a loop over a list whose body keeps `Inv` at every element of the list. -/
theorem forEach_mem {X : Type} {body : X → σ → Prog Op Resp σ} (Inv : σ → S → Prop) {xs : List X}
    (hstep : ∀ x ∈ xs, ∀ y s, Inv y s → M.Keeps Inv s (body x y)) {y : σ} {s : S}
    (hinit : Inv y s) : M.Keeps Inv s (Prog.forEach xs body y) := by
  induction xs generalizing y s with
  | nil => exact .ret hinit
  | cons x xs ih =>
    exact (hstep x List.mem_cons_self y s hinit).bind fun y' s' hi =>
      ih (fun x hx => hstep x (List.mem_cons_of_mem _ hx)) hi

theorem forEach {X : Type} {body : X → σ → Prog Op Resp σ} (Inv : σ → S → Prop)
    (hstep : ∀ x y s, Inv y s → M.Keeps Inv s (body x y)) {xs : List X} {y : σ} {s : S}
    (hinit : Inv y s) : M.Keeps Inv s (Prog.forEach xs body y) :=
  forEach_mem Inv (fun x _ => hstep x) hinit

/-- A program all of whose calls are permitted where `I` holds, and keep it. -/
theorem of_only_inv {C : Op → Prop} {p : Prog Op Resp α} (hp : Only C p) {I : S → Prop}
    (hC : ∀ s o, C o → I s → M.permits s o ∧ ∀ r, I (M.step s ⟨o, r⟩)) {s : S} (hs : I s) :
    M.Keeps (fun _ s' => I s') s p := by
  intro n
  induction n generalizing p s with
  | zero => trivial
  | succ n ih =>
    cases p with
    | ret a => exact hs
    | call o k =>
      intro r
      obtain ⟨hpermits, hstep⟩ := hC s o (hp [⟨o, r⟩] (.call (.nil _)) ⟨o, r⟩ (by simp)) hs
      exact ⟨hpermits, ih (fun hs h e he => hp _ (.call h) e (List.mem_cons_of_mem _ he)) (hstep r)⟩
    | doWhile body again x k => exact ih (fun hs h => hp hs (.unroll h)) hs

/-- A program all of whose calls are permitted and leave the state as it is. -/
theorem of_only {C : Op → Prop} {p : Prog Op Resp α} (hp : Only C p) {s : S}
    (hC : ∀ o, C o → M.permits s o ∧ ∀ r, M.step s ⟨o, r⟩ = s) : M.Keeps (fun _ s' => s' = s) s p := by
  refine of_only_inv hp (I := fun s' => s' = s) ?_ rfl
  rintro s' o ho rfl
  exact hC o ho

/-- A program inside another one. `g` takes the state of the inner monitor to the outer one, and
the program `f o` does there what the call `o` does inside. -/
theorem interp {Op' : Type} {Resp' : Op' → Type} {S' : Type} {M' : Monitor Op' Resp' S'}
    {f : (o : Op') → Prog Op Resp (Resp' o)} (g : S' → S)
    (hf : ∀ s o, M'.permits s o → M.Keeps (fun r s' => s' = g (M'.step s ⟨o, r⟩)) (g s) (f o))
    (hne : ∀ o, Nonempty (Resp' o)) {R : α → S' → Prop} {s : S'} {p : Prog Op' Resp' α}
    (hp : M'.Keeps R s p) : M.Keeps (fun a s' => ∃ s'', s' = g s'' ∧ R a s'') (g s) (p.interp f) := by
  intro n
  induction n generalizing p s with
  | zero => trivial
  | succ n ih =>
    -- A call may be replaced by a program that makes none, so `p` goes down as well.
    induction p generalizing s with
    | ret a => exact ⟨s, rfl, hp 1⟩
    | call o k ihk =>
      have hpermits : M'.permits s o := (hp 1 (hne o).some).1
      have hk : ∀ r, M'.Keeps R (M'.step s ⟨o, r⟩) (k r) := fun r m => (hp (m + 1) r).2
      refine (hf s o hpermits (n + 1)).bind fun r s' hs' m hm => ?_
      rw [hs']
      exact (ihk r (fun hp => ih hp) (hk r)).mono hm
    | doWhile body again x k _ _ =>
      have hunroll : M'.Keeps R s (Prog.unroll body again x k) := fun m => hp (m + 1)
      have hrest := ih hunroll
      rw [Prog.interp_unroll] at hrest
      exact hrest

/-- Every call of an unfinished run is permitted at the state that it is made at. -/
theorem begins {s : S} {p : Prog Op Resp α} (hp : M.Keeps Q s p) {hs : List (Event Op Resp)}
    (h : Begins p hs) {pre post : List (Event Op Resp)} {e : Event Op Resp}
    (hsplit : hs = pre ++ e :: post) : M.permits (M.after s pre) e.1 := by
  induction h generalizing s pre with
  | nil p =>
    cases pre <;> cases hsplit
  | @call o k r hs next ih =>
    cases pre with
    | nil =>
      obtain ⟨rfl, -⟩ := List.cons.inj hsplit
      exact (hp 1 r).1
    | cons e' pre =>
      obtain ⟨rfl, hsplit'⟩ := List.cons.inj hsplit
      exact ih (fun n => (hp (n + 1) r).2) hsplit'
  | unroll _ ih => exact ih (fun n => hp (n + 1)) hsplit

/-- Among other clients of a server, who may do anything. -/
theorem safe {W : Type} (h : Handler Op Resp W) {s₀ : S} {p : Prog Op Resp α}
    {hs : List (Event Op Resp)} (hp : M.Keeps Q (M.after s₀ hs) p) (w : W) :
    Safe h (M.contract s₀) (fun a hs' _ => Q a (M.after s₀ hs')) p hs w := by
  intro n
  induction n generalizing p hs w with
  | zero => trivial
  | succ n ih =>
    cases p with
    | ret a => exact fun w' _ => hp 1
    | call o k =>
      refine fun w' _ _ => ⟨(hp 1 (h o w').1).1, ih (fun m => ?_) _⟩
      rw [after_append]
      exact (hp (m + 1) (h o w').1).2
    | doWhile body again x k => exact ih (fun m => hp (m + 1)) w

/-- Clients that share a server, each with a monitor of its own. `J` holds of every state when a
permitted call keeps it. -/
theorem sound {ι W : Type} [DecidableEq ι] {h : Handler Op Resp W} {M : ι → Monitor Op Resp S}
    {s₀ : S} {Q : ι → α → S → Prop} {J : W → List (ι × Event Op Resp) → Prop}
    {prog : ι → Prog Op Resp α} (hprog : ∀ i, (M i).Keeps (Q i) s₀ (prog i)) {w : W}
    (hinit : J w [])
    (hstep : ∀ i w tr o, J w tr → (M i).permits ((M i).after s₀ (Pool.histOf i tr)) o →
      J (h o w).2 (tr ++ [(i, ⟨o, (h o w).1⟩)])) (is : List ι) :
    Pool.Sound h (fun i => (M i).contract s₀) (fun i a hs _ => Q i a ((M i).after s₀ hs)) J
      (Pool.run h is (.start w prog)) := by
  have hstart : Pool.Sound h (fun i => (M i).contract s₀)
      (fun i a hs _ => Q i a ((M i).after s₀ hs)) J (.start w prog) :=
    ⟨fun i => (hprog i).safe h w, hinit⟩
  exact hstart.run (fun _ _ _ _ _ _ _ _ => trivial)
    (fun i w tr o hJ hpermits => hstep i w tr o hJ hpermits) is (Pool.meets_of_forall h (fun _ _ _ _ => trivial) is _)

/-- A finished run ends with the postcondition. -/
theorem ran {s : S} {p : Prog Op Resp α} (hp : M.Keeps Q s p) {hs : List (Event Op Resp)} {a : α}
    (h : Ran p hs a) : Q a (M.after s hs) := by
  induction h generalizing s with
  | ret a => exact hp 1
  | @call o k r hs a next ih => exact ih fun n => (hp (n + 1) r).2
  | unroll _ ih => exact ih fun n => hp (n + 1)

end Keeps

end Monitor

end Monitor
