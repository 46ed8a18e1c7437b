import Homestead.Lib.RelyGuarantee

/-!
# `Homestead.Lib.Traces`: the runs of a program under any answers

Here the server may answer anything. `Ran p hs a` says that the program `p` can make the calls
of `hs`, get the answers in it, and return `a`. `Begins p hs` says that `hs` is the beginning of
a run, finished or not. A property of every sequence of answers is a property of every `hs`.

* `Ran.bind_iff`, `Ran.forEach_cons_iff` and `Ran.loop_induct` take a run apart along the shape
  of the program, and `Begins.bind_inv` does so for an unfinished run.
* `Only C p` says that every call of every run of `p` is in `C`. Its rules follow the shape of
  the program.
* `Loopless p` says that `p` has no loop, so that it returns whatever it is answered
  (`Loopless.eval`).
* `Served h w hs w'` says that the answers of `hs` are those of a server. `Ran.eval` and
  `Eval.served` go from a run to an evaluation and back.
-/

set_option autoImplicit false

section Traces

variable {Op : Type} {Resp : Op → Type} {α β σ : Type}

/-- The program makes the calls of `hs`, in order and with these answers, and returns `a`. -/
inductive Ran {α : Type} : Prog Op Resp α → List (Event Op Resp) → α → Prop
  | ret (a : α) : Ran (.ret a) [] a
  | call {o : Op} {k : Resp o → Prog Op Resp α} {r : Resp o} {hs : List (Event Op Resp)} {a : α}
      (next : Ran (k r) hs a) : Ran (.call o k) (⟨o, r⟩ :: hs) a
  | unroll {σ : Type} {body : σ → Prog Op Resp σ} {again : σ → Bool} {s : σ}
      {k : σ → Prog Op Resp α} {hs : List (Event Op Resp)} {a : α}
      (next : Ran (Prog.unroll body again s k) hs a) : Ran (.doWhile body again s k) hs a

/-- The program makes the calls of `hs` and gets these answers, and may go on after that. -/
inductive Begins {α : Type} : Prog Op Resp α → List (Event Op Resp) → Prop
  | nil (p : Prog Op Resp α) : Begins p []
  | call {o : Op} {k : Resp o → Prog Op Resp α} {r : Resp o} {hs : List (Event Op Resp)}
      (next : Begins (k r) hs) : Begins (.call o k) (⟨o, r⟩ :: hs)
  | unroll {σ : Type} {body : σ → Prog Op Resp σ} {again : σ → Bool} {s : σ}
      {k : σ → Prog Op Resp α} {hs : List (Event Op Resp)}
      (next : Begins (Prog.unroll body again s k) hs) : Begins (.doWhile body again s k) hs

namespace Ran

theorem ret_iff {a b : α} {hs : List (Event Op Resp)} :
    Ran (.ret a : Prog Op Resp α) hs b ↔ hs = [] ∧ b = a := by
  constructor
  · intro h
    cases h
    exact ⟨rfl, rfl⟩
  · rintro ⟨rfl, rfl⟩
    exact .ret _

theorem call_iff {o : Op} {k : Resp o → Prog Op Resp α} {a : α} {hs : List (Event Op Resp)} :
    Ran (.call o k) hs a ↔ ∃ r hs', hs = ⟨o, r⟩ :: hs' ∧ Ran (k r) hs' a := by
  constructor
  · intro h
    cases h with
    | call next => exact ⟨_, _, rfl, next⟩
  · rintro ⟨r, hs', rfl, h⟩
    exact .call h

/-- A call with the rest of the program after it. -/
theorem call_bind_iff {o : Op} {f : Resp o → Prog Op Resp α} {a : α} {hs : List (Event Op Resp)} :
    Ran (.call o .ret >>= f) hs a ↔ ∃ r hs', hs = ⟨o, r⟩ :: hs' ∧ Ran (f r) hs' a :=
  call_iff

theorem doWhile_iff {body : σ → Prog Op Resp σ} {again : σ → Bool} {s : σ}
    {k : σ → Prog Op Resp α} {a : α} {hs : List (Event Op Resp)} :
    Ran (.doWhile body again s k) hs a ↔ Ran (Prog.unroll body again s k) hs a := by
  constructor
  · intro h
    cases h with
    | unroll next => exact next
  · exact .unroll

/-- Sequencing: the calls of `p`, then those of the rest. -/
theorem bind {p : Prog Op Resp α} {f : α → Prog Op Resp β} {hs hs' : List (Event Op Resp)} {a : α}
    {b : β} (hp : Ran p hs a) (hf : Ran (f a) hs' b) : Ran (p >>= f) (hs ++ hs') b := by
  induction hp with
  | ret a => exact hf
  | call _ ih => exact .call (ih hf)
  | unroll _ ih =>
    have hrest := ih hf
    rw [Prog.unroll_bind] at hrest
    exact .unroll hrest

/-- Inversion of sequencing. The induction is on the run, with the split of the program
generalised: a loop in front unrolls, and the unrolling is again a sequence. -/
theorem bind_inv {p : Prog Op Resp α} {f : α → Prog Op Resp β} {hs : List (Event Op Resp)} {b : β}
    (h : Ran (p >>= f) hs b) : ∃ a h₁ h₂, hs = h₁ ++ h₂ ∧ Ran p h₁ a ∧ Ran (f a) h₂ b := by
  generalize hq : p >>= f = q at h
  induction h generalizing p with
  | ret b =>
    cases p with
    | ret a =>
      rw [Prog.ret_bind] at hq
      exact ⟨a, [], [], rfl, .ret _, hq ▸ .ret _⟩
    | call o k => cases hq
    | doWhile body again s k => cases hq
  | @call o k r hs b next ih =>
    cases p with
    | ret a =>
      rw [Prog.ret_bind] at hq
      exact ⟨a, [], _, rfl, .ret _, hq ▸ .call next⟩
    | call o' k' =>
      rw [Prog.call_bind] at hq
      cases hq
      obtain ⟨a, h₁, h₂, rfl, hp, hf⟩ := ih rfl
      exact ⟨a, _, h₂, rfl, .call hp, hf⟩
    | doWhile body again s k => cases hq
  | @unroll σ body again s k hs b next ih =>
    cases p with
    | ret a =>
      rw [Prog.ret_bind] at hq
      exact ⟨a, [], _, rfl, .ret _, hq ▸ .unroll next⟩
    | call o' k' => cases hq
    | doWhile body' again' s' k' =>
      rw [Prog.doWhile_bind] at hq
      cases hq
      obtain ⟨a, h₁, h₂, rfl, hp, hf⟩ := ih (Prog.unroll_bind _ _ _ _ _)
      exact ⟨a, h₁, h₂, rfl, .unroll hp, hf⟩

theorem bind_iff {p : Prog Op Resp α} {f : α → Prog Op Resp β} {hs : List (Event Op Resp)} {b : β} :
    Ran (p >>= f) hs b ↔ ∃ a h₁ h₂, hs = h₁ ++ h₂ ∧ Ran p h₁ a ∧ Ran (f a) h₂ b := by
  constructor
  · exact bind_inv
  · rintro ⟨a, h₁, h₂, rfl, hp, hf⟩
    exact bind hp hf

theorem forEach_cons_iff {X : Type} {x : X} {xs : List X} {body : X → σ → Prog Op Resp σ} {s b : σ}
    {hs : List (Event Op Resp)} : Ran (Prog.forEach (x :: xs) body s) hs b ↔
      ∃ s' h₁ h₂, hs = h₁ ++ h₂ ∧ Ran (body x s) h₁ s' ∧ Ran (Prog.forEach xs body s') h₂ b :=
  bind_iff

/-- A run of a loop is a last pass, or a pass and then a run of the loop. -/
theorem loop_inv {body : σ → Prog Op Resp σ} {again : σ → Bool} {s b : σ}
    {hs : List (Event Op Resp)} (h : Ran (Prog.loop body again s) hs b) :
    (Ran (body s) hs b ∧ again b = false) ∨
      ∃ s' h₁ h₂, hs = h₁ ++ h₂ ∧ Ran (body s) h₁ s' ∧ again s' = true ∧
        Ran (Prog.loop body again s') h₂ b := by
  obtain ⟨s', h₁, h₂, rfl, hbody, hrest⟩ := bind_inv (doWhile_iff.mp h)
  cases hagain : again s' with
  | true =>
    rw [hagain] at hrest
    exact .inr ⟨s', h₁, h₂, rfl, hbody, hagain, hrest⟩
  | false =>
    rw [hagain] at hrest
    obtain ⟨rfl, rfl⟩ := ret_iff.mp hrest
    rw [List.append_nil]
    exact .inl ⟨hbody, hagain⟩

/-- The number of unrollings and calls of a run is finite, so a run of a loop has finitely many
passes, and a property of runs of the loop goes by induction on them. -/
theorem loop_induct {body : σ → Prog Op Resp σ} {again : σ → Bool}
    (P : σ → List (Event Op Resp) → σ → Prop)
    (hlast : ∀ s hs b, Ran (body s) hs b → again b = false → P s hs b)
    (hstep : ∀ s h₁ s' h₂ b, Ran (body s) h₁ s' → again s' = true → P s' h₂ b → P s (h₁ ++ h₂) b)
    {s b : σ} {hs : List (Event Op Resp)} (h : Ran (Prog.loop body again s) hs b) : P s hs b := by
  -- Induction on the run, for every program that is a pass and what follows it.
  have key : ∀ (p : Prog Op Resp σ) (hs : List (Event Op Resp)) (b : σ), Ran p hs b →
      ∀ (q : Prog Op Resp σ) (s : σ) (h₀ : List (Event Op Resp)), p = (q >>= fun s' =>
        if again s' then .doWhile body again s' .ret else .ret s') →
      (∀ h₁ s', Ran q h₁ s' → Ran (body s) (h₀ ++ h₁) s') → P s (h₀ ++ hs) b := by
    intro p hs b hrun
    induction hrun with
    | ret b =>
      intro q s h₀ hq hbody
      cases q with
      | ret a =>
        have hs' := hbody [] a (.ret _)
        rw [Prog.ret_bind] at hq
        cases hagain : again a with
        | true =>
          rw [hagain] at hq
          cases hq
        | false =>
          rw [hagain] at hq
          cases hq
          exact hlast _ _ _ hs' hagain
      | call o k => cases hq
      | doWhile body again s k => cases hq
    | @call o k r hs b next ih =>
      intro q s h₀ hq hbody
      cases q with
      | ret a =>
        rw [Prog.ret_bind] at hq
        cases hagain : again a <;> rw [hagain] at hq <;> cases hq
      | call o' k' =>
        rw [Prog.call_bind] at hq
        cases hq
        have hP := ih (k' r) s (h₀ ++ [⟨o, r⟩]) rfl fun h₁ s' hr => by
          rw [List.append_assoc]
          exact hbody _ s' (.call hr)
        rwa [List.append_assoc] at hP
      | doWhile body' again' s' k' => cases hq
    | @unroll τ body' again' s' k' hs b next ih =>
      intro q s h₀ hq hbody
      cases q with
      | ret a =>
        have hs' := hbody [] a (.ret _)
        rw [Prog.ret_bind] at hq
        cases hagain : again a with
        | true =>
          rw [hagain] at hq
          cases hq
          -- The loop starts its next pass.
          rw [List.append_nil] at hs'
          exact hstep _ _ _ _ _ hs' hagain (ih (body a) a [] rfl fun h₁ s'' hr => hr)
        | false =>
          rw [hagain] at hq
          cases hq
      | call o' k' => cases hq
      | doWhile body'' again'' s'' k'' =>
        rw [Prog.doWhile_bind] at hq
        cases hq
        exact ih _ s h₀ (Prog.unroll_bind _ _ _ _ _).symm fun h₁ s' hr => hbody h₁ s' (.unroll hr)
  exact key _ _ _ (doWhile_iff.mp h) (body s) s [] rfl fun h₁ s' hr => hr

/-- A finished run is the beginning of a run. -/
theorem begins {p : Prog Op Resp α} {hs : List (Event Op Resp)} {a : α} (h : Ran p hs a) :
    Begins p hs := by
  induction h with
  | ret a => exact .nil _
  | call _ ih => exact .call ih
  | unroll _ ih => exact .unroll ih

end Ran

/-- An unfinished run of a sequence is inside its first part, or past it. -/
theorem Begins.bind_inv {p : Prog Op Resp α} {f : α → Prog Op Resp β} {hs : List (Event Op Resp)}
    (h : Begins (p >>= f) hs) :
    Begins p hs ∨ ∃ a h₁ h₂, hs = h₁ ++ h₂ ∧ Ran p h₁ a ∧ Begins (f a) h₂ := by
  generalize hq : p >>= f = q at h
  induction h generalizing p with
  | nil q => exact .inl (.nil _)
  | @call o k r hs next ih =>
    cases p with
    | ret a =>
      rw [Prog.ret_bind] at hq
      exact .inr ⟨a, [], _, rfl, .ret _, hq ▸ .call next⟩
    | call o' k' =>
      rw [Prog.call_bind] at hq
      cases hq
      rcases ih rfl with hp | ⟨a, h₁, h₂, rfl, hp, hf⟩
      · exact .inl (.call hp)
      · exact .inr ⟨a, _, h₂, rfl, .call hp, hf⟩
    | doWhile body again s k => cases hq
  | @unroll σ body again s k hs next ih =>
    cases p with
    | ret a =>
      rw [Prog.ret_bind] at hq
      exact .inr ⟨a, [], _, rfl, .ret _, hq ▸ .unroll next⟩
    | call o' k' => cases hq
    | doWhile body' again' s' k' =>
      rw [Prog.doWhile_bind] at hq
      cases hq
      rcases ih (Prog.unroll_bind _ _ _ _ _) with hp | ⟨a, h₁, h₂, rfl, hp, hf⟩
      · exact .inl (.unroll hp)
      · exact .inr ⟨a, h₁, h₂, rfl, .unroll hp, hf⟩

/-! ### The calls of a program -/

/-- Every call of every run of `p` is in `C`. -/
def Only (C : Op → Prop) (p : Prog Op Resp α) : Prop := ∀ hs, Begins p hs → ∀ e ∈ hs, C e.1

namespace Only

variable {C : Op → Prop}

theorem ran {p : Prog Op Resp α} (hp : Only C p) {hs : List (Event Op Resp)} {a : α}
    (h : Ran p hs a) : ∀ e ∈ hs, C e.1 :=
  hp hs h.begins

theorem mono {C' : Op → Prop} {p : Prog Op Resp α} (hp : Only C p) (hC : ∀ o, C o → C' o) :
    Only C' p :=
  fun hs h e he => hC e.1 (hp hs h e he)

theorem ret (a : α) : Only C (.ret a : Prog Op Resp α) := by
  intro hs h
  cases h
  simp

theorem call {o : Op} {k : Resp o → Prog Op Resp α} (ho : C o) (hk : ∀ r, Only C (k r)) :
    Only C (.call o k) := by
  intro hs h
  cases h with
  | nil => simp
  | call next =>
    intro e he
    rcases List.mem_cons.mp he with rfl | he
    · exact ho
    · exact hk _ _ next e he

theorem bind {p : Prog Op Resp α} {f : α → Prog Op Resp β} (hp : Only C p) (hf : ∀ a, Only C (f a)) :
    Only C (p >>= f) := by
  intro hs h e he
  rcases h.bind_inv with h | ⟨a, h₁, h₂, rfl, hran, hbegins⟩
  · exact hp hs h e he
  · rcases List.mem_append.mp he with he | he
    · exact hp.ran hran e he
    · exact hf a h₂ hbegins e he

/-- The loop rule. Induction on the beginning of the run, as for `Ran.loop_induct`. -/
theorem loop {body : σ → Prog Op Resp σ} {again : σ → Bool} (hbody : ∀ s, Only C (body s)) (s : σ) :
    Only C (Prog.loop body again s) := by
  -- Induction on the history, for the rest `q` of a pass with the passes that may follow it.
  have key : ∀ (p : Prog Op Resp σ) (hs : List (Event Op Resp)), Begins p hs →
      ∀ q : Prog Op Resp σ, p = (q >>= fun s' =>
        if again s' then .doWhile body again s' .ret else .ret s') →
      Only C q → ∀ e ∈ hs, C e.1 := by
    intro p hs h
    induction h with
    | nil p => simp
    | @call o k r hs next ih =>
      intro q hq honly e he
      cases q with
      | ret a =>
        rw [Prog.ret_bind] at hq
        cases hagain : again a <;> rw [hagain] at hq <;> cases hq
      | call o' k' =>
        rw [Prog.call_bind] at hq
        cases hq
        rcases List.mem_cons.mp he with rfl | he
        · exact honly [⟨o, r⟩] (.call (.nil _)) ⟨o, r⟩ (by simp)
        · exact ih (k' r) rfl (fun hs' h' e he => honly _ (.call h') e (List.mem_cons_of_mem _ he))
            e he
      | doWhile body' again' s' k' => cases hq
    | @unroll τ body' again' s' k' hs next ih =>
      intro q hq honly
      cases q with
      | ret a =>
        rw [Prog.ret_bind] at hq
        cases hagain : again a with
        | true =>
          rw [hagain] at hq
          cases hq
          exact ih (body a) rfl (hbody a)
        | false =>
          rw [hagain] at hq
          cases hq
      | call o' k' => cases hq
      | doWhile body'' again'' s'' k'' =>
        rw [Prog.doWhile_bind] at hq
        cases hq
        exact ih _ (Prog.unroll_bind _ _ _ _ _).symm fun hs' h' => honly hs' (.unroll h')
  intro hs h
  cases h with
  | nil => simp
  | unroll next => exact key _ _ next (body s) rfl (hbody s)

theorem forEach {X : Type} {body : X → σ → Prog Op Resp σ} {xs : List X}
    (hbody : ∀ x ∈ xs, ∀ s, Only C (body x s)) (s : σ) : Only C (Prog.forEach xs body s) := by
  induction xs generalizing s with
  | nil => exact .ret s
  | cons x xs ih =>
    exact (hbody x List.mem_cons_self s).bind fun s' =>
      ih (fun y hy => hbody y (List.mem_cons_of_mem _ hy)) s'

end Only

/-! ### Programs without a loop -/

/-- The program has no loop. -/
inductive Loopless {α : Type} : Prog Op Resp α → Prop
  | ret (a : α) : Loopless (.ret a)
  | call {o : Op} {k : Resp o → Prog Op Resp α} (next : ∀ r, Loopless (k r)) : Loopless (.call o k)

namespace Loopless

theorem bind {p : Prog Op Resp α} {f : α → Prog Op Resp β} (hp : Loopless p)
    (hf : ∀ a, Loopless (f a)) : Loopless (p >>= f) := by
  induction hp with
  | ret a => exact hf a
  | call _ ih => exact .call ih

theorem forEach {X : Type} {body : X → σ → Prog Op Resp σ} (hbody : ∀ x s, Loopless (body x s))
    (xs : List X) (s : σ) : Loopless (Prog.forEach xs body s) := by
  induction xs generalizing s with
  | nil => exact .ret s
  | cons x xs ih => exact (hbody x s).bind ih

/-- Whatever the server does, the program returns. -/
theorem eval {W : Type} (h : Handler Op Resp W) {p : Prog Op Resp α} (hp : Loopless p) (w : W) :
    ∃ a w', Eval h p w a w' := by
  induction hp generalizing w with
  | ret a => exact ⟨a, w, .ret a w⟩
  | @call o k _ ih =>
    obtain ⟨a, w', he⟩ := ih (h o w).1 (h o w).2
    exact ⟨a, w', .call he⟩

end Loopless

/-! ### Runs on a server -/

section Served

variable {W : Type} {h : Handler Op Resp W}

/-- The answers of `hs` are those of the server, which goes from `w` to `w'`. -/
def Served (h : Handler Op Resp W) : W → List (Event Op Resp) → W → Prop
  | w, [], w' => w' = w
  | w, e :: hs, w' => e.2 = (h e.1 w).1 ∧ Served h (h e.1 w).2 hs w'

theorem Served.append_iff {w w' : W} {h₁ h₂ : List (Event Op Resp)} :
    Served h w (h₁ ++ h₂) w' ↔ ∃ v, Served h w h₁ v ∧ Served h v h₂ w' := by
  induction h₁ generalizing w with
  | nil => simp [Served]
  | cons e h₁ ih => simp [Served, ih, and_assoc]

/-- Every answer is one that the server gives. -/
theorem Served.answers {w w' : W} {hs : List (Event Op Resp)} (hserved : Served h w hs w') :
    ∀ e ∈ hs, ∃ v, e.2 = (h e.1 v).1 := by
  induction hs generalizing w with
  | nil => simp
  | cons e hs ih =>
    intro e' he'
    rcases List.mem_cons.mp he' with rfl | he'
    · exact ⟨w, hserved.1⟩
    · exact ih hserved.2 e' he'

/-- A run that the server answers is the evaluation. -/
theorem Ran.eval {p : Prog Op Resp α} {hs : List (Event Op Resp)} {a : α} {w w' : W}
    (hran : Ran p hs a) (hserved : Served h w hs w') : Eval h p w a w' := by
  induction hran generalizing w with
  | ret a =>
    have hw : w' = w := hserved
    rw [hw]
    exact .ret a w
  | @call o k r hs a next ih =>
    obtain ⟨hr, hrest⟩ := hserved
    have hr : r = (h o w).1 := hr
    refine .call ?_
    rw [← hr]
    exact ih hrest
  | unroll _ ih => exact .unroll (ih hserved)

/-- The run of an evaluation. -/
theorem Eval.served {p : Prog Op Resp α} {w w' : W} {a : α} (he : Eval h p w a w') :
    ∃ hs, Ran p hs a ∧ Served h w hs w' := by
  induction he with
  | ret a w => exact ⟨[], .ret a, rfl⟩
  | call _ ih =>
    obtain ⟨hs, hran, hserved⟩ := ih
    exact ⟨_ :: hs, .call hran, rfl, hserved⟩
  | unroll _ ih =>
    obtain ⟨hs, hran, hserved⟩ := ih
    exact ⟨hs, .unroll hran, hserved⟩

theorem Eval.ran {p : Prog Op Resp α} {w w' : W} {a : α} (he : Eval h p w a w') :
    ∃ hs, Ran p hs a ∧ ∀ e ∈ hs, ∃ v, e.2 = (h e.1 v).1 := by
  obtain ⟨hs, hran, hserved⟩ := he.served
  exact ⟨hs, hran, hserved.answers⟩

end Served

end Traces
