import Homestead.Lib.Traces

/-!
# `Homestead.Lib.Can`: what a program can do under some answers

`Monitor.Keeps` is about every answer. Here somebody chooses the answers, among those that `P`
admits. `Can P Q p` says that `p` can return a result in `Q`, and `CanCall P C p` that it can make
a call in `C`, in a run whose answers are admitted.

The rules follow the shape of the program. `CanCall.bind_right` goes past the first part of a
sequence, and `CanCall.forEach_mem` past the elements of a list before the one that matters.
-/

set_option autoImplicit false

section Can

variable {Op : Type} {Resp : Op → Type} {α β σ : Type}

theorem Begins.bind_left {p : Prog Op Resp α} {hs : List (Event Op Resp)} (h : Begins p hs)
    (f : α → Prog Op Resp β) : Begins (p >>= f) hs := by
  induction h with
  | nil p => exact .nil _
  | call _ ih => exact .call ih
  | unroll _ ih =>
    rw [Prog.unroll_bind] at ih
    exact .unroll ih

/-- A finished run of the first part, and the beginning of a run of the rest. -/
theorem Ran.bind_begins {p : Prog Op Resp α} {f : α → Prog Op Resp β} {hs hs' : List (Event Op Resp)}
    {a : α} (hp : Ran p hs a) (hf : Begins (f a) hs') : Begins (p >>= f) (hs ++ hs') := by
  induction hp with
  | ret a => exact hf
  | call _ ih => exact .call (ih hf)
  | unroll _ ih =>
    have hrest := ih hf
    rw [Prog.unroll_bind] at hrest
    exact .unroll hrest

/-- `p` can return a result in `Q`, with answers in `P`. -/
def Can (P : Event Op Resp → Prop) (Q : α → Prop) (p : Prog Op Resp α) : Prop :=
  ∃ hs a, Ran p hs a ∧ (∀ e ∈ hs, P e) ∧ Q a

/-- `p` can make a call in `C`, with answers in `P`. -/
def CanCall (P : Event Op Resp → Prop) (C : Op → Prop) (p : Prog Op Resp α) : Prop :=
  ∃ hs, Begins p hs ∧ (∀ e ∈ hs, P e) ∧ ∃ e ∈ hs, C e.1

variable {P : Event Op Resp → Prop} {Q : α → Prop} {R : β → Prop} {C : Op → Prop}

namespace Can

theorem ret {a : α} (ha : Q a) : Can P Q (.ret a : Prog Op Resp α) := ⟨[], a, .ret a, by simp, ha⟩

theorem call {o : Op} {k : Resp o → Prog Op Resp α} (r : Resp o) (hr : P ⟨o, r⟩)
    (hk : Can P Q (k r)) : Can P Q (.call o k) := by
  obtain ⟨hs, a, hran, hanswers, ha⟩ := hk
  refine ⟨⟨o, r⟩ :: hs, a, .call hran, fun e he => ?_, ha⟩
  rcases List.mem_cons.mp he with rfl | he
  · exact hr
  · exact hanswers e he

theorem weaken {R : α → Prop} {p : Prog Op Resp α} (hp : Can P Q p) (hQ : ∀ a, Q a → R a) :
    Can P R p := by
  obtain ⟨hs, a, hran, hanswers, ha⟩ := hp
  exact ⟨hs, a, hran, hanswers, hQ a ha⟩

theorem bind {p : Prog Op Resp α} {f : α → Prog Op Resp β} (hp : Can P Q p)
    (hf : ∀ a, Q a → Can P R (f a)) : Can P R (p >>= f) := by
  obtain ⟨h₁, a, hran, hanswers, ha⟩ := hp
  obtain ⟨h₂, b, hrest, hanswers', hb⟩ := hf a ha
  refine ⟨h₁ ++ h₂, b, hran.bind hrest, fun e he => ?_, hb⟩
  rcases List.mem_append.mp he with he | he
  · exact hanswers e he
  · exact hanswers' e he

/-- A loop whose first pass can be the last one. -/
theorem loop_once {body : σ → Prog Op Resp σ} {again : σ → Bool} {Q : σ → Prop} {s : σ}
    (hbody : Can P (fun s' => again s' = false ∧ Q s') (body s)) :
    Can P Q (Prog.loop body again s) := by
  obtain ⟨hs, s', hran, hanswers, hagain, hs'⟩ := hbody.bind (f := fun s' => if again s' then
      Prog.doWhile body again s' Prog.ret else Prog.ret s') (R := fun s' => again s' = false ∧ Q s')
    fun s' hs' => by rw [hs'.1]; exact .ret hs'
  exact ⟨hs, s', .unroll hran, hanswers, hs'⟩

/-- A loop whose first pass can go on. -/
theorem loop_again {body : σ → Prog Op Resp σ} {again : σ → Bool} {Q R : σ → Prop} {s : σ}
    (hbody : Can P (fun s' => again s' = true ∧ R s') (body s))
    (hrest : ∀ s', R s' → Can P Q (Prog.loop body again s')) :
    Can P Q (Prog.loop body again s) := by
  obtain ⟨hs, s', hran, hanswers, hs'⟩ := hbody.bind (f := fun s' => if again s' then
      Prog.doWhile body again s' Prog.ret else Prog.ret s') (R := Q)
    fun s' hs' => by rw [hs'.1]; exact hrest s' hs'.2
  exact ⟨hs, s', .unroll hran, hanswers, hs'⟩

theorem forEach {X : Type} {body : X → σ → Prog Op Resp σ} {I : σ → Prop}
    (hbody : ∀ x s, I s → Can P I (body x s)) (xs : List X) {s : σ} (hs : I s) :
    Can P I (Prog.forEach xs body s) := by
  induction xs generalizing s with
  | nil => exact .ret hs
  | cons x xs ih => exact (hbody x s hs).bind fun s' hs' => ih hs'

end Can

namespace CanCall

/-- The call itself, answered somehow. -/
theorem here {o : Op} {k : Resp o → Prog Op Resp α} (ho : C o) (r : Resp o) (hr : P ⟨o, r⟩) :
    CanCall P C (.call o k) := by
  refine ⟨[⟨o, r⟩], .call (.nil _), ?_, ⟨o, r⟩, List.mem_singleton_self _, ho⟩
  intro e he
  rw [List.mem_singleton.mp he]
  exact hr

theorem call {o : Op} {k : Resp o → Prog Op Resp α} (r : Resp o) (hr : P ⟨o, r⟩)
    (hk : CanCall P C (k r)) : CanCall P C (.call o k) := by
  obtain ⟨hs, hbegins, hanswers, e, he, hC⟩ := hk
  refine ⟨⟨o, r⟩ :: hs, .call hbegins, fun e' he' => ?_, e, List.mem_cons_of_mem _ he, hC⟩
  rcases List.mem_cons.mp he' with rfl | he'
  · exact hr
  · exact hanswers e' he'

theorem bind_left {p : Prog Op Resp α} (hp : CanCall P C p) (f : α → Prog Op Resp β) :
    CanCall P C (p >>= f) := by
  obtain ⟨hs, hbegins, hrest⟩ := hp
  exact ⟨hs, hbegins.bind_left f, hrest⟩

theorem bind_right {p : Prog Op Resp α} {f : α → Prog Op Resp β} (hp : Can P Q p)
    (hf : ∀ a, Q a → CanCall P C (f a)) : CanCall P C (p >>= f) := by
  obtain ⟨h₁, a, hran, hanswers, ha⟩ := hp
  obtain ⟨h₂, hbegins, hanswers', e, he, hC⟩ := hf a ha
  refine ⟨h₁ ++ h₂, hran.bind_begins hbegins, fun e' he' => ?_, e, List.mem_append_right _ he, hC⟩
  rcases List.mem_append.mp he' with he' | he'
  · exact hanswers e' he'
  · exact hanswers' e' he'

theorem loop {body : σ → Prog Op Resp σ} {again : σ → Bool} {s : σ}
    (hbody : CanCall P C (body s)) : CanCall P C (Prog.loop body again s) := by
  obtain ⟨hs, hbegins, hrest⟩ := hbody.bind_left fun s' =>
    if again s' then Prog.doWhile body again s' Prog.ret else Prog.ret s'
  exact ⟨hs, .unroll hbegins, hrest⟩

/-- An element of a list, when the loop can get past the others. -/
theorem forEach_mem {X : Type} {body : X → σ → Prog Op Resp σ} {I : σ → Prop} {x : X}
    (hbody : ∀ x s, I s → Can P I (body x s)) (hx : ∀ s, I s → CanCall P C (body x s))
    {xs : List X} (hmem : x ∈ xs) {s : σ} (hs : I s) : CanCall P C (Prog.forEach xs body s) := by
  induction xs generalizing s with
  | nil => cases hmem
  | cons y xs ih =>
    rcases List.mem_cons.mp hmem with rfl | hmem
    · exact (hx s hs).bind_left _
    · exact bind_right (hbody y s hs) fun s' hs' => ih hmem hs'

end CanCall

end Can
