import Homestead.Proofs.Answers

/-!
# `Homestead.Proofs.FailedPut`: a put that fails has changed nothing

`perform` runs an action on the local store, calls the progress callback when that answered
`OK`, and then runs the action on the remote stores. `ran_perform` says so for every run.

`put_failed_changed_nothing` is about the whole put under any answers of the stores. The first
operation of `put_irs_action` writes nothing before the call that decides its status, and the
status of the put is that one. So a put that is not `OK` ended before its first write.
-/

set_option autoImplicit false

namespace Homestead

/-- A call of the progress callback. -/
def isProgress (e : Event Call Call.Resp) : Bool := e.1 = .progressCb

/-- How often the progress callback was called. -/
def callbacks (hs : History) : Nat := hs.countP isProgress

theorem callbacks_of_on {s : StoreId} {hs : History} (h : ∀ e ∈ hs, e.1.On s) : callbacks hs = 0 := by
  refine List.countP_eq_zero.mpr fun e he hprogress => ?_
  have hon := h e he
  rw [of_decide_eq_true hprogress] at hon
  exact hon

/-- The callback is called once between two parts that do not call it. -/
theorem callbacks_between {pre post : History} (hpre : callbacks pre = 0) (hpost : callbacks post = 0) :
    callbacks (pre ++ ⟨.progressCb, ()⟩ :: post) = 1 := by
  unfold callbacks at hpre hpost ⊢
  rw [List.countP_append, List.countP_cons, hpre, hpost]
  rfl

section Perform

variable {σ : Type} {cache : MemcachedCache} {action : StoreId → σ → CacheProg (Status × σ)}

/-- Every call after the progress callback is on a remote store. -/
theorem ran_performRemotes (hon : ∀ s x, Only (Call.On s) (action s x)) {stores : List StoreId}
    {x x' : σ} {hs : History} (h : Ran (Prog.forEach stores (fun remoteStore s => do
      let inner ← action remoteStore s
      pure inner.2) x) hs x') : ∀ e ∈ hs, ∃ s ∈ stores, e.1.On s := by
  induction stores generalizing x hs with
  | nil =>
    obtain ⟨rfl, -⟩ := Ran.ret_iff.mp h
    simp
  | cons store stores ih =>
    obtain ⟨x₁, h₁, h₂, rfl, hfirst, hrest⟩ := Ran.forEach_cons_iff.mp h
    obtain ⟨inner, h₃, h₄, rfl, haction, hret⟩ := Ran.bind_inv hfirst
    obtain ⟨rfl, -⟩ := Ran.ret_iff.mp hret
    rw [List.append_nil]
    intro e he
    rcases List.mem_append.mp he with he | he
    · exact ⟨store, List.mem_cons_self, (hon store x).ran haction e he⟩
    · obtain ⟨s, hs, hone⟩ := ih hrest e he
      exact ⟨s, List.mem_cons_of_mem _ hs, hone⟩

/-- `perform`: the action on the local store, and when that is `OK` the callback and calls on
the remote stores. -/
theorem ran_perform (hon : ∀ s x, Only (Call.On s) (action s x)) {x x' : σ} {hs : History}
    {status : Status} (h : Ran (cache.perform action x) hs (status, x')) :
    ∃ pre x₁, Ran (action cache.localStore x) pre (status, x₁) ∧
      (status ≠ .ok ∧ hs = pre ∧ x' = x₁ ∨
        status = .ok ∧ ∃ post, hs = pre ++ ⟨.progressCb, ()⟩ :: post ∧
          ∀ e ∈ post, ∃ s ∈ cache.remoteStores, e.1.On s) := by
  obtain ⟨⟨found, x₁⟩, pre, h₂, rfl, hlocal, hrest⟩ := Ran.bind_inv h
  have hbranch : Ran (if found = .ok then _ else _) h₂ (status, x') := hrest
  split at hbranch
  · rename_i hok
    obtain ⟨⟨⟩, h₃, rfl, hremotes⟩ := Ran.call_bind_iff.mp hbranch
    obtain ⟨x₂, h₄, h₅, rfl, hremote, hret⟩ := Ran.bind_inv hremotes
    obtain ⟨rfl, hst⟩ := Ran.ret_iff.mp hret
    obtain ⟨rfl, rfl⟩ := Prod.mk.inj hst
    rw [List.append_nil]
    subst hok
    exact ⟨pre, x₁, hlocal, .inr ⟨rfl, h₄, rfl, ran_performRemotes hon hremote⟩⟩
  · rename_i hne
    obtain ⟨rfl, hst⟩ := Ran.ret_iff.mp hbranch
    obtain ⟨rfl, rfl⟩ := Prod.mk.inj hst
    exact ⟨pre, x', hlocal, .inl ⟨hne, List.append_nil pre, rfl⟩⟩

end Perform

/-- Under any answers of the stores: a put that returns another status than `OK` has left every
store as it was and has not called the progress callback. A put that returns `OK` has called it
once, after calls on the local store only, with the call among them that decides the write of
the default IMPU if the IRS was to be written, and before any call on another store. -/
theorem put_failed_changed_nothing (cache : MemcachedCache) (irs irs' : Irs) (w : World)
    (hs : History) (status : Status)
    (h : Ran (cache.putImplicitRegistrationSet irs) hs (status, irs')) :
    (status ≠ .ok → w.after hs = w ∧ callbacks hs = 0) ∧
      (status = .ok → callbacks hs = 1 ∧ ∃ pre post, hs = pre ++ ⟨.progressCb, ()⟩ :: post ∧
        (∀ e ∈ pre, e.1.On cache.localStore) ∧
        (∀ e ∈ post, ∃ s ∈ cache.remoteStores, e.1.On s) ∧
        (irs.hasChanged = true → ∃ e ∈ pre, Decides cache.localStore irs e .ok)) := by
  have hon : ∀ s irs, Only (Call.On s) (putIrsAction irs s) := fun s irs => only_putIrsAction
  -- The callback is no call on a store.
  have hpost : ∀ {post : History}, (∀ e ∈ post, ∃ s ∈ cache.remoteStores, e.1.On s) →
      callbacks post = 0 := by
    intro post hpost
    refine List.countP_eq_zero.mpr fun e he hprogress => ?_
    obtain ⟨s, -, hone⟩ := hpost e he
    rw [of_decide_eq_true hprogress] at hone
    exact hone
  unfold MemcachedCache.putImplicitRegistrationSet at h
  split at h
  · obtain ⟨pre, irs₁, hlocal, hcases⟩ := ran_perform hon h
    have hpre := only_putIrsAction.ran hlocal
    obtain ⟨undecided, e, later, hsplit, hundecided, hdecides, -, hlast⟩ := ran_putIrsAction hlocal
    rcases hcases with ⟨hne, rfl, -⟩ | ⟨rfl, post, rfl, hremote⟩
    · -- The deciding call is the last one, and neither it nor one before it is a write.
      refine ⟨fun _ => ⟨after_of_not_madeWrite (fun e' he' => ?_) w, callbacks_of_on hpre⟩,
        fun hok => absurd hok hne⟩
      rw [hsplit, hlast hne] at he'
      rcases List.mem_append.mp he' with he' | he'
      · exact (hundecided e' he').not_madeWrite
      · rw [List.mem_singleton.mp he']
        exact hdecides.not_madeWrite hne
    · refine ⟨fun hne => absurd rfl hne, fun _ =>
        ⟨callbacks_between (callbacks_of_on hpre) (hpost hremote), pre, post, rfl, hpre, hremote,
          fun _ => ⟨e, ?_, hdecides⟩⟩⟩
      rw [hsplit]
      simp
  · -- Nothing has changed, so nothing is written.
    rename_i hunchanged
    obtain ⟨⟨⟩, h₁, rfl, hret⟩ := Ran.call_iff.mp h
    obtain ⟨rfl, hst⟩ := Ran.ret_iff.mp hret
    obtain ⟨rfl, -⟩ := Prod.mk.inj hst
    exact ⟨fun hne => absurd rfl hne, fun _ => ⟨rfl, [], [], rfl, by simp, by simp,
      fun hchanged => absurd hchanged hunchanged⟩⟩

/-- Store 0 alone. -/
def oneStore : MemcachedCache := { localStore := 0, remoteStores := [] }

/-- A registration of a subscriber without aliases, who was read from the local store. -/
def reregisteredIrs : Irs :=
  (Irs.ofDefaultImpu
    { impu := "sip:d@example.com", associatedImpus := [], impis := [],
      registrationState := .registered, chargingAddresses := {}, serviceProfile := "profile",
      cas := 1, expiry := 100, store := some 0 } 0).setTtl 300

/-- The local store refuses the write. -/
def refusedPut : History :=
  [⟨.time, (10 : Int)⟩,
   ⟨.setImpu 0 (.default (reregisteredIrs.createImpu 1 (some 0) 10)), Status.error⟩]

/-- The local store makes the write, and the remote store refuses it. -/
def acceptedPut : History :=
  [⟨.time, (10 : Int)⟩,
   ⟨.setImpu 0 (.default (reregisteredIrs.createImpu 1 (some 0) 10)), Status.ok⟩,
   ⟨.progressCb, ()⟩, ⟨.getImpu 1 "sip:d@example.com", (Status.notFound, none)⟩,
   ⟨.time, (10 : Int)⟩,
   ⟨.setImpu 1 (.default (reregisteredIrs.createImpu 0 none 10)), Status.error⟩]

/-- Store 0 is local and store 1 is remote. -/
def twoStores : MemcachedCache := { localStore := 0, remoteStores := [1] }

theorem put_failed_changed_nothing_refused :
    (World.ofTables [] []).after refusedPut = World.ofTables [] [] ∧ callbacks refusedPut = 0 ∧
      callbacks acceptedPut = 1 := by
  have hrefused : Ran (twoStores.putImplicitRegistrationSet reregisteredIrs) refusedPut
      (.error, reregisteredIrs) :=
    .call (.unroll (.call (.ret _)))
  have haccepted : Ran (twoStores.putImplicitRegistrationSet reregisteredIrs) acceptedPut
      (.ok, reregisteredIrs) :=
    .call (.unroll (.call (.call (.unroll (.call (.call (.call (.ret _))))))))
  have hrefuse := put_failed_changed_nothing twoStores _ _ (World.ofTables [] []) _ _ hrefused
  have haccept := put_failed_changed_nothing twoStores _ _ (World.ofTables [] []) _ _ haccepted
  obtain ⟨hw, hnone⟩ := hrefuse.1 (by decide)
  exact ⟨hw, hnone, (haccept.2 rfl).1⟩

end Homestead
