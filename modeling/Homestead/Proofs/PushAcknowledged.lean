import Homestead.Proofs.FailedPut
import Homestead.Model.BaseHssCache

/-!
# `Homestead.Proofs.PushAcknowledged`: when a stored profile push is acknowledged

`put_ims_sub_action` puts every IRS of a subscription and returns `OK` whatever the puts
return, so `put_ims_subscription` calls the progress callback, and the push is acknowledged,
in every run. A run is cut into its parts here, one `put_irs_action` on the local store for each
IRS, with its calls and its status.

`Part.ok_iff` says when one of them is `OK`, in terms of the answers of the store, and
`push_acknowledged_iff` says that the acknowledgement is right exactly then.
-/

set_option autoImplicit false

namespace Homestead

/-- The part is a run of `put_irs_action` on the store `s`. -/
def Part.IsPut (s : StoreId) (p : Part) : Prop :=
  ∃ irs', Ran (putIrsAction p.irs s) p.calls (p.status, irs')

/-- The store fails the write of a default IMPU. A conflict is not a failure of `set_impu`,
which is tried again, nor of `add_impu`, after which the record is there. -/
def defaultWriteFails : Event Call Call.Resp → Bool
  | ⟨.setImpu _ (.default _), r⟩ => !(Status.isOk r || Status.isContention r)
  | ⟨.addImpu _ (.default _), r⟩ => !(Status.isOk r || Status.isContention r)
  | ⟨.setImpuWithoutCas _ (.default _), r⟩ => !Status.isOk r
  | _ => false

/-- A read of the key `D` finds an associated IMPU. -/
def foundAssociated (D : String) : Event Call Call.Resp → Prop
  | ⟨.getImpu _ key, r⟩ => key = D ∧ ∃ a, Prod.snd r = some (Impu.associated a)
  | _ => False

/-- What the put of an IRS needs of the answers: no write of its default IMPU fails, and, unless
the IRS is new or refreshed, no read of the default IMPU that is made before the first write
finds an associated IMPU. -/
structure Part.GoesThrough (p : Part) : Prop where
  writes : ∀ e ∈ p.calls, defaultWriteFails e = false
  reads : p.irs.existing = true → p.irs.refreshed = false → ∀ pre e post,
    p.calls = pre ++ e :: post → (∀ e' ∈ pre, madeWrite e' = false) →
      ¬ foundAssociated p.irs.defaultImpu e

/-- The call that decides for `OK`: it does not fail, and it makes the write of an IRS that is
not new. -/
theorem Decides.of_ok {s : StoreId} {irs : Irs} {e : Event Call Call.Resp} {status : Status}
    (h : Decides s irs e status) (hok : status = .ok) :
    defaultWriteFails e = false ∧ ¬ foundAssociated irs.defaultImpu e ∧
      (irs.existing = true → madeWrite e = true) := by
  cases h with
  | set _ _ _ =>
    rw [hok]
    exact ⟨rfl, id, fun _ => rfl⟩
  | refused _ _ => cases hok
  | blind hnew _ =>
    rw [hok, hnew]
    exact ⟨rfl, id, fun h => by cases h⟩
  | @add d r hnew _ _ =>
    -- A conflict is `OK` as well: there is a record already.
    rw [hnew]
    refine ⟨?_, id, fun h => by cases h⟩
    cases r with
    | ok => rfl
    | dataContention => rfl
    | notFound => cases hok
    | error => cases hok

/-- The call that decides against `OK`: a write that fails, or a read that ends the put. -/
theorem Decides.of_not_ok {s : StoreId} {irs : Irs} {e : Event Call Call.Resp} {status : Status}
    (h : Decides s irs e status) (hne : status ≠ .ok) : defaultWriteFails e = true ∨
      irs.existing = true ∧ irs.refreshed = false ∧ foundAssociated irs.defaultImpu e := by
  cases h with
  | set _ _ hr =>
    left
    cases status with
    | ok => exact absurd rfl hne
    | dataContention => exact absurd rfl hr
    | notFound => rfl
    | error => rfl
  | @refused status a hexisting hrefreshed => exact .inr ⟨hexisting, hrefreshed, rfl, a, rfl⟩
  | blind _ _ =>
    left
    cases status with
    | ok => exact absurd rfl hne
    | dataContention => rfl
    | notFound => rfl
    | error => rfl
  | @add d r _ _ _ =>
    left
    cases r with
    | ok => exact absurd rfl hne
    | dataContention => exact absurd rfl hne
    | notFound => rfl
    | error => rfl

theorem Undecided.not_fails {s : StoreId} {D : String} {refreshed : Bool} {e : Event Call Call.Resp}
    (h : Undecided s D refreshed e) :
    defaultWriteFails e = false ∧ (refreshed = false → ¬ foundAssociated D e) := by
  cases h with
  | time r => exact ⟨rfl, fun _ => id⟩
  | read hfree =>
    refine ⟨rfl, fun hrefreshed => ?_⟩
    rintro ⟨-, a, ha⟩
    exact hfree hrefreshed a ha
  | contended _ => exact ⟨rfl, fun _ => id⟩

/-- The two other operations of an action write no default IMPU. -/
theorem defaultWriteFails_of_onParts {s : StoreId} {e : Event Call Call.Resp} (h : e.1.OnParts s) :
    defaultWriteFails e = false := by
  obtain ⟨o, r⟩ := e
  have h : o.OnParts s := h
  cases o with
  | setImpuWithoutCas s' impu =>
    cases impu with
    | default d => exact h.elim
    | associated a => rfl
  | setImpu s' impu => exact h.elim
  | addImpu s' impu => exact h.elim
  | _ => rfl

/-- A put is `OK` exactly when the answers let it through. -/
theorem Part.ok_iff {s : StoreId} {p : Part} (h : p.IsPut s) : p.status = .ok ↔ p.GoesThrough := by
  obtain ⟨irs', hran⟩ := h
  obtain ⟨pre, e, post, hcalls, hpre, hdecides, hpost, -⟩ := ran_putIrsAction hran
  constructor
  · intro hok
    obtain ⟨hfails, hfound, hmade⟩ := hdecides.of_ok hok
    refine ⟨fun e' he' => ?_, fun hexisting hrefreshed pre' e' post' hsplit hunwritten => ?_⟩
    · rw [hcalls] at he'
      rcases List.mem_append.mp he' with he' | he'
      · exact (hpre e' he').not_fails.1
      · rcases List.mem_cons.mp he' with rfl | he'
        · exact hfails
        · exact defaultWriteFails_of_onParts (hpost e' he')
    · -- The deciding call made the write, so the read is at it or before it.
      rw [hcalls] at hsplit
      rcases List.append_eq_append_iff.mp hsplit with ⟨mid, rfl, hmid⟩ | ⟨mid, rfl, hmid⟩
      · cases mid with
        | nil =>
          obtain ⟨rfl, -⟩ := List.cons.inj hmid
          exact hfound
        | cons x mid =>
          obtain ⟨rfl, -⟩ := List.cons.inj hmid
          have hnot := hunwritten e (by simp)
          rw [hmade hexisting] at hnot
          cases hnot
      · cases mid with
        | nil =>
          obtain ⟨rfl, -⟩ := List.cons.inj hmid
          exact hfound
        | cons x mid =>
          obtain ⟨rfl, -⟩ := List.cons.inj hmid
          exact (hpre e' (by simp)).not_fails.2 hrefreshed
  · intro hgoes
    by_contra hne
    -- The deciding call is the failure that the condition excludes.
    rcases hdecides.of_not_ok hne with hfails | ⟨hexisting, hrefreshed, hfound⟩
    · have hnot := hgoes.writes e (by rw [hcalls]; simp)
      rw [hfails] at hnot
      cases hnot
    · exact hgoes.reads hexisting hrefreshed pre e post hcalls
        (fun e' he' => (hpre e' he').not_madeWrite) hfound

/-- The puts of `put_ims_sub_action`, in the order of the subscription. -/
theorem ran_putImsSubAction {s : StoreId} {sub sub' : ImsSubscription} {hs : History}
    {status : Status} (h : Ran (MemcachedCache.putImsSubAction s sub) hs (status, sub')) :
    status = .ok ∧ ∃ parts : List Part, parts.map Part.irs = sub.toList.map Prod.snd ∧
      (∀ p ∈ parts, p.IsPut s) ∧ hs = parts.flatMap Part.calls := by
  obtain ⟨sub₁, h₁, h₂, rfl, hloop, hret⟩ := Ran.bind_inv h
  obtain ⟨rfl, hst⟩ := Ran.ret_iff.mp hret
  obtain ⟨rfl, -⟩ := Prod.mk.inj hst
  rw [List.append_nil]
  refine ⟨rfl, ?_⟩
  -- The loop carries the subscription along, and the statuses of its puts are dropped.
  clear h hret hst
  generalize sub.toList = irss at hloop
  generalize sub = x at hloop
  induction irss generalizing x h₁ with
  | nil =>
    obtain ⟨rfl, -⟩ := Ran.ret_iff.mp hloop
    exact ⟨[], rfl, by simp, rfl⟩
  | cons irs irss ih =>
    obtain ⟨x₁, h₃, h₄, rfl, hfirst, hrest⟩ := Ran.forEach_cons_iff.mp hloop
    obtain ⟨⟨put, irs'⟩, h₅, h₆, rfl, hput, hins⟩ := Ran.bind_inv hfirst
    obtain ⟨rfl, -⟩ := Ran.ret_iff.mp hins
    obtain ⟨parts, hmap, hparts, rfl⟩ := ih _ _ hrest
    refine ⟨{ irs := irs.2, calls := h₅, status := put } :: parts, by simp [hmap], fun p hp => ?_,
      by simp⟩
    rcases List.mem_cons.mp hp with rfl | hp
    · exact ⟨irs', hput⟩
    · exact hparts p hp

theorem only_putImsSubAction (s : StoreId) (sub : ImsSubscription) :
    Only (Call.On s) (MemcachedCache.putImsSubAction s sub) :=
  .bind (.forEach (fun _ _ _ => only_putIrsAction.bind fun _ => .ret _) _) fun _ => .ret _

/-- The push is acknowledged only if every put was `OK`: `put_ims_subscription` returns `OK` and
calls the progress callback then, and otherwise returns another status without calling it. -/
def AcknowledgedIfStored (status : Status) (hs : History) (parts : List Part) : Prop :=
  (status = .ok ∨ callbacks hs ≠ 0 → ∀ p ∈ parts, p.status = .ok) ∧
    ((∃ p ∈ parts, p.status ≠ .ok) → status ≠ .ok ∧ callbacks hs = 0)

/-- In every run of `put_ims_subscription`, the acknowledgement is right if and only if the
answers of the local store let every put of an IRS through. -/
theorem push_acknowledged_iff (cache : MemcachedCache) (sub sub' : ImsSubscription) (hs : History)
    (status : Status) (h : Ran (cache.putImsSubscription sub) hs (status, sub')) :
    ∃ (parts : List Part) (post : History), parts.map Part.irs = sub.toList.map Prod.snd ∧
      (∀ p ∈ parts, p.IsPut cache.localStore) ∧
      hs = parts.flatMap Part.calls ++ ⟨.progressCb, ()⟩ :: post ∧
      (AcknowledgedIfStored status hs parts ↔ ∀ p ∈ parts, p.GoesThrough) := by
  obtain ⟨pre, sub₁, hlocal, hcases⟩ := ran_perform only_putImsSubAction h
  obtain ⟨rfl, parts, hmap, hparts, rfl⟩ := ran_putImsSubAction hlocal
  rcases hcases with ⟨hne, -, -⟩ | ⟨-, post, hhs, -⟩
  · -- The action on a store always answers `OK`.
    exact absurd rfl hne
  · refine ⟨parts, post, hmap, hparts, hhs, ?_⟩
    constructor
    · intro hack p hp
      exact (Part.ok_iff (hparts p hp)).mp (hack.1 (.inl rfl) p hp)
    · intro hgoes
      have hok : ∀ p ∈ parts, p.status = .ok := fun p hp => (Part.ok_iff (hparts p hp)).mpr (hgoes p hp)
      refine ⟨fun _ => hok, ?_⟩
      rintro ⟨p, hp, hne⟩
      exact absurd (hok p hp) hne

/-- A subscriber whose charging addresses were pushed. -/
def pushedIrs : Irs :=
  (Irs.ofDefaultImpu
    { impu := "sip:d@example.com", associatedImpus := [], impis := [],
      registrationState := .registered, chargingAddresses := {}, serviceProfile := "profile",
      cas := 1, expiry := 100, store := some 0 } 0).setChargingAddresses { ccfs := ["ccf"] }

def pushedSubscription : ImsSubscription := .ofIrss [pushedIrs]

/-- The put of the subscriber, with the answer of the store to the write. -/
def pushCalls (answer : Status) : History :=
  [⟨.time, (10 : Int)⟩, ⟨.setImpu 0 (.default (pushedIrs.createImpu 1 (some 0) 10)), answer⟩]

/-- The whole put of the subscription. -/
def pushHistory (answer : Status) : History := pushCalls answer ++ [⟨.progressCb, ()⟩]

theorem toList_pushedSubscription :
    pushedSubscription.toList = [("sip:d@example.com", pushedIrs)] := by
  rfl

theorem ran_pushCalls {answer : Status} (h : answer ≠ .dataContention) :
    Ran (putIrsAction pushedIrs 0) (pushCalls answer) (answer, pushedIrs) := by
  cases answer with
  | ok => exact .call (.unroll (.call (.ret _)))
  | dataContention => exact absurd rfl h
  | notFound => exact .call (.unroll (.call (.ret _)))
  | error => exact .call (.unroll (.call (.ret _)))

/-- The put of a subscription with one IRS, on one store. -/
theorem ran_putImsSubscription_one {sub : ImsSubscription} {key : String} {irs : Irs}
    (hlist : sub.toList = [(key, irs)]) {calls : History} {put : Status × Irs}
    (h : Ran (putIrsAction irs 0) calls put) :
    Ran (oneStore.putImsSubscription sub) (calls ++ [⟨.progressCb, ()⟩])
      (.ok, sub.insert key put.2) := by
  have haction : Ran (MemcachedCache.putImsSubAction 0 sub) calls (.ok, sub.insert key put.2) := by
    have hcalls : calls = ((calls ++ []) ++ []) ++ [] := by simp
    unfold MemcachedCache.putImsSubAction
    rw [hlist, hcalls]
    have hbody : Ran (putIrsAction irs 0 >>= fun put => pure (sub.insert key put.2)) (calls ++ [])
        (sub.insert key put.2) := h.bind (.ret _)
    refine Ran.bind (Ran.forEach_cons_iff.mpr ⟨_, _, [], rfl, hbody, ?_⟩) (.ret _)
    exact Ran.ret _
  exact haction.bind (.call (.ret _))

theorem ran_pushHistory {answer : Status} (h : answer ≠ .dataContention) :
    Ran (oneStore.putImsSubscription pushedSubscription) (pushHistory answer)
      (.ok, pushedSubscription.insert "sip:d@example.com" pushedIrs) :=
  ran_putImsSubscription_one toList_pushedSubscription (ran_pushCalls h)

/-- A push that the store accepts. -/
theorem push_acknowledged_iff_accepted :
    ∃ (parts : List Part) (post : History), parts.map Part.irs = [pushedIrs] ∧
      (∀ p ∈ parts, p.IsPut 0) ∧
      pushHistory .ok = parts.flatMap Part.calls ++ ⟨.progressCb, ()⟩ :: post ∧
      (AcknowledgedIfStored .ok (pushHistory .ok) parts ↔ ∀ p ∈ parts, p.GoesThrough) := by
  have hran := ran_pushHistory (show Status.ok ≠ .dataContention by decide)
  obtain ⟨parts, post, hmap, hparts⟩ := push_acknowledged_iff oneStore _ _ _ _ hran
  rw [toList_pushedSubscription] at hmap
  exact ⟨parts, post, hmap, hparts⟩

/-- The store answers `ERROR` to the write of the only IRS. `put_irs_action` returns the error,
and `put_ims_subscription` returns `OK` after calling the progress callback. -/
theorem push_acknowledged_lost :
    let part : Part := { irs := pushedIrs, calls := pushCalls .error, status := .error }
    part.IsPut 0 ∧
      Ran (oneStore.putImsSubscription pushedSubscription) (pushHistory .error)
        (.ok, pushedSubscription.insert "sip:d@example.com" pushedIrs) ∧
      ¬ AcknowledgedIfStored .ok (pushHistory .error) [part] := by
  refine ⟨⟨pushedIrs, ran_pushCalls (by decide)⟩, ran_pushHistory (by decide), ?_⟩
  rintro ⟨hack, -⟩
  exact absurd (hack (.inl rfl) _ (List.mem_singleton_self _)) (by decide)

end Homestead
