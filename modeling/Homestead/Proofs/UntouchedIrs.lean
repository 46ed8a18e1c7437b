import Homestead.Proofs.ExpiryDrift
import Homestead.Proofs.PushAcknowledged

/-!
# `Homestead.Proofs.UntouchedIrs`: what a subscription put does to an untouched IRS

`put_implicit_registration_set` writes nothing when `has_changed()` is false. `put_ims_sub_action`
does not ask `has_changed()` and calls `put_irs_action` on every IRS of the subscription.

* `Rounds` cuts a run of `put_ims_subscription` into its calls of `put_irs_action`, so that each
  call of the store is made for one IRS.
* `ran_putIrsAction_untouched`: `put_irs_action` on an untouched IRS writes, unless the IRS is not
  from the store and the store has an associated IMPU under its default IMPU.
* `untouched_unwritten_iff` puts them together, and compares the subscription put with single puts
  on a reliable store.
-/

set_option autoImplicit false

namespace Homestead

/-! ### `put_irs_action` on an untouched IRS -/

/-- The fields of an IRS that a put does not change. -/
structure Irs.SameRead (irs irs' : Irs) : Prop where
  defaultImpu : irs'.defaultImpu = irs.defaultImpu
  store : irs'.store = irs.store
  existing : irs'.existing = irs.existing
  refreshed : irs'.refreshed = irs.refreshed

theorem Irs.SameRead.refl (irs : Irs) : irs.SameRead irs := ⟨rfl, rfl, rfl, rfl⟩

theorem Irs.SameRead.trans {irs irs₁ irs₂ : Irs} (h₁ : irs.SameRead irs₁) (h₂ : irs₁.SameRead irs₂) :
    irs.SameRead irs₂ where
  defaultImpu := h₂.defaultImpu.trans h₁.defaultImpu
  store := h₂.store.trans h₁.store
  existing := h₂.existing.trans h₁.existing
  refreshed := h₂.refreshed.trans h₁.refreshed

/-- An IRS that nobody has changed exists and is not refreshed. -/
theorem Irs.of_not_hasChanged {irs : Irs} (h : irs.hasChanged = false) :
    irs.existing = true ∧ irs.refreshed = false := by
  simp only [hasChanged, Bool.or_eq_false_iff, Bool.not_eq_false'] at h
  simp only [h, and_self]

/-- A read of the key `D` on the store `s` that finds no associated IMPU, and a write. -/
def ReadsAndWrites (s : StoreId) (D : String) (hs : History) : Prop :=
  (∃ r : Status × Option Impu, ⟨.getImpu s D, r⟩ ∈ hs ∧ ∀ a, r.2 ≠ some (.associated a)) ∧
    ∃ e ∈ hs, ¬ e.1.IsRead

/-- The only call is a read of the key `D`, which finds an associated IMPU. -/
def OnlyFindsAssociated (s : StoreId) (D : String) (hs : History) : Prop :=
  ∃ (status : Status) (a : AssociatedImpu), hs = [⟨.getImpu s D, (status, some (.associated a))⟩]

section Untouched

variable {s : StoreId} {irs : Irs} {hs : History}

/-- The end of a pass that goes on to write the record. -/
theorem ran_writeEnd {irs' : Irs} {cas : Nat} {store : Option StoreId} {st : ImpuActionState}
    (h : Ran (Irs.getImpuFromImpu irs' cas store >>= fun impu =>
      IrsImpuAction.setImpu.apply s impu >>= fun status =>
        pure { status := status, irs := irs', impu := none : ImpuActionState }) hs st) :
    st.irs = irs' ∧ ∃ e ∈ hs, ¬ e.1.IsRead := by
  obtain ⟨now, hs₁, rfl, hwrite⟩ := Ran.call_iff.mp h
  obtain ⟨status, hs₂, rfl, hret⟩ := Ran.call_iff.mp hwrite
  obtain ⟨rfl, rfl⟩ := Ran.ret_iff.mp hret
  exact ⟨rfl, _, List.mem_cons_of_mem _ List.mem_cons_self, id⟩

/-- A pass that reads the store first, for an IRS that is not refreshed. -/
theorem ran_rereadPass_unrefreshed (hrefreshed : irs.refreshed = false) {st : ImpuActionState}
    (h : Ran (rereadPass .setImpu s irs) hs st) : irs.SameRead st.irs ∧
      (OnlyFindsAssociated s irs.defaultImpu hs ∧ st.status = .error ∨
        ReadsAndWrites s irs.defaultImpu hs) := by
  obtain ⟨⟨status, found⟩, hs₁, rfl, hrest⟩ := Ran.call_iff.mp h
  have hwrites : (∀ a, found ≠ some (.associated a)) → (∃ e ∈ hs₁, ¬ e.1.IsRead) →
      ReadsAndWrites s irs.defaultImpu (⟨.getImpu s irs.defaultImpu, (status, found)⟩ :: hs₁) := by
    rintro hfound ⟨e, he, hwrite⟩
    exact ⟨⟨_, List.mem_cons_self, hfound⟩, e, List.mem_cons_of_mem _ he, hwrite⟩
  obtain _ | d | a := found
  · obtain ⟨hirs, hwrite⟩ := ran_writeEnd hrest
    rw [hirs]
    have hfound : ∀ a, (none : Option Impu) ≠ some (.associated a) := by simp
    exact ⟨.refl irs, .inr (hwrites hfound hwrite)⟩
  · -- The merge takes over data of the record, and none of the fields here.
    have hmerged : Ran (irs.mergeFromStore d >>= _) hs₁ st := hrest
    rw [Irs.mergeFromStore, hrefreshed] at hmerged
    obtain ⟨now, hs₂, rfl, hend⟩ := Ran.call_iff.mp hmerged
    obtain ⟨hirs, e, he, hwrite⟩ := ran_writeEnd hend
    rw [hirs]
    have hfound : ∀ a, some (Impu.default d) ≠ some (.associated a) := by simp
    exact ⟨⟨rfl, rfl, rfl, rfl⟩, .inr (hwrites hfound ⟨e, List.mem_cons_of_mem _ he, hwrite⟩)⟩
  · have hassoc : Ran (if irs.refreshed then _ else _) hs₁ st := hrest
    rw [hrefreshed] at hassoc
    obtain ⟨rfl, rfl⟩ := Ran.ret_iff.mp hassoc
    exact ⟨.refl irs, .inl ⟨⟨status, a, rfl⟩, rfl⟩⟩

/-- The loop of `update_irs_impu` keeps the fields. -/
theorem ran_updateLoop_sameRead {st st' : ImpuActionState} (hrefreshed : st.irs.refreshed = false)
    (h : Ran (Prog.loop (impuActionPass .setImpu s) (fun st => st.status.isContention) st) hs st') :
    st.irs.SameRead st'.irs := by
  have hpass : ∀ {st st' : ImpuActionState} {hs : History}, st.irs.refreshed = false →
      Ran (impuActionPass .setImpu s st) hs st' → st.irs.SameRead st'.irs := by
    intro st st' hs hrefreshed h
    unfold impuActionPass at h
    split at h
    · obtain ⟨status, hs₁, rfl, hret⟩ := Ran.call_iff.mp h
      obtain ⟨rfl, rfl⟩ := Ran.ret_iff.mp hret
      exact .refl _
    · exact (ran_rereadPass_unrefreshed hrefreshed h).1
  refine Ran.loop_induct (P := fun st _ st' => st.irs.refreshed = false → st.irs.SameRead st'.irs)
    ?_ ?_ h hrefreshed
  · intro st hs st' h _ hrefreshed
    exact hpass hrefreshed h
  · intro st h₁ st₁ h₂ st' h _ ih hrefreshed
    have hfirst := hpass hrefreshed h
    exact hfirst.trans (ih (hfirst.refreshed.trans hrefreshed))

/-- `update_irs_impu` on an IRS that is not refreshed. An IRS that was read from the store is
written at once. -/
theorem ran_updateIrsImpu_unrefreshed (hrefreshed : irs.refreshed = false) {result : Status × Irs}
    (h : Ran (updateIrsImpu irs s) hs result) : irs.SameRead result.2 ∧
      (irs.store ≠ some s ∧ OnlyFindsAssociated s irs.defaultImpu hs ∧ result.1 = .error ∨
        irs.store = some s ∧ (∃ e ∈ hs, ¬ e.1.IsRead) ∨ ReadsAndWrites s irs.defaultImpu hs) := by
  obtain ⟨impu, h₁, h₂, rfl, himpu, hrest⟩ := Ran.bind_inv h
  obtain ⟨st, h₃, h₄, rfl, hloop, hret⟩ := Ran.bind_inv hrest
  obtain ⟨rfl, rfl⟩ := Ran.ret_iff.mp hret
  have hsame : irs.SameRead st.irs := ran_updateLoop_sameRead hrefreshed hloop
  refine ⟨hsame, ?_⟩
  rw [List.append_nil]
  unfold Irs.getImpuForStore at himpu
  split at himpu
  · rename_i hstore
    right; left
    obtain ⟨now, h₅, rfl, hrecord⟩ := Ran.call_iff.mp himpu
    obtain ⟨rfl, rfl⟩ := Ran.ret_iff.mp hrecord
    refine ⟨hstore, ?_⟩
    -- The first pass writes the record that the IRS holds.
    have hpass : ∀ {impu hs₁ st₁}, Ran (impuActionPass .setImpu s
        { status := .ok, irs := irs, impu := some impu }) hs₁ st₁ → ∃ e ∈ hs₁, ¬ e.1.IsRead := by
      intro impu hs₁ st₁ hpass
      obtain ⟨status, hs₂, rfl, -⟩ := Ran.call_bind_iff.mp hpass
      exact ⟨_, List.mem_cons_self, id⟩
    rcases Ran.loop_inv hloop with ⟨hlast, -⟩ | ⟨st₁, h₆, h₇, rfl, hfirst, -, -⟩
    · obtain ⟨e, he, hwrite⟩ := hpass hlast
      exact ⟨e, by simp [he], hwrite⟩
    · obtain ⟨e, he, hwrite⟩ := hpass hfirst
      exact ⟨e, by simp [he], hwrite⟩
  · rename_i hstore
    obtain ⟨rfl, rfl⟩ := Ran.ret_iff.mp himpu
    rw [List.nil_append]
    rcases Ran.loop_inv hloop with ⟨hlast, -⟩ | ⟨st₁, h₆, h₇, rfl, hfirst, hagain, -⟩
    · obtain ⟨-, ⟨hfinds, herror⟩ | hwrites⟩ := ran_rereadPass_unrefreshed hrefreshed hlast
      · exact .inl ⟨hstore, hfinds, herror⟩
      · exact .inr (.inr hwrites)
    · obtain ⟨-, ⟨-, herror⟩ | ⟨⟨r, hr, hfound⟩, e, he, hwrite⟩⟩ :=
        ran_rereadPass_unrefreshed hrefreshed hfirst
      · -- The loop does not go on after the error.
        rw [herror] at hagain
        cases hagain
      · exact .inr (.inr ⟨⟨r, List.mem_append_left _ hr, hfound⟩, e, List.mem_append_left _ he, hwrite⟩)

/-- `put_irs_action` on an IRS that exists and is not refreshed. -/
theorem ran_putIrsAction_untouched (hexisting : irs.existing = true)
    (hrefreshed : irs.refreshed = false) {result : Status × Irs}
    (h : Ran (putIrsAction irs s) hs result) : irs.SameRead result.2 ∧
      (irs.store ≠ some s ∧ OnlyFindsAssociated s irs.defaultImpu hs ∨
        irs.store = some s ∧ (∃ e ∈ hs, ¬ e.1.IsRead) ∨ ReadsAndWrites s irs.defaultImpu hs) := by
  obtain ⟨put, h₁, h₂, rfl, hput, hrest⟩ := Ran.bind_inv h
  rw [putIrsImpu, if_pos hexisting] at hput
  obtain ⟨hsame, hcases⟩ := ran_updateIrsImpu_unrefreshed hrefreshed hput
  have hothers : result = put ∧ (put.1 = .error → h₂ = []) := by
    split at hrest
    · rename_i hok
      obtain ⟨_, h₃, h₄, rfl, -, hmappings⟩ := Ran.bind_inv hrest
      obtain ⟨_, h₅, h₆, rfl, -, hret⟩ := Ran.bind_inv hmappings
      obtain ⟨rfl, rfl⟩ := Ran.ret_iff.mp hret
      refine ⟨rfl, fun herror => ?_⟩
      rw [hok] at herror
      cases herror
    · obtain ⟨rfl, rfl⟩ := Ran.ret_iff.mp hrest
      exact ⟨rfl, fun _ => rfl⟩
  obtain ⟨rfl, hlast⟩ := hothers
  refine ⟨hsame, ?_⟩
  rcases hcases with ⟨hstore, hfinds, herror⟩ | ⟨hstore, e, he, hwrite⟩ |
    ⟨⟨r, hr, hfound⟩, e, he, hwrite⟩
  · rw [hlast herror, List.append_nil]
    exact .inl ⟨hstore, hfinds⟩
  · exact .inr (.inl ⟨hstore, e, List.mem_append_left _ he, hwrite⟩)
  · exact .inr (.inr ⟨⟨r, List.mem_append_left _ hr, hfound⟩, e, List.mem_append_left _ he, hwrite⟩)

/-- What the put of an untouched IRS needs in order to write nothing: the IRS is not from the
store, and the default IMPU is found to be associated whenever it is read. -/
def FindsAssociated (irs : Irs) (s : StoreId) (hs : History) : Prop :=
  irs.store ≠ some s ∧ ∀ r : Status × Option Impu,
    ⟨.getImpu s irs.defaultImpu, r⟩ ∈ hs → ∃ a, r.2 = some (.associated a)

theorem FindsAssociated.congr {irs' : Irs} (h : irs.SameRead irs') :
    FindsAssociated irs' s hs ↔ FindsAssociated irs s hs := by
  unfold FindsAssociated
  rw [h.store, h.defaultImpu]

theorem onlyFindsAssociated_of_found (hexisting : irs.existing = true)
    (hrefreshed : irs.refreshed = false) {result : Status × Irs}
    (h : Ran (putIrsAction irs s) hs result) (hfound : FindsAssociated irs s hs) :
    OnlyFindsAssociated s irs.defaultImpu hs := by
  rcases (ran_putIrsAction_untouched hexisting hrefreshed h).2 with
    ⟨-, hfinds⟩ | ⟨hstore, -⟩ | ⟨⟨r, hr, hnone⟩, -⟩
  · exact hfinds
  · exact absurd hstore hfound.1
  · obtain ⟨a, ha⟩ := hfound.2 r hr
    exact absurd ha (hnone a)

theorem reads_iff_findsAssociated (hexisting : irs.existing = true)
    (hrefreshed : irs.refreshed = false) {result : Status × Irs}
    (h : Ran (putIrsAction irs s) hs result) :
    (∀ e ∈ hs, e.1.IsRead) ↔ FindsAssociated irs s hs := by
  constructor
  · intro hreads
    rcases (ran_putIrsAction_untouched hexisting hrefreshed h).2 with
      ⟨hstore, status, a, rfl⟩ | ⟨-, e, he, hwrite⟩ | ⟨-, e, he, hwrite⟩
    · refine ⟨hstore, fun r hr => ⟨a, ?_⟩⟩
      cases List.mem_singleton.mp hr
      rfl
    · exact absurd (hreads e he) hwrite
    · exact absurd (hreads e he) hwrite
  · intro hfound
    obtain ⟨status, a, rfl⟩ := onlyFindsAssociated_of_found hexisting hrefreshed h hfound
    simp [Call.IsRead]

end Untouched

/-! ### The puts of a run -/

/-- One call of `put_irs_action`, for the IRS under `key`: its calls with their answers, and what
it returned. -/
structure IrsPut where
  key : String
  store : StoreId
  irs : Irs
  calls : History
  result : Status × Irs

/-- The puts of `put_ims_sub_action` on the store `s`: every IRS once, in the order of the keys. -/
structure Round (s : StoreId) (sub : ImsSubscription) (puts : List IrsPut) : Prop where
  irss : puts.map (fun p => (p.key, p.irs)) = sub.toList
  ran : ∀ p ∈ puts, p.store = s ∧ Ran (putIrsAction p.irs p.store) p.calls p.result

/-- The subscription with what the puts have left of its IRSs. -/
def ImsSubscription.afterPuts (sub : ImsSubscription) (puts : List IrsPut) : ImsSubscription :=
  puts.foldl (fun sub p => sub.insert p.key p.result.2) sub

/-- The puts on one store after the other. -/
inductive Rounds : List StoreId → ImsSubscription → List IrsPut → Prop
  | nil (sub : ImsSubscription) : Rounds [] sub []
  | cons {s : StoreId} {stores : List StoreId} {sub : ImsSubscription} {puts rest : List IrsPut}
      (round : Round s sub puts) (next : Rounds stores (sub.afterPuts puts) rest) :
      Rounds (s :: stores) sub (puts ++ rest)

theorem ran_round {s : StoreId} {sub : ImsSubscription} {hs : History}
    {result : Status × ImsSubscription} (h : Ran (MemcachedCache.putImsSubAction s sub) hs result) :
    ∃ puts, Round s sub puts ∧ hs = puts.flatMap IrsPut.calls ∧
      result = (.ok, sub.afterPuts puts) := by
  obtain ⟨sub₁, h₁, h₂, rfl, hloop, hret⟩ := Ran.bind_inv h
  obtain ⟨rfl, rfl⟩ := Ran.ret_iff.mp hret
  rw [List.append_nil]
  -- The loop carries the subscription along, and goes over the IRSs that it had at first.
  suffices key : ∀ (irss : List (String × Irs)) (x : ImsSubscription) (hs : History),
      Ran (Prog.forEach irss (fun irs sub => do
        let put ← putIrsAction irs.2 s
        pure (sub.insert irs.1 put.2)) x) hs sub₁ →
      ∃ puts : List IrsPut, puts.map (fun p => (p.key, p.irs)) = irss ∧
        (∀ p ∈ puts, p.store = s ∧ Ran (putIrsAction p.irs p.store) p.calls p.result) ∧
        hs = puts.flatMap IrsPut.calls ∧ sub₁ = ImsSubscription.afterPuts x puts by
    obtain ⟨puts, hirss, hran, hcalls, rfl⟩ := key _ _ _ hloop
    exact ⟨puts, ⟨hirss, hran⟩, hcalls, rfl⟩
  intro irss
  induction irss with
  | nil =>
    intro x hs hloop
    obtain ⟨rfl, rfl⟩ := Ran.ret_iff.mp hloop
    exact ⟨[], rfl, by simp, rfl, rfl⟩
  | cons irs irss ih =>
    intro x hs hloop
    obtain ⟨x₁, h₃, h₄, rfl, hfirst, hrest⟩ := Ran.forEach_cons_iff.mp hloop
    obtain ⟨put, h₅, h₆, rfl, hput, hins⟩ := Ran.bind_inv hfirst
    obtain ⟨rfl, rfl⟩ := Ran.ret_iff.mp hins
    obtain ⟨puts, hmap, hran, rfl, hafter⟩ := ih _ _ hrest
    refine ⟨{ key := irs.1, store := s, irs := irs.2, calls := h₅, result := put } :: puts,
      by simp [hmap], fun p hp => ?_, by simp, hafter⟩
    rcases List.mem_cons.mp hp with rfl | hp
    · exact ⟨rfl, hput⟩
    · exact hran p hp

/-- A call of the store or of the clock. -/
def isStoreCall (e : Event Call Call.Resp) : Bool := !isProgress e

theorem filter_calls {s : StoreId} {sub : ImsSubscription} {puts : List IrsPut}
    (h : Round s sub puts) :
    (puts.flatMap IrsPut.calls).filter isStoreCall = puts.flatMap IrsPut.calls := by
  refine List.filter_eq_self.mpr fun e he => ?_
  obtain ⟨p, hp, he⟩ := List.mem_flatMap.mp he
  have hon := only_putIrsAction.ran (h.ran p hp).2 e he
  unfold isStoreCall isProgress
  cases hcall : e.1 with
  | progressCb =>
    rw [hcall] at hon
    exact hon.elim
  | _ => rfl

theorem ran_remoteRounds {stores : List StoreId} {sub sub' : ImsSubscription} {hs : History}
    (h : Ran (Prog.forEach stores (fun remoteStore sub => do
      let inner ← MemcachedCache.putImsSubAction remoteStore sub
      pure inner.2) sub) hs sub') :
    ∃ puts, Rounds stores sub puts ∧ hs.filter isStoreCall = puts.flatMap IrsPut.calls := by
  induction stores generalizing sub hs with
  | nil =>
    obtain ⟨rfl, -⟩ := Ran.ret_iff.mp h
    exact ⟨[], .nil sub, rfl⟩
  | cons s stores ih =>
    obtain ⟨sub₁, h₁, h₂, rfl, hfirst, hrest⟩ := Ran.forEach_cons_iff.mp h
    obtain ⟨inner, h₃, h₄, rfl, haction, hret⟩ := Ran.bind_inv hfirst
    obtain ⟨rfl, rfl⟩ := Ran.ret_iff.mp hret
    obtain ⟨puts, hround, rfl, rfl⟩ := ran_round haction
    obtain ⟨rest, hrounds, hcalls⟩ := ih hrest
    refine ⟨puts ++ rest, .cons hround hrounds, ?_⟩
    rw [List.append_nil, List.filter_append, filter_calls hround, hcalls, List.flatMap_append]

/-- Every run of `put_ims_subscription` is made of its puts, store by store. -/
theorem ran_rounds {cache : MemcachedCache} {sub : ImsSubscription} {hs : History}
    {result : Status × ImsSubscription} (h : Ran (cache.putImsSubscription sub) hs result) :
    ∃ puts, Rounds (cache.localStore :: cache.remoteStores) sub puts ∧
      hs.filter isStoreCall = puts.flatMap IrsPut.calls := by
  obtain ⟨found, h₁, h₂, rfl, hlocal, hrest⟩ := Ran.bind_inv h
  obtain ⟨puts, hround, rfl, rfl⟩ := ran_round hlocal
  obtain ⟨⟨⟩, h₃, rfl, hremotes⟩ := Ran.call_bind_iff.mp hrest
  obtain ⟨sub₂, h₄, h₅, rfl, hremote, hret⟩ := Ran.bind_inv hremotes
  obtain ⟨rfl, -⟩ := Ran.ret_iff.mp hret
  obtain ⟨rest, hrounds, hcalls⟩ := ran_remoteRounds hremote
  refine ⟨puts ++ rest, .cons hround hrounds, ?_⟩
  have hprogress : isStoreCall ⟨.progressCb, ()⟩ = false := rfl
  rw [List.append_nil, List.filter_append, filter_calls hround, List.filter_cons, hprogress,
    List.flatMap_append]
  simp only [Bool.false_eq_true, if_false, hcalls]

/-- What a round leaves under a key is from a put of the round, or was there before. -/
theorem getElem?_afterPuts {sub : ImsSubscription} {puts : List IrsPut} {key : String} {irs : Irs}
    (h : (sub.afterPuts puts)[key]? = some irs) :
    sub[key]? = some irs ∨ ∃ p ∈ puts, p.key = key ∧ p.result.2 = irs := by
  induction puts generalizing sub with
  | nil => exact .inl h
  | cons p puts ih =>
    rcases ih h with hbefore | ⟨q, hq, hkey, hirs⟩
    · rw [ImsSubscription.getElem?_insert] at hbefore
      split at hbefore
      · rename_i hkey
        exact .inr ⟨p, List.mem_cons_self, hkey.symm, Option.some.inj hbefore⟩
      · exact .inl hbefore
    · exact .inr ⟨q, List.mem_cons_of_mem _ hq, hkey, hirs⟩

/-- The put for a key starts from the IRS under that key. -/
theorem Round.getElem? {s : StoreId} {sub : ImsSubscription} {puts : List IrsPut}
    (h : Round s sub puts) {p : IrsPut} (hp : p ∈ puts) : sub[p.key]? = some p.irs := by
  have hmem : (p.key, p.irs) ∈ sub.toList := by
    rw [← h.irss]
    exact List.mem_map_of_mem hp
  exact Std.ExtTreeMap.mem_toList_iff_getElem?_eq_some.mp hmem

/-- Every put for the key of an IRS that is not refreshed starts from that IRS, up to what the
stores visited before have put into it. -/
theorem Rounds.sameRead {stores : List StoreId} {sub : ImsSubscription} {puts : List IrsPut}
    (h : Rounds stores sub puts) {key : String} {irs : Irs} (hexisting : irs.existing = true)
    (hrefreshed : irs.refreshed = false)
    (hsub : ∀ irs', sub[key]? = some irs' → irs.SameRead irs') {p : IrsPut} (hp : p ∈ puts)
    (hkey : p.key = key) :
    irs.SameRead p.irs ∧ Ran (putIrsAction p.irs p.store) p.calls p.result := by
  induction h with
  | nil sub => cases hp
  | @cons s stores sub puts rest round next ih =>
    have hfirst : ∀ q ∈ puts, q.key = key → irs.SameRead q.irs := by
      intro q hq hqkey
      have hget := round.getElem? hq
      rw [hqkey] at hget
      exact hsub q.irs hget
    rcases List.mem_append.mp hp with hp | hp
    · exact ⟨hfirst p hp hkey, (round.ran p hp).2⟩
    · refine ih (fun irs' hirs' => ?_) hp
      rcases getElem?_afterPuts hirs' with hbefore | ⟨q, hq, hqkey, rfl⟩
      · exact hsub irs' hbefore
      · have hsame := hfirst q hq hqkey
        exact hsame.trans (ran_putIrsAction_untouched (hsame.existing.trans hexisting)
          (hsame.refreshed.trans hrefreshed) (round.ran q hq).2).1

/-! ### Untouched IRSs and single puts -/

/-- `P` holds of every put that is made for an IRS that nobody has changed. -/
def ForUntouched (sub : ImsSubscription) (puts : List IrsPut) (P : Irs → IrsPut → Prop) : Prop :=
  ∀ (key : String) (irs : Irs), sub[key]? = some irs → irs.hasChanged = false →
    ∀ p ∈ puts, p.key = key → P irs p

theorem ForUntouched.congr {sub : ImsSubscription} {puts : List IrsPut} {P Q : Irs → IrsPut → Prop}
    (h : ∀ key irs, sub[key]? = some irs → irs.hasChanged = false →
      ∀ p ∈ puts, p.key = key → (P irs p ↔ Q irs p)) :
    ForUntouched sub puts P ↔ ForUntouched sub puts Q := by
  constructor
  · intro hP key irs hirs hchanged p hp hkey
    exact (h key irs hirs hchanged p hp hkey).mp (hP key irs hirs hchanged p hp hkey)
  · intro hQ key irs hirs hchanged p hp hkey
    exact (h key irs hirs hchanged p hp hkey).mpr (hQ key irs hirs hchanged p hp hkey)

/-- No write or delete is made for an IRS that nobody has changed. -/
def LeavesUntouched (sub : ImsSubscription) (puts : List IrsPut) : Prop :=
  ForUntouched sub puts fun _ p => ∀ e ∈ p.calls, e.1.IsRead

/-- `put_implicit_registration_set` on each IRS of a subscription, in the order of the keys. -/
def putEach (cache : MemcachedCache) (sub : ImsSubscription) : CacheProg Unit :=
  Prog.forEach sub.toList
    (fun entry _ => do
      let _ ← cache.putImplicitRegistrationSet entry.2
      pure ())
    ()

/-- On one reliable store that nobody else uses, the single puts leave what the run `hs` has
left. -/
def AgreesWithSinglePuts (cache : MemcachedCache) (sub : ImsSubscription) (hs : History) : Prop :=
  cache.remoteStores = [] → ∀ w w', Served serve w hs w' → Eval serve (putEach cache sub) w () w'

/-- The progress callback does nothing on the stores. -/
theorem served_storeCalls {hs : History} {w w' : World} (h : Served serve w hs w') :
    Served serve w (hs.filter isStoreCall) w' := by
  induction hs generalizing w with
  | nil => exact h
  | cons e hs ih =>
    obtain ⟨o, r⟩ := e
    cases o with
    | progressCb => exact ih h.2
    | _ => exact ⟨h.1, ih h.2⟩

/-- A single put on one reliable store does what the put of the subscription did. -/
theorem eval_singlePut {cache : MemcachedCache} (hremotes : cache.remoteStores = []) {irs : Irs}
    {hs : History} {result : Status × Irs} (hran : Ran (putIrsAction irs cache.localStore) hs result)
    (huntouched : irs.hasChanged = false → OnlyFindsAssociated cache.localStore irs.defaultImpu hs)
    {w w' : World} (hserved : Served serve w hs w') :
    ∃ put, Eval serve (cache.putImplicitRegistrationSet irs) w put w' := by
  unfold MemcachedCache.putImplicitRegistrationSet
  split
  · obtain ⟨status, irs'⟩ := result
    have haction := hran.eval hserved
    unfold MemcachedCache.perform
    rw [hremotes]
    by_cases hok : status = .ok
    · subst hok
      exact ⟨_, haction.bind ((eval_progressCb w').bind (.ret _ _))⟩
    · refine ⟨(status, irs'), haction.bind ?_⟩
      rw [if_neg hok]
      exact .ret _ _
  · rename_i hchanged
    -- The put of the subscription has only read the record.
    obtain ⟨status, a, rfl⟩ := huntouched (by simpa using hchanged)
    have hw : w' = w := hserved.2
    rw [hw]
    exact ⟨_, (eval_progressCb w).bind (.ret _ _)⟩

/-- A whole round, put by put. -/
theorem eval_singlePuts {cache : MemcachedCache} (hremotes : cache.remoteStores = [])
    {puts : List IrsPut} (hran : ∀ p ∈ puts, Ran (putIrsAction p.irs cache.localStore) p.calls p.result)
    (huntouched : ∀ p ∈ puts, p.irs.hasChanged = false →
      OnlyFindsAssociated cache.localStore p.irs.defaultImpu p.calls)
    {w w' : World} (hserved : Served serve w (puts.flatMap IrsPut.calls) w') :
    Eval serve (Prog.forEach (puts.map fun p => (p.key, p.irs)) (fun entry _ => do
      let _ ← cache.putImplicitRegistrationSet entry.2
      pure ()) ()) w () w' := by
  induction puts generalizing w with
  | nil =>
    have hw : w' = w := hserved
    rw [hw]
    exact .ret _ _
  | cons p puts ih =>
    rw [List.flatMap_cons] at hserved
    obtain ⟨w₁, hfirst, hrest⟩ := Served.append_iff.mp hserved
    obtain ⟨put, hput⟩ := eval_singlePut hremotes (hran p List.mem_cons_self)
      (huntouched p List.mem_cons_self) hfirst
    have hpass := hput.bind (f := fun _ => (pure () : CacheProg Unit)) (.ret () w₁)
    exact hpass.bind (ih (fun q hq => hran q (List.mem_cons_of_mem _ hq))
      (fun q hq => huntouched q (List.mem_cons_of_mem _ hq)) hrest)

/-- The single puts leave what a run on one store has left, if that run found an associated IMPU
for every IRS that nobody has changed. -/
theorem agreesWithSinglePuts_of_found {cache : MemcachedCache} {sub : ImsSubscription}
    {puts : List IrsPut} {hs : History}
    (hrounds : Rounds (cache.localStore :: cache.remoteStores) sub puts)
    (hcalls : hs.filter isStoreCall = puts.flatMap IrsPut.calls)
    (hfound : ForUntouched sub puts fun irs p => FindsAssociated irs p.store p.calls) :
    AgreesWithSinglePuts cache sub hs := by
  intro hremotes w w' hserved
  rw [hremotes] at hrounds
  cases hrounds with
  | @cons s stores sub local' rest round next =>
    cases next with
    | nil =>
      rw [List.append_nil] at hcalls hfound
      have hstores := served_storeCalls hserved
      rw [hcalls] at hstores
      have hran : ∀ p ∈ local', Ran (putIrsAction p.irs cache.localStore) p.calls p.result := by
        intro p hp
        obtain ⟨hstore, hrun⟩ := round.ran p hp
        rwa [hstore] at hrun
      unfold putEach
      rw [← round.irss]
      refine eval_singlePuts hremotes hran (fun p hp hchanged => ?_) hstores
      obtain ⟨hexisting, hrefreshed⟩ := Irs.of_not_hasChanged hchanged
      have hcond : FindsAssociated p.irs p.store p.calls :=
        hfound p.key p.irs (round.getElem? hp) hchanged p hp rfl
      rw [(round.ran p hp).1] at hcond
      exact onlyFindsAssociated_of_found hexisting hrefreshed (hran p hp) hcond

/-- In every run of `put_ims_subscription`, whatever the stores answer: no write is made for the
untouched IRSs, and the contents of one reliable store agree with single puts, if and only if no
untouched IRS is from a store that it is put to and each of them is found to be an associated
IMPU. -/
theorem untouched_unwritten_iff (cache : MemcachedCache) (sub : ImsSubscription) (hs : History)
    (result : Status × ImsSubscription) (h : Ran (cache.putImsSubscription sub) hs result) :
    ∃ puts, Rounds (cache.localStore :: cache.remoteStores) sub puts ∧
      hs.filter isStoreCall = puts.flatMap IrsPut.calls ∧
      (LeavesUntouched sub puts ∧ AgreesWithSinglePuts cache sub hs ↔
        ForUntouched sub puts fun irs p => FindsAssociated irs p.store p.calls) := by
  obtain ⟨puts, hrounds, hcalls⟩ := ran_rounds h
  refine ⟨puts, hrounds, hcalls, ?_⟩
  have hiff : LeavesUntouched sub puts ↔
      ForUntouched sub puts fun irs p => FindsAssociated irs p.store p.calls := by
    refine ForUntouched.congr fun key irs hirs hchanged p hp hkey => ?_
    obtain ⟨hexisting, hrefreshed⟩ := Irs.of_not_hasChanged hchanged
    have hsub : ∀ irs', sub[key]? = some irs' → irs.SameRead irs' := by
      intro irs' hirs'
      rw [hirs] at hirs'
      cases hirs'
      exact .refl irs
    obtain ⟨hsame, hran⟩ := hrounds.sameRead hexisting hrefreshed hsub hp hkey
    exact (reads_iff_findsAssociated (hsame.existing.trans hexisting)
      (hsame.refreshed.trans hrefreshed) hran).trans (FindsAssociated.congr hsame)
  rw [← hiff]
  constructor
  · exact fun h => h.1
  · intro hleaves
    exact ⟨hleaves, agreesWithSinglePuts_of_found hrounds hcalls (hiff.mp hleaves)⟩

/-- A push of charging addresses to the only IRS of a subscription: no IRS is untouched. -/
theorem untouched_unwritten_iff_pushed :
    AgreesWithSinglePuts oneStore pushedSubscription (pushHistory .ok) := by
  obtain ⟨puts, -, -, hiff⟩ := untouched_unwritten_iff oneStore _ _ _
    (ran_pushHistory (show Status.ok ≠ .dataContention by decide))
  refine (hiff.mpr fun key irs hirs hchanged => ?_).2
  have hmem := Std.ExtTreeMap.mem_toList_iff_getElem?_eq_some.mpr hirs
  rw [toList_pushedSubscription, List.mem_singleton] at hmem
  obtain ⟨-, rfl⟩ := Prod.mk.inj hmem
  exact absurd hchanged (by decide)

/-- The subscriber whose registration ends at 1000, read at 400. -/
def restingIrs : Irs := .ofDefaultImpu endingRecord 400

def restingSubscription : ImsSubscription := .ofIrss [restingIrs]

/-- The store that the subscriber was read from, thirty seconds later. -/
def restingWorld : World :=
  { World.ofTables [("sip:d@example.com", (Impu.default endingRecord).toData)] [] with
    clock := fun _ => 430 }

/-- The put of the subscription. -/
def rewriteHistory : History :=
  [⟨.time, (430 : Int)⟩, ⟨.setImpu 0 (.default (restingIrs.createImpu 1 (some 0) 430)), Status.ok⟩,
    ⟨.progressCb, ()⟩]

theorem toList_restingSubscription :
    restingSubscription.toList = [("sip:d@example.com", restingIrs)] := by
  rfl

theorem ran_rewriteHistory : ∃ result,
    Ran (oneStore.putImsSubscription restingSubscription) rewriteHistory result := by
  have hput : Ran (putIrsAction restingIrs 0) [⟨.time, (430 : Int)⟩,
      ⟨.setImpu 0 (.default (restingIrs.createImpu 1 (some 0) 430)), Status.ok⟩] (.ok, restingIrs) :=
    .call (.unroll (.call (.ret _)))
  exact ⟨_, ran_putImsSubscription_one toList_restingSubscription hput⟩

/-- Nobody has changed the only IRS of the subscription, and it is read from and put to one
reliable store. Its put writes the record, with an expiry of 1030, and the single put does not. -/
theorem untouched_rewritten :
    restingIrs.hasChanged = false ∧
      (∃ result, Ran (oneStore.putImsSubscription restingSubscription) rewriteHistory result) ∧
      (∀ puts, Rounds [0] restingSubscription puts →
        rewriteHistory.filter isStoreCall = puts.flatMap IrsPut.calls →
        ¬ LeavesUntouched restingSubscription puts) ∧
      ¬ AgreesWithSinglePuts oneStore restingSubscription rewriteHistory := by
  refine ⟨by decide, ran_rewriteHistory, fun puts hrounds hcalls hleaves => ?_, fun hagrees => ?_⟩
  · -- The write is a call of one of the puts, and every put is for the IRS.
    have hwrite : (⟨.setImpu 0 (.default (restingIrs.createImpu 1 (some 0) 430)), Status.ok⟩ :
        Event Call Call.Resp) ∈ puts.flatMap IrsPut.calls := by
      rw [← hcalls]
      exact List.mem_cons_of_mem _ List.mem_cons_self
    obtain ⟨p, hp, hmem⟩ := List.mem_flatMap.mp hwrite
    cases hrounds with
    | cons round next =>
      cases next with
      | nil =>
        rw [List.append_nil] at hp hleaves
        have hirs := round.getElem? hp
        have hentry := Std.ExtTreeMap.mem_toList_iff_getElem?_eq_some.mpr hirs
        rw [toList_restingSubscription, List.mem_singleton] at hentry
        have hchanged : p.irs.hasChanged = false := by
          rw [(Prod.mk.inj hentry).2]
          decide
        exact hleaves p.key p.irs hirs hchanged p hp rfl _ hmem
  · -- Putting the IRS alone would write nothing, and this run wrote a later expiry.
    have hserved : Served serve restingWorld rewriteHistory
        ((restingWorld.tick.casImpu 0 (.default (restingIrs.createImpu 1 (some 0) 430)) 1).2) :=
      ⟨rfl, rfl, rfl, rfl⟩
    have hsingle := hagrees rfl _ _ hserved
    have hnothing : Eval serve (putEach oneStore restingSubscription) restingWorld () restingWorld := by
      unfold putEach
      rw [toList_restingSubscription]
      exact .call (.ret _ _)
    have hsame := (hsingle.det hnothing).2
    have hexpiry := congrArg (fun w : World =>
      ((w.stores 0).defaultAt "sip:d@example.com").map (·.expiry)) hsame
    exact absurd hexpiry (by decide)

end Homestead
