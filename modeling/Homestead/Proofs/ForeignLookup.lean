import Homestead.Proofs.Answers
import Homestead.Proofs.SoloGet

/-!
# `Homestead.Proofs.ForeignLookup`: whose IRS a lookup returns

The lookup of an IMPU reads up to two keys, each in the local store and then in the remote
stores. A read gives here what the store holds at some time, or fails. What the stores hold need
not be consistent, and may change between the reads.

`ran_getImpuForImpuGr` says that the answer of one hop is the answer of one of its reads.
`lookup_not_foreign` follows for the two hops.
-/

set_option autoImplicit false

namespace Homestead

open CacheProg

/-- The stores of the cache. -/
def MemcachedCache.stores (cache : MemcachedCache) : List StoreId :=
  cache.localStore :: cache.remoteStores

section OneHop

variable {cache : MemcachedCache} {key : String}

/-- The reads of the remote stores. The answer is the one before them or one of theirs. -/
theorem ran_remoteReads {rs : List StoreId} {found r : Status × Option Impu} {hs : History}
    (h : Ran (Prog.forEach rs
      (fun remoteStore found => do
        let remote ← getImpu remoteStore key
        if found.1 ≠ .ok ∧ remote.1 = .ok then pure remote else pure found) found) hs r) :
    r = found ∨ ∃ s ∈ rs, ⟨.getImpu s key, r⟩ ∈ hs := by
  induction rs generalizing found hs with
  | nil =>
    obtain ⟨-, rfl⟩ := Ran.ret_iff.mp h
    exact .inl rfl
  | cons s rs ih =>
    obtain ⟨found₁, h₁, h₂, rfl, hread, hrest⟩ := Ran.forEach_cons_iff.mp h
    obtain ⟨(remote : Status × Option Impu), h₃, rfl, hpick⟩ := Ran.call_bind_iff.mp hread
    have hbranch : Ran (if found.1 ≠ .ok ∧ remote.1 = .ok then
        (pure remote : CacheProg (Status × Option Impu)) else pure found) h₃ found₁ := hpick
    have hfound₁ : found₁ = remote ∨ found₁ = found := by
      split at hbranch
      · exact .inl (Ran.ret_iff.mp hbranch).2
      · exact .inr (Ran.ret_iff.mp hbranch).2
    rcases ih hrest with rfl | ⟨s', hs', hmem⟩
    · rcases hfound₁ with rfl | rfl
      · exact .inr ⟨s, List.mem_cons_self, by simp⟩
      · exact .inl rfl
    · exact .inr ⟨s', List.mem_cons_of_mem _ hs', by simp [hmem]⟩

/-- `get_impu_for_impu_gr` answers what one of its reads answered, and what the local store
answered unless that is `NOT_FOUND`. -/
theorem ran_getImpuForImpuGr {r : Status × Option Impu} {hs : History}
    (h : Ran (cache.getImpuForImpuGr key) hs r) :
    (∃ s ∈ cache.stores, ⟨.getImpu s key, r⟩ ∈ hs) ∧
      ∃ r₀, ⟨.getImpu cache.localStore key, r₀⟩ ∈ hs ∧ (r₀.1 ≠ .notFound → r = r₀) := by
  obtain ⟨(r₀ : Status × Option Impu), hs₁, rfl, hrest⟩ := Ran.call_bind_iff.mp h
  have hlocal : (⟨.getImpu cache.localStore key, r₀⟩ : Event Call Call.Resp) ∈
    (⟨.getImpu cache.localStore key, r₀⟩ : Event Call Call.Resp) :: hs₁ := List.mem_cons_self
  have hbranch : Ran (if r₀.1 = .notFound then _ else _) hs₁ r := hrest
  split at hbranch
  · -- Only `NOT_FOUND` leads to the remote stores.
    rename_i hnone
    refine ⟨?_, r₀, hlocal, fun hne => absurd hnone hne⟩
    rcases ran_remoteReads hbranch with rfl | ⟨s, hs, hmem⟩
    · exact ⟨cache.localStore, List.mem_cons_self, hlocal⟩
    · exact ⟨s, List.mem_cons_of_mem _ hs, List.mem_cons_of_mem _ hmem⟩
  · obtain ⟨rfl, rfl⟩ := Ran.ret_iff.mp hbranch
    exact ⟨⟨cache.localStore, List.mem_cons_self, hlocal⟩, r, hlocal, fun _ => rfl⟩

theorem loopless_getImpuForImpuGr (cache : MemcachedCache) (key : String) :
    Loopless (cache.getImpuForImpuGr key) := by
  refine .call fun (r₀ : Status × Option Impu) => ?_
  show Loopless (if r₀.1 = .notFound then _ else _)
  split
  · refine .forEach (fun s found => .call fun (remote : Status × Option Impu) => ?_) _ _
    show Loopless (if found.1 ≠ .ok ∧ remote.1 = .ok then
      (pure remote : CacheProg (Status × Option Impu)) else pure found)
    split <;> exact .ret _
  · exact .ret _

end OneHop

/-! ### Both hops -/

/-- The answer to a read: what the store holds under the key at some time, or a failure. -/
def ReadsFrom (held : World → Prop) (s : StoreId) (key : String) (r : Status × Option Impu) : Prop :=
  (∃ w, held w ∧ r = (w.stores s).getImpu s key) ∨ r.1 ≠ .ok ∧ r.2 = none

/-- Every read of the run is answered that way. -/
def ReadsHeld (held : World → Prop) (hs : History) : Prop :=
  ∀ s key r, ⟨.getImpu s key, r⟩ ∈ hs → ReadsFrom held s key r

/-- A store holds the record of a default IMPU at some time. -/
def Holds (held : World → Prop) (s : StoreId) (d : DefaultImpu) : Prop :=
  ∃ w, held w ∧ (w.stores s).getImpu s d.impu = (.ok, some (.default d))

section TwoHops

variable {cache : MemcachedCache} {held : World → Prop} {impu : String}

/-- A read gives a record with `OK` and none otherwise. -/
theorem ReadsFrom.cases {s : StoreId} {key : String} {r : Status × Option Impu}
    (h : ReadsFrom held s key r) : (∃ found, r = (.ok, some found)) ∨ r.1 ≠ .ok ∧ r.2 = none := by
  rcases h with ⟨w, -, rfl⟩ | hfails
  · have hanswer := (w.stores s).isAnswer_getImpu s key
    generalize (w.stores s).getImpu s key = r at hanswer ⊢
    cases hanswer with
    | found a => exact .inl ⟨a, rfl⟩
    | notFound => exact .inr ⟨by decide, rfl⟩
    | error => exact .inr ⟨by decide, rfl⟩
  · exact .inr hfails

/-- The record of a default IMPU is read under its own key. -/
theorem ReadsFrom.holds {s : StoreId} {key : String} {d : DefaultImpu}
    (h : ReadsFrom held s key (.ok, some (.default d))) : d.impu = key ∧ Holds held s d := by
  rcases h with ⟨w, hw, hread⟩ | ⟨hne, -⟩
  · obtain ⟨cas, data, -, hd⟩ := ImpuStore.cells_of_getImpu hread.symm
    have hkey : d.impu = key := by
      cases data with
      | default data =>
        cases hd
        rfl
      | associated _ _ => cases hd
    exact ⟨hkey, w, hw, by rw [hkey, ← hread]⟩
  · exact absurd rfl hne

/-- The record that the lookup builds its IRS from, if it has one. -/
def ReadFor (cache : MemcachedCache) (held : World → Prop) (impu : String) (d : DefaultImpu) : Prop :=
  (d.impu = impu ∨ d.hasAssociatedImpu impu = true) ∧ ∃ s ∈ cache.stores, Holds held s d

theorem ran_getDefaultImpuForImpu {status : Status} {found : Option DefaultImpu} {hs : History}
    (h : Ran (cache.getDefaultImpuForImpu impu) hs (status, found)) (hheld : ReadsHeld held hs) :
    status = .ok ∧ (∃ d, found = some d ∧ ReadFor cache held impu d) ∨ status ≠ .ok ∧ found = none := by
  obtain ⟨⟨status₁, data⟩, h₁, h₂, rfl, hfirst, hrest⟩ := Ran.bind_inv h
  obtain ⟨⟨s₁, hs₁, hmem₁⟩, -⟩ := ran_getImpuForImpuGr hfirst
  have hread₁ := hheld _ _ _ (List.mem_append_left _ hmem₁)
  rcases hread₁.cases with ⟨record, hrecord⟩ | ⟨hne, hnone⟩
  · obtain ⟨rfl, rfl⟩ := Prod.mk.inj hrecord
    cases record with
    | default d =>
      obtain ⟨rfl, hst⟩ := Ran.ret_iff.mp hrest
      obtain ⟨rfl, rfl⟩ := Prod.mk.inj hst
      obtain ⟨hkey, hholds⟩ := hread₁.holds
      exact .inl ⟨rfl, d, rfl, .inl hkey, s₁, hs₁, hholds⟩
    | associated a =>
      -- The second hop reads the key that the associated IMPU points at.
      obtain ⟨⟨status₂, target⟩, h₃, h₄, rfl, hsecond, hcheck⟩ := Ran.bind_inv hrest
      obtain ⟨rfl, hst⟩ := Ran.ret_iff.mp hcheck
      obtain ⟨⟨s₂, hs₂, hmem₂⟩, -⟩ := ran_getImpuForImpuGr hsecond
      have hread₂ := hheld _ _ _ (List.mem_append_right _ (List.mem_append_left _ hmem₂))
      rcases hread₂.cases with ⟨record, hrecord⟩ | ⟨hne, hnone⟩
      · obtain ⟨rfl, rfl⟩ := Prod.mk.inj hrecord
        cases record with
        | default d =>
          -- The check that the record lists the IMPU looked up.
          have hif : (status, found) = if d.hasAssociatedImpu impu then (.ok, some d)
            else (.notFound, none) := hst
          split at hif
          · rename_i hlists
            obtain ⟨rfl, rfl⟩ := Prod.mk.inj hif
            exact .inl ⟨rfl, d, rfl, .inr hlists, s₂, hs₂, hread₂.holds.2⟩
          · obtain ⟨rfl, rfl⟩ := Prod.mk.inj hif
            exact .inr ⟨by decide, rfl⟩
        | associated a' =>
          obtain ⟨rfl, rfl⟩ := Prod.mk.inj hst
          exact .inr ⟨by decide, rfl⟩
      · cases status₂ with
        | ok => exact absurd rfl hne
        | notFound | dataContention | error =>
          obtain ⟨rfl, rfl⟩ := Prod.mk.inj hst
          exact .inr ⟨by decide, rfl⟩
  · cases status₁ with
    | ok => exact absurd rfl hne
    | notFound | dataContention | error =>
      obtain ⟨rfl, hst⟩ := Ran.ret_iff.mp hrest
      obtain ⟨rfl, rfl⟩ := Prod.mk.inj hst
      exact .inr ⟨by decide, rfl⟩

/-- The local store holds the record `d` for `impu` all the time: under `impu` itself, or under
the default IMPU that the associated IMPU `impu` points at, and then `d` lists `impu`. -/
def LocalHolds (cache : MemcachedCache) (held : World → Prop) (impu : String) (d : DefaultImpu) :
    Prop :=
  (∀ w, held w → (w.stores cache.localStore).getImpu cache.localStore impu
    = (.ok, some (.default d))) ∨
  ∃ a : AssociatedImpu, d.hasAssociatedImpu impu = true ∧ ∀ w, held w →
    (w.stores cache.localStore).getImpu cache.localStore impu = (.ok, some (.associated a)) ∧
    (w.stores cache.localStore).getImpu cache.localStore a.defaultImpu = (.ok, some (.default d))

/-- The local store answers every read of the run with what it holds. -/
def LocalAnswers (cache : MemcachedCache) (held : World → Prop) (hs : History) : Prop :=
  ∀ key r, ⟨.getImpu cache.localStore key, r⟩ ∈ hs →
    ∃ w, held w ∧ r = (w.stores cache.localStore).getImpu cache.localStore key

/-- One hop to a key that the local store has. -/
theorem ran_getImpuForImpuGr_local {key : String} {record : Impu} {r : Status × Option Impu}
    {hs hs' : History} (h : Ran (cache.getImpuForImpuGr key) hs r) (hsub : ∀ e ∈ hs, e ∈ hs')
    (hlocal : LocalAnswers cache held hs') (hholds : ∀ w, held w →
      (w.stores cache.localStore).getImpu cache.localStore key = (.ok, some record)) :
    r = (.ok, some record) := by
  obtain ⟨-, r₀, hmem, heq⟩ := ran_getImpuForImpuGr h
  obtain ⟨w, hw, rfl⟩ := hlocal key r₀ (hsub _ hmem)
  rw [hholds w hw] at heq
  exact heq (by simp)

theorem ran_getDefaultImpuForImpu_local {d : DefaultImpu} {r : Status × Option DefaultImpu}
    {hs : History} (h : Ran (cache.getDefaultImpuForImpu impu) hs r)
    (hlocal : LocalAnswers cache held hs) (hholds : LocalHolds cache held impu d) :
    r = (.ok, some d) := by
  obtain ⟨data, h₁, h₂, rfl, hfirst, hrest⟩ := Ran.bind_inv h
  have hsub₁ : ∀ e ∈ h₁, e ∈ h₁ ++ h₂ := fun e he => List.mem_append_left _ he
  rcases hholds with hdirect | ⟨a, hlists, hhops⟩
  · rw [ran_getImpuForImpuGr_local hfirst hsub₁ hlocal hdirect] at hrest
    exact (Ran.ret_iff.mp hrest).2
  · -- Both hops end at the local store, and the check is passed.
    rw [ran_getImpuForImpuGr_local hfirst hsub₁ hlocal fun w hw => (hhops w hw).1] at hrest
    obtain ⟨target, h₃, h₄, rfl, hsecond, hcheck⟩ := Ran.bind_inv hrest
    have hsub₂ : ∀ e ∈ h₃, e ∈ h₁ ++ (h₃ ++ h₄) := fun e he =>
      List.mem_append_right _ (List.mem_append_left _ he)
    rw [ran_getImpuForImpuGr_local hsecond hsub₂ hlocal fun w hw => (hhops w hw).2] at hcheck
    rw [(Ran.ret_iff.mp hcheck).2]
    show (if d.hasAssociatedImpu impu then _ else _) = _
    rw [if_pos hlists]

end TwoHops

/-! ### The IRS -/

/-- What the getters of the IRS return is what the record has. -/
structure Shows (irs : Irs) (d : DefaultImpu) : Prop where
  defaultImpu : irs.defaultImpu = d.impu
  serviceProfile : irs.imsSubXml = d.serviceProfile
  chargingAddresses : irs.chargingAddresses = d.chargingAddresses
  registrationState : irs.registrationState = d.registrationState
  associatedImpus : ∀ x, x ∈ irs.getAssociatedImpus ↔ x ∈ d.associatedImpus
  impis : ∀ x, x ∈ irs.getAssociatedImpis ↔ x ∈ d.impis

theorem shows_ofDefaultImpu (d : DefaultImpu) (now : Int) : Shows (.ofDefaultImpu d now) d where
  defaultImpu := rfl
  serviceProfile := rfl
  chargingAddresses := rfl
  registrationState := rfl
  associatedImpus := fun _ => Data.mem_present_ofStored
  impis := fun _ => Data.mem_present_ofStored

/-- The last step of the lookup builds the IRS from the record. -/
theorem ran_getImplicitRegistrationSetForImpu {cache : MemcachedCache} {impu : String}
    {status : Status} {result : Option Irs} {hs : History}
    (h : Ran (cache.getImplicitRegistrationSetForImpu impu) hs (status, result)) :
    ∃ (h₁ h₂ : History) (status₁ : Status) (found : Option DefaultImpu), hs = h₁ ++ h₂ ∧
      Ran (cache.getDefaultImpuForImpu impu) h₁ (status₁, found) ∧
      ((∃ d now, status₁ = .ok ∧ found = some d ∧ status = .ok ∧
        result = some (Irs.ofDefaultImpu d now)) ∨
        (status₁ ≠ .ok ∨ found = none) ∧ status = status₁ ∧ result = none) := by
  obtain ⟨⟨status₁, found⟩, h₁, h₂, rfl, hfound, hrest⟩ := Ran.bind_inv h
  refine ⟨h₁, h₂, status₁, found, rfl, hfound, ?_⟩
  cases status₁ with
  | ok =>
    cases found with
    | none =>
      obtain ⟨-, hst⟩ := Ran.ret_iff.mp hrest
      obtain ⟨rfl, rfl⟩ := Prod.mk.inj hst
      exact .inr ⟨.inr rfl, rfl, rfl⟩
    | some d =>
      obtain ⟨now, h₃, rfl, hret⟩ := Ran.call_bind_iff.mp hrest
      obtain ⟨-, hst⟩ := Ran.ret_iff.mp hret
      obtain ⟨rfl, rfl⟩ := Prod.mk.inj hst
      exact .inl ⟨d, now, rfl, rfl, rfl, rfl⟩
  | notFound | dataContention | error =>
    obtain ⟨-, hst⟩ := Ran.ret_iff.mp hrest
    obtain ⟨rfl, rfl⟩ := Prod.mk.inj hst
    exact .inr ⟨.inl (by decide), rfl, rfl⟩

theorem loopless_getImplicitRegistrationSetForImpu (cache : MemcachedCache) (impu : String) :
    Loopless (cache.getImplicitRegistrationSetForImpu impu) := by
  have hdefault : Loopless (cache.getDefaultImpuForImpu impu) := by
    refine (loopless_getImpuForImpuGr cache impu).bind fun data => ?_
    obtain ⟨_ | _ | _ | _, _ | d | a⟩ := data
    case ok.some.associated => exact (loopless_getImpuForImpuGr cache _).bind fun _ => .ret _
    all_goals exact .ret _
  refine hdefault.bind fun found => ?_
  obtain ⟨_ | _ | _ | _, _ | d⟩ := found
  case ok.some => exact .call fun _ => .ret _
  all_goals exact .ret _

/-- Whatever the stores hold and whichever reads fail, the lookup of an IMPU returns. With `OK` it
returns an IRS that shows a record held under its default IMPU by one of the stores, and the IMPU
is that default IMPU or one of its associated IMPUs. With another status it returns no IRS. If
the local store answers and holds the record for the IMPU, the lookup returns that record. -/
theorem lookup_not_foreign {V : Type} (h : Handler Call Call.Resp V) (v : V)
    (cache : MemcachedCache) (impu : String) (held : World → Prop)
    (hreads : ∀ s key v, ReadsFrom held s key (h (.getImpu s key) v).1) :
    ∃ status result v', Eval h (cache.getImplicitRegistrationSetForImpu impu) v (status, result) v' ∧
      (status = .ok → ∃ irs d, result = some irs ∧ Shows irs d ∧
        (irs.defaultImpu = impu ∨ impu ∈ irs.getAssociatedImpus) ∧
        ∃ s ∈ cache.stores, Holds held s d) ∧
      (status ≠ .ok → result = none) ∧
      ∀ d, LocalHolds cache held impu d →
        (∀ key v, ∃ w, held w ∧ (h (.getImpu cache.localStore key) v).1
          = (w.stores cache.localStore).getImpu cache.localStore key) →
        status = .ok ∧ ∃ irs, result = some irs ∧ Shows irs d := by
  -- The run, and its reads with their answers.
  obtain ⟨⟨status, result⟩, v', heval⟩ :=
    (loopless_getImplicitRegistrationSetForImpu cache impu).eval h v
  obtain ⟨hs, hran, hanswers⟩ := heval.ran
  have hheld : ReadsHeld held hs := by
    intro s key r hmem
    obtain ⟨v₁, hr⟩ := hanswers _ hmem
    have hr : r = (h (.getImpu s key) v₁).1 := hr
    rw [hr]
    exact hreads s key v₁
  obtain ⟨h₁, h₂, status₁, found, rfl, hfound, hirs⟩ := ran_getImplicitRegistrationSetForImpu hran
  have hfirst := ran_getDefaultImpuForImpu hfound
    fun s key r hmem => hheld s key r (List.mem_append_left _ hmem)
  refine ⟨status, result, v', heval, ?_, ?_, ?_⟩
  · rintro rfl
    rcases hirs with ⟨d, now, rfl, rfl, -, rfl⟩ | ⟨hnot, rfl, -⟩
    · rcases hfirst with ⟨-, d', hd', hkey, hholds⟩ | ⟨hne, -⟩
      · obtain rfl := Option.some.inj hd'
        have hshows := shows_ofDefaultImpu d now
        refine ⟨_, d, rfl, hshows, ?_, hholds⟩
        rw [hshows.associatedImpus]
        exact hkey.imp id of_decide_eq_true
      · exact absurd rfl hne
    · rcases hfirst with ⟨-, d', rfl, -⟩ | ⟨hne, -⟩
      · rcases hnot with hne | hnone
        · exact absurd rfl hne
        · cases hnone
      · exact absurd rfl hne
  · intro hne
    rcases hirs with ⟨d, now, -, -, hok, -⟩ | ⟨-, -, hnone⟩
    · exact absurd hok hne
    · exact hnone
  · intro d hholds hexact
    have hlocal : LocalAnswers cache held h₁ := by
      intro key r hmem
      obtain ⟨v₁, hr⟩ := hanswers _ (List.mem_append_left _ hmem)
      have hr : r = (h (.getImpu cache.localStore key) v₁).1 := hr
      rw [hr]
      exact hexact key v₁
    obtain ⟨rfl, rfl⟩ := Prod.mk.inj (ran_getDefaultImpuForImpu_local hfound hlocal hholds)
    rcases hirs with ⟨d', now, -, hd', hok, rfl⟩ | ⟨hnot, -, -⟩
    · obtain rfl := Option.some.inj hd'
      exact ⟨hok, _, rfl, shows_ofDefaultImpu d now⟩
    · rcases hnot with hne | hnone
      · exact absurd rfl hne
      · cases hnone

/-- The local store holds an alias and the record that it points at. -/
def aliasWorld : World :=
  .ofTables
    [("sip:x@example.com", .associated "sip:d@example.com" 100),
     ("sip:d@example.com", .default
      { registrationState := true, serviceProfile := "profile", expiry := 100,
        assocImpu := ["sip:x@example.com"], impis := [], ecfs := [], ccfs := [] })] []

/-- Stores that answer every call as they do at `w`, and in which nothing changes. -/
def frozen (w : World) : Handler Call Call.Resp Unit := fun o _ => ((serve o w).1, ())

theorem lookup_not_foreign_alias :
    ∃ irs v', Eval (frozen aliasWorld)
        (MemcachedCache.getImplicitRegistrationSetForImpu { localStore := 0, remoteStores := [] }
          "sip:x@example.com") () (.ok, some irs) v' ∧
      irs.defaultImpu = "sip:d@example.com" ∧ "sip:x@example.com" ∈ irs.getAssociatedImpus := by
  obtain ⟨status, result, v', heval, -, -, hlocal⟩ := lookup_not_foreign (frozen aliasWorld) ()
    { localStore := 0, remoteStores := [] } "sip:x@example.com" (· = aliasWorld)
    fun s key v => .inl ⟨aliasWorld, rfl, rfl⟩
  obtain ⟨rfl, irs, rfl, hshows⟩ := hlocal
    { impu := "sip:d@example.com", associatedImpus := ["sip:x@example.com"], impis := [],
      registrationState := .registered, chargingAddresses := {}, serviceProfile := "profile",
      cas := 2, expiry := 100, store := some 0 }
    (.inr ⟨⟨"sip:x@example.com", "sip:d@example.com", 1, 100, some 0⟩, by decide,
      by rintro w rfl; decide⟩)
    fun key v => ⟨aliasWorld, rfl, rfl⟩
  exact ⟨irs, v', heval, hshows.defaultImpu, (hshows.associatedImpus _).mpr (by decide)⟩

end Homestead
