import Homestead.Model.DiameterTasks
import Homestead.Proofs.TaskRuns
import Mathlib.Data.List.Induction

/-!
# `Homestead.Proofs.PushScope`: what a profile push may change

A Push-Profile request may carry a document, charging addresses or both. `on_get_ims_sub_success`
looks for the IRS under the default identity of the document, and `set_ims_sub_xml` parses the
document again and sets the default IMPU of that IRS. `PushScope` says that the subscription that
is put is the one that was read, key by key, up to what the request carries.

`put_ims_sub_action` never fails, so a push that is answered with a failure has queued no put.
`push_scope` says both for every run, finished or not.
-/

set_option autoImplicit false

namespace Homestead

open Std

namespace ImsSubscription

/-- Every IRS is kept under its default IMPU. -/
def Keyed (sub : ImsSubscription) : Prop :=
  ∀ (key : String) (irs : Irs), sub[key]? = some irs → irs.defaultImpu = key

theorem keyed_ofIrss (irss : List Irs) : (ofIrss irss).Keyed := by
  suffices key : ∀ sub : ImsSubscription, sub.Keyed →
      (irss.foldl (fun sub irs => sub.insert irs.defaultImpu irs) sub).Keyed from
    key ∅ (by simp [Keyed])
  induction irss with
  | nil => exact fun sub h => h
  | cons irs irss ih =>
    refine fun sub h => ih _ ?_
    intro key irs' hirs'
    rw [getElem?_insert] at hirs'
    split at hirs'
    · rename_i hkey
      rw [← Option.some.inj hirs', hkey]
    · exact h key irs' hirs'

end ImsSubscription

/-- A lookup of a subscription finds one that is keyed. -/
theorem ran_getImsSubscription {cache : MemcachedCache} {impi : String} {hs : History}
    {sub : ImsSubscription} (h : Ran (cache.getImsSubscription impi) hs (.ok, some sub)) :
    sub.Keyed := by
  obtain ⟨found, h₁, h₂, rfl, -, hrest⟩ := Ran.bind_inv h
  obtain ⟨_ | _ | _ | _, _ | mapping⟩ := found
  case ok.some =>
    obtain ⟨irss, h₃, h₄, rfl, -, hret⟩ := Ran.bind_inv hrest
    have hbranch : Ran (if irss.1 = .ok then _ else _) h₄ (Status.ok, some sub) := hret
    split at hbranch
    · obtain ⟨-, hsub⟩ := Ran.ret_iff.mp hbranch
      obtain ⟨-, hsub⟩ := Prod.mk.inj hsub
      rw [Option.some.inj hsub]
      exact ImsSubscription.keyed_ofIrss irss.2
    · obtain ⟨-, hsub⟩ := Ran.ret_iff.mp hbranch
      cases (Prod.mk.inj hsub).2
  all_goals
    obtain ⟨-, hsub⟩ := Ran.ret_iff.mp hrest
    cases (Prod.mk.inj hsub).2

/-- A put of a subscription never fails. -/
theorem ran_putImsSubscription {cache : MemcachedCache} {sub : ImsSubscription} {hs : History}
    {result : Status × ImsSubscription} (h : Ran (cache.putImsSubscription sub) hs result) :
    result.1 = .ok := by
  obtain ⟨status, sub'⟩ := result
  obtain ⟨pre, sub₁, hlocal, -⟩ := ran_perform only_putImsSubAction h
  exact (ran_putImsSubAction hlocal).1

/-! ### The scope of a push -/

section Scope

variable (px : XmlParser) (ppr : Ppr)

/-- The request carries a document whose default identity is `key`. -/
def Ppr.Names (key : String) : Prop := ∃ xml, ppr.userData = some xml ∧ px.getDefaultId xml "" = key

/-- What a push does to the IRS that was read under `key`. -/
structure IrsScope (key : String) (irs irs' : Irs) : Prop where
  readUnder : irs.defaultImpu = key
  defaultImpu : irs'.defaultImpu = key
  profile : ¬ ppr.Names px key → irs'.imsSubXml = irs.imsSubXml ∧
    irs'.imsSubXmlSet = irs.imsSubXmlSet ∧ irs'.associatedImpus = irs.associatedImpus
  pushed : ∀ xml, ppr.userData = some xml → px.getDefaultId xml "" = key → irs'.imsSubXml = xml
  charging : ppr.chargingAddrs = none → irs'.chargingAddresses = irs.chargingAddresses ∧
    irs'.chargingAddressesSet = irs.chargingAddressesSet
  charged : ∀ addresses, ppr.chargingAddrs = some addresses → irs'.chargingAddresses = addresses

/-- The subscription `sub'` that a push puts, after it has read `sub`. A document goes to an IRS
of the subscription. -/
structure PushScope (sub sub' : ImsSubscription) : Prop where
  known : ∀ xml, ppr.userData = some xml → ∃ irs, sub[px.getDefaultId xml ""]? = some irs
  kept : ∀ (key : String) (irs : Irs), sub[key]? = some irs → ∃ irs', sub'[key]? = some irs'
  scope : ∀ (key : String) (irs' : Irs), sub'[key]? = some irs' →
    ∃ irs, sub[key]? = some irs ∧ IrsScope px ppr key irs irs'

variable {px ppr} {sub : ImsSubscription}

/-- The document and the charging addresses reach an IRS one after the other. -/
theorem IrsScope.of_parts {key : String} {irs irs' : Irs} (hread : irs.defaultImpu = key)
    (h : (¬ ppr.Names px key ∧ irs' = irs) ∨
      ∃ xml, ppr.userData = some xml ∧ px.getDefaultId xml "" = key ∧ irs' = irs.setImsSubXml px xml) :
    (ppr.chargingAddrs = none → IrsScope px ppr key irs irs') ∧
      ∀ addresses, ppr.chargingAddrs = some addresses →
        IrsScope px ppr key irs (irs'.setChargingAddresses addresses) := by
  have hdefault : irs'.defaultImpu = key := by
    rcases h with ⟨-, rfl⟩ | ⟨xml, -, hkey, rfl⟩
    · exact hread
    · exact hkey
  have hprofile : ¬ ppr.Names px key → irs' = irs := by
    rintro hnames
    rcases h with ⟨-, heq⟩ | ⟨xml, hxml, hkey, -⟩
    · exact heq
    · exact absurd ⟨xml, hxml, hkey⟩ hnames
  have hpushed : ∀ xml, ppr.userData = some xml → px.getDefaultId xml "" = key →
      irs'.imsSubXml = xml := by
    rintro xml hxml hkey
    rcases h with ⟨hnames, -⟩ | ⟨xml', hxml', -, rfl⟩
    · exact absurd ⟨xml, hxml, hkey⟩ hnames
    · rw [hxml'] at hxml
      exact Option.some.inj hxml
  have hcharging : irs'.chargingAddresses = irs.chargingAddresses ∧
      irs'.chargingAddressesSet = irs.chargingAddressesSet := by
    rcases h with ⟨-, rfl⟩ | ⟨xml, -, -, rfl⟩ <;> exact ⟨rfl, rfl⟩
  -- The charging addresses are the last thing that is set.
  constructor
  · intro hnone
    exact
      { readUnder := hread
        defaultImpu := hdefault
        profile := fun hnames => by rw [hprofile hnames]; exact ⟨rfl, rfl, rfl⟩
        pushed := hpushed
        charging := fun _ => hcharging
        charged := fun addresses hsome => by rw [hnone] at hsome; cases hsome }
  · intro addresses hsome
    exact
      { readUnder := hread
        defaultImpu := hdefault
        profile := fun hnames => by rw [hprofile hnames]; exact ⟨rfl, rfl, rfl⟩
        pushed := hpushed
        charging := fun hnone => by rw [hnone] at hsome; cases hsome
        charged := fun addresses' hsome' => by
          rw [hsome] at hsome'
          exact Option.some.inj hsome' }

/-- The subscription with the document of the push in its place. -/
structure Documented (px : XmlParser) (ppr : Ppr) (sub sub₁ : ImsSubscription) : Prop where
  known : ∀ xml, ppr.userData = some xml → ∃ irs, sub[px.getDefaultId xml ""]? = some irs
  kept : ∀ (key : String) (irs : Irs), sub[key]? = some irs → ∃ irs', sub₁[key]? = some irs'
  parts : ∀ (key : String) (irs' : Irs), sub₁[key]? = some irs' → ∃ irs, sub[key]? = some irs ∧
    ((¬ ppr.Names px key ∧ irs' = irs) ∨
      ∃ xml, ppr.userData = some xml ∧ px.getDefaultId xml "" = key ∧ irs' = irs.setImsSubXml px xml)

theorem documented_none (h : ppr.userData = none) : Documented px ppr sub sub where
  known xml hxml := by rw [h] at hxml; cases hxml
  kept key irs hirs := ⟨irs, hirs⟩
  parts key irs hirs := by
    refine ⟨irs, hirs, .inl ⟨?_, rfl⟩⟩
    rintro ⟨xml, hxml, -⟩
    rw [h] at hxml
    cases hxml

theorem documented_insert {xml : String} {irs : Irs} (h : ppr.userData = some xml)
    (hirs : sub[px.getDefaultId xml ""]? = some irs) :
    Documented px ppr sub (sub.insert (px.getDefaultId xml "") (irs.setImsSubXml px xml)) where
  known xml' hxml' := by
    rw [h] at hxml'
    obtain rfl := Option.some.inj hxml'
    exact ⟨irs, hirs⟩
  kept key irs₁ hirs₁ := by
    rw [ImsSubscription.getElem?_insert]
    split
    · exact ⟨_, rfl⟩
    · exact ⟨irs₁, hirs₁⟩
  parts key irs' hirs' := by
    rw [ImsSubscription.getElem?_insert] at hirs'
    split at hirs'
    · rename_i hkey
      rw [hkey]
      exact ⟨irs, hirs, .inr ⟨xml, h, rfl, (Option.some.inj hirs').symm⟩⟩
    · rename_i hkey
      refine ⟨irs', hirs', .inl ⟨?_, rfl⟩⟩
      rintro ⟨xml', hxml', hkey'⟩
      rw [h] at hxml'
      obtain rfl := Option.some.inj hxml'
      exact hkey hkey'.symm

theorem Documented.scope {sub₁ : ImsSubscription} (h : Documented px ppr sub sub₁) (hkeyed : sub.Keyed)
    (hnone : ppr.chargingAddrs = none) : PushScope px ppr sub sub₁ where
  known := h.known
  kept := h.kept
  scope key irs' hirs' := by
    obtain ⟨irs, hirs, hparts⟩ := h.parts key irs' hirs'
    exact ⟨irs, hirs, (IrsScope.of_parts (hkeyed key irs hirs) hparts).1 hnone⟩

theorem Documented.scope_charged {sub₁ : ImsSubscription} (h : Documented px ppr sub sub₁)
    (hkeyed : sub.Keyed) {addresses : ChargingAddresses} (hsome : ppr.chargingAddrs = some addresses) :
    PushScope px ppr sub (sub₁.setChargingAddrs addresses) where
  known := h.known
  kept key irs hirs := by
    obtain ⟨irs', hirs'⟩ := h.kept key irs hirs
    refine ⟨irs'.setChargingAddresses addresses, ?_⟩
    unfold ImsSubscription.setChargingAddrs
    rw [ExtTreeMap.getElem?_map, hirs']
    rfl
  scope key irs' hirs' := by
    unfold ImsSubscription.setChargingAddrs at hirs'
    rw [ExtTreeMap.getElem?_map] at hirs'
    obtain ⟨irs₁, hirs₁, rfl⟩ := Option.map_eq_some_iff.mp hirs'
    obtain ⟨irs, hirs, hparts⟩ := h.parts key irs₁ hirs₁
    exact ⟨irs, hirs, (IrsScope.of_parts (hkeyed key irs hirs) hparts).2 addresses hsome⟩

end Scope

/-! ### Runs -/

/-- What a run of the task has done: the subscription that it read, whether a put was queued, and
whether it answered with a failure. -/
structure Pushed where
  read : Option ImsSubscription := none
  saving : Bool := false
  failed : Bool := false

def Pushed.step (pushed : Pushed) : Event TaskCall TaskCall.Resp → Pushed
  | ⟨.callback (.onGetImsSubSuccess sub), _⟩ => { pushed with read := some sub }
  | ⟨.addWork (.putImsSubscription _), _⟩ => { pushed with saving := true }
  | ⟨.sendPpa .failure, _⟩ => { pushed with failed := true }
  | _ => pushed

/-- A put is in the scope of the push. It and the writes that it makes follow no failure, and a
failure follows no put. -/
def pushMonitor (px : XmlParser) (ppr : Ppr) : Monitor TaskCall TaskCall.Resp Pushed where
  permits pushed
    | .addWork (.putImsSubscription sub') =>
      pushed.failed = false ∧ ∃ sub, pushed.read = some sub ∧ PushScope px ppr sub sub'
    | .addWork (.getImsSubscription _) => True
    | .addWork _ => False
    | .sendPpa .failure => pushed.saving = false
    | .store call => call.IsRead ∨ pushed.saving = true ∧ pushed.failed = false
    | _ => True
  step := Pushed.step

theorem Pushed.step_saving {pushed : Pushed} (e : Event TaskCall TaskCall.Resp)
    (h : pushed.saving = true) : (pushed.step e).saving = true := by
  obtain ⟨o, r⟩ := e
  cases o with
  | callback cb => cases cb <;> exact h
  | addWork work => cases work <;> first | exact h | rfl
  | sendPpa result => cases result <;> exact h
  | _ => exact h

theorem Pushed.step_failed {pushed : Pushed} (e : Event TaskCall TaskCall.Resp)
    (h : pushed.failed = true) : (pushed.step e).failed = true := by
  obtain ⟨o, r⟩ := e
  cases o with
  | callback cb => cases cb <;> exact h
  | addWork work => cases work <;> exact h
  | sendPpa result => cases result <;> first | exact h | rfl
  | _ => exact h

theorem Pushed.after_saving {px : XmlParser} {ppr : Ppr} {s : Pushed} (h : s.saving = true)
    (hs : TaskHistory) : ((pushMonitor px ppr).after s hs).saving = true :=
  (pushMonitor px ppr).after_keeps (P := fun s => s.saving = true) (fun _ e => step_saving e) h hs

theorem Pushed.after_failed {px : XmlParser} {ppr : Ppr} {s : Pushed} (h : s.failed = true)
    (hs : TaskHistory) : ((pushMonitor px ppr).after s hs).failed = true :=
  (pushMonitor px ppr).after_keeps (P := fun s => s.failed = true) (fun _ e => step_failed e) h hs

/-- The subscription that a run has read is in the run. -/
theorem mem_of_pushed_read {px : XmlParser} {ppr : Ppr} {hs : TaskHistory} {sub : ImsSubscription}
    (h : ((pushMonitor px ppr).after {} hs).read = some sub) :
    ⟨.callback (.onGetImsSubSuccess sub), ()⟩ ∈ hs := by
  induction hs using List.reverseRecOn with
  | nil => cases h
  | append_singleton hs e ih =>
    rw [Monitor.after_append] at h
    generalize hpushed : (pushMonitor px ppr).after {} hs = pushed at h ih
    obtain ⟨o, r⟩ := e
    have hkept : pushed.read = some sub ∨
        (⟨o, r⟩ : Event TaskCall TaskCall.Resp) = ⟨.callback (.onGetImsSubSuccess sub), ()⟩ := by
      cases o with
      | callback cb =>
        cases cb with
        | onGetImsSubSuccess sub' =>
          obtain rfl := Option.some.inj h
          exact .inr rfl
        | _ => exact .inl h
      | addWork work => cases work <;> exact .inl h
      | sendPpa result => cases result <;> exact .inl h
      | _ => exact .inl h
    rcases hkept with h | h
    · exact List.mem_append_left _ (ih h)
    · rw [h]
      exact List.mem_append_right _ List.mem_cons_self

namespace PushProfileTask

variable {px : XmlParser} {cache : MemcachedCache} {ppr : Ppr} {s : Pushed}

/-- A function of the task, entered at `s`. -/
abbrev Scopes (px : XmlParser) (ppr : Ppr) (s : Pushed) (p : TaskProg Unit) : Prop :=
  (pushMonitor px ppr).Keeps (fun _ _ => True) s p

theorem scopes_deleteThis : Scopes px ppr s TaskProg.deleteThis :=
  .call_to trivial (fun _ => rfl) fun _ => .ret trivial

/-- A failure that is answered before anything was queued. -/
theorem scopes_fail (hsaving : s.saving = false) :
    Scopes px ppr s (TaskProg.sendPpa .failure >>= fun _ => TaskProg.deleteThis) :=
  .call fun _ => ⟨hsaving, scopes_deleteThis⟩

/-- The put, which never gets to the failure callback. -/
theorem scopes_put {sub sub' : ImsSubscription} (hread : s.read = some sub)
    (hfailed : s.failed = false) (hscope : PushScope px ppr sub sub') :
    Scopes px ppr s (HssCacheProcessor.putImsSubscription cache onSaveImsSubSuccess
      onSaveImsSubProgress onSaveImsSubFailure sub') := by
  have hpasses : ∀ o : Call, Passes (pushMonitor px ppr) { s with saving := true } (.store o) :=
    fun o => ⟨.inr ⟨rfl, hfailed⟩, fun _ => rfl⟩
  -- So the failure that the last callback answers cannot follow a write.
  have hok : ∀ hs (r : Status × ImsSubscription), Ran (cache.putImsSubscription sub') hs r →
      r.1 = .ok := fun hs r hran => ran_putImsSubscription hran
  have hmay : (pushMonitor px ppr).permits s (.addWork (.putImsSubscription sub')) :=
    ⟨hfailed, sub, hread, hscope⟩
  refine keeps_operation (signals_putImsSubscription cache sub') hok
    ⟨hmay, fun _ => rfl⟩ ?_ (fun o => ⟨hpasses o, hpasses o⟩) ?_ ?_
  · exact .call_to trivial (fun _ => rfl) fun _ => .call_to trivial (fun _ => rfl) fun _ => .ret rfl
  · exact .call_to trivial (fun _ => rfl) fun _ => scopes_deleteThis
  · exact fun r hr hne => absurd hr hne

theorem scopes_saveImsSub {sub sub₁ : ImsSubscription} (hread : s.read = some sub)
    (hfailed : s.failed = false) (hkeyed : sub.Keyed) (hdocumented : Documented px ppr sub sub₁) :
    Scopes px ppr s (saveImsSub cache ppr sub₁) := by
  unfold saveImsSub
  split
  · rename_i addresses hsome
    exact scopes_put hread hfailed (hdocumented.scope_charged hkeyed hsome)
  · rename_i hnone
    exact scopes_put hread hfailed (hdocumented.scope hkeyed hnone)

theorem scopes_onGetImsSubSuccess {sub : ImsSubscription} (hsaving : s.saving = false)
    (hfailed : s.failed = false) (hkeyed : sub.Keyed) :
    Scopes px ppr s (onGetImsSubSuccess px cache ppr sub) := by
  refine .call fun _ => ⟨trivial, ?_⟩
  have hsaving' : (s.step ⟨.callback (.onGetImsSubSuccess sub), ()⟩).saving = false := hsaving
  split
  · rename_i hnone
    exact scopes_saveImsSub rfl hfailed hkeyed (documented_none hnone)
  · rename_i xml hxml
    dsimp only
    split
    · exact scopes_fail hsaving'
    · rename_i irs hirs
      refine .call_to trivial (fun _ => rfl) fun (rc : HttpCode) => ?_
      show Scopes px ppr _ (if rc ≠ httpOk then _ else _)
      split
      · exact scopes_fail hsaving'
      · exact scopes_saveImsSub rfl hfailed hkeyed (documented_insert hxml hirs)

theorem scopes_run : Scopes px ppr {} (run px cache ppr) := by
  unfold run
  split
  · exact .call_to trivial (fun _ => rfl) fun _ => scopes_deleteThis
  · refine keeps_lookedUp (only_getImsSubscription cache ppr.impi)
      (fun hs sub hran => ran_getImsSubscription hran) ⟨trivial, fun _ => rfl⟩
      (fun o ho => ⟨Or.inl ho.isRead, fun _ => rfl⟩) (fun sub hkeyed => ?_) (fun rc => ?_)
    · exact scopes_onGetImsSubSuccess rfl rfl hkeyed
    · exact .call_to trivial (fun _ => rfl) fun _ => scopes_fail rfl

end PushProfileTask

/-- Every run of `PushProfileTask`, finished or not. A run that answers with a failure leaves
every store as it is. A subscription that is put is in the scope of the push. -/
theorem push_scope (px : XmlParser) (cache : MemcachedCache) (ppr : Ppr) (w : World)
    (hs : TaskHistory) (h : Begins (PushProfileTask.run px cache ppr) hs) :
    (⟨.sendPpa .failure, ()⟩ ∈ hs → w.afterTask hs = w) ∧
      ∀ pre sub' post, hs = pre ++ ⟨.addWork (.putImsSubscription sub'), ()⟩ :: post →
        ∃ sub, ⟨.callback (.onGetImsSubSuccess sub), ()⟩ ∈ pre ∧ PushScope px ppr sub sub' := by
  have hkeeps : PushProfileTask.Scopes px ppr {} (PushProfileTask.run px cache ppr) :=
    PushProfileTask.scopes_run
  refine ⟨fun hfailure => World.afterTask_of_reads w fun call r hmem => ?_, ?_⟩
  · -- A write comes neither before nor after the failure.
    obtain ⟨pre, post, hsplit⟩ := List.append_of_mem hmem
    have hpermits : call.IsRead ∨ ((pushMonitor px ppr).after {} pre).saving = true ∧
      ((pushMonitor px ppr).after {} pre).failed = false := hkeeps.begins h hsplit
    rcases hpermits with hread | ⟨hsaving, hfailed⟩
    · exact hread
    · rw [hsplit] at hfailure
      rcases List.mem_append.mp hfailure with hbefore | hafter
      · -- The failure stays on record, and the write would not be permitted.
        obtain ⟨pre₁, pre₂, rfl⟩ := List.append_of_mem hbefore
        have hstays : ((pushMonitor px ppr).after {}
            (pre₁ ++ ⟨.sendPpa .failure, ()⟩ :: pre₂)).failed = true := by
          rw [Monitor.after_append]
          exact Pushed.after_failed rfl pre₂
        rw [hstays] at hfailed
        cases hfailed
      · rcases List.mem_cons.mp hafter with heq | hafter
        · cases heq
        · -- The queued put stays on record, and the failure would not be permitted.
          obtain ⟨post₁, post₂, rfl⟩ := List.append_of_mem hafter
          have hsplit' : hs = (pre ++ ⟨.store call, r⟩ :: post₁) ++
            ⟨.sendPpa .failure, ()⟩ :: post₂ := by rw [hsplit]; simp
          have hunsaved : ((pushMonitor px ppr).after {} (pre ++ ⟨.store call, r⟩ :: post₁)).saving
            = false := hkeeps.begins h hsplit'
          rw [Monitor.after_append, Pushed.after_saving hsaving] at hunsaved
          cases hunsaved
  · intro pre sub' post hsplit
    obtain ⟨-, sub, hread, hscope⟩ := hkeeps.begins h hsplit
    exact ⟨sub, mem_of_pushed_read hread, hscope⟩

/-- A document for a subscriber with one identity. -/
def pushedProfile : XmlParser := .ofTable [("pushed", ["sip:d@example.com"])]

def examplePpr : Ppr where
  impi := "d@example.com"
  userData := some "pushed"
  chargingAddrs := none

/-- The record of the subscriber. -/
def storedRecord : DefaultImpu where
  impu := "sip:d@example.com"
  associatedImpus := []
  impis := ["d@example.com"]
  registrationState := .registered
  chargingAddresses := {}
  serviceProfile := "profile"
  cas := 1
  expiry := 100
  store := some 0

def storedSubscription : ImsSubscription := .ofIrss [Irs.ofDefaultImpu storedRecord 10]

def documentedSubscription : ImsSubscription :=
  storedSubscription.insert "sip:d@example.com"
    ((Irs.ofDefaultImpu storedRecord 10).setImsSubXml pushedProfile "pushed")

/-- The subscription is read, and Sprout answers `rc`. -/
def pushLookup (rc : HttpCode) : TaskHistory :=
  [⟨.addWork (.getImsSubscription "d@example.com"), ()⟩,
   ⟨.store (.getImpiMapping 0 "d@example.com"),
     (Status.ok, some { impi := "d@example.com", defaultImpus := ["sip:d@example.com"],
                        cas := 1, expiry := 100 })⟩,
   ⟨.store (.getImpu 0 "sip:d@example.com"), (Status.ok, some (Impu.default storedRecord))⟩,
   ⟨.store .time, (10 : Int)⟩,
   ⟨.callback (.onGetImsSubSuccess storedSubscription), ()⟩,
   ⟨.changeAssociatedIdentities "sip:d@example.com" "pushed", rc⟩]

/-- Sprout refuses the change. -/
def refusedPush : TaskHistory :=
  pushLookup httpServerError ++ [⟨.sendPpa .failure, ()⟩, ⟨.deleteThis, ()⟩]

/-- Sprout accepts the change, up to the put. -/
def acceptedPush : TaskHistory :=
  pushLookup httpOk ++ [⟨.addWork (.putImsSubscription documentedSubscription), ()⟩]

theorem begins_refusedPush :
    Begins (PushProfileTask.run pushedProfile oneStore examplePpr) refusedPush :=
  .call (.call (.call (.call (.call (.call (.call (.call (.nil _))))))))

theorem begins_acceptedPush :
    Begins (PushProfileTask.run pushedProfile oneStore examplePpr) acceptedPush :=
  .call (.call (.call (.call (.call (.call (.call (.nil _)))))))

/-- The subscription that is put has the new document in the record of the subscriber. -/
theorem push_scope_accepted :
    (World.ofTables [] []).afterTask refusedPush = World.ofTables [] [] ∧
      ∃ sub, ⟨.callback (.onGetImsSubSuccess sub), ()⟩ ∈ pushLookup httpOk ∧
        PushScope pushedProfile examplePpr sub documentedSubscription := by
  refine ⟨(push_scope _ _ _ _ _ begins_refusedPush).1 ?_, ?_⟩
  · exact List.mem_append_right _ List.mem_cons_self
  · exact (push_scope _ _ _ (World.ofTables [] []) _ begins_acceptedPush).2 _ _ [] rfl

end Homestead
