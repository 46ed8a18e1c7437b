import Mathlib.Algebra.Group.Int.Defs
import Homestead.Lib.Monitor
import Homestead.Proofs.Answers
import Homestead.Proofs.FailedPut
import Homestead.Proofs.Setters

/-!
# `Homestead.Proofs.ExpiryDrift`: the expiry that a put without a new TTL writes

An IRS keeps the rest of the lifetime of its record (`_ttl`), taken at the reading of the clock
when it is read or merged, and `create_impu` adds that to another reading. `PushProfileTask` says
that it does not update the TTL of the data, so the record should keep its expiry.

`Lifetime` follows the two readings through the calls of a put, from the first read over every
conflict. `expiry_written` is the expiry that each write of the record has, for every run under
any answers of the store. `expiry_kept_iff` says that it is the one of the record that was read if
and only if the clock has not moved since.
-/

set_option autoImplicit false

namespace Homestead

open CacheProg

/-! ### The calls of a user -/

/-- A call of a user on an IRS. -/
inductive UserCall
  | set (setter : Setter)
  | deleteAssociatedImpi (impi : String)
  deriving DecidableEq, Repr

def UserCall.apply (px : XmlParser) (irs : Irs) : UserCall → Irs
  | .set setter => setter.apply px irs
  | .deleteAssociatedImpi impi => irs.deleteAssociatedImpi impi

/-- The call is `set_ttl`. -/
def UserCall.setsTtl : UserCall → Bool
  | .set (.setTtl _) => true
  | _ => false

/-- The calls in order. -/
def Irs.applyUser (px : XmlParser) (irs : Irs) (calls : List UserCall) : Irs :=
  calls.foldl (UserCall.apply px) irs

/-- Without `set_ttl` the IRS keeps its TTL, and stays one that was read and not refreshed. -/
theorem applyUser_ttl (px : XmlParser) (irs : Irs) {calls : List UserCall}
    (h : ∀ call ∈ calls, call.setsTtl = false) :
    (irs.applyUser px calls).ttl = irs.ttl ∧
      (irs.applyUser px calls).refreshed = irs.refreshed ∧
      (irs.applyUser px calls).existing = irs.existing := by
  induction calls generalizing irs with
  | nil => exact ⟨rfl, rfl, rfl⟩
  | cons call calls ih =>
    have hrest := ih (UserCall.apply px irs call) fun c hc => h c (List.mem_cons_of_mem _ hc)
    have hone : (UserCall.apply px irs call).ttl = irs.ttl ∧
        (UserCall.apply px irs call).refreshed = irs.refreshed ∧
        (UserCall.apply px irs call).existing = irs.existing := by
      have hcall := h call List.mem_cons_self
      cases call with
      | deleteAssociatedImpi impi => exact ⟨rfl, rfl, rfl⟩
      | set setter =>
        cases setter with
        | setTtl ttl => cases hcall
        | setRegState state => exact ⟨rfl, rfl, rfl⟩
        | addAssociatedImpi impi => exact ⟨rfl, rfl, rfl⟩
        | setChargingAddresses addresses => exact ⟨rfl, rfl, rfl⟩
        | setImsSubXml xml => exact ⟨rfl, rfl, rfl⟩
    exact ⟨hrest.1.trans hone.1, hrest.2.1.trans hone.2.1, hrest.2.2.trans hone.2.2⟩

/-! ### The readings of the clock -/

/-- What the TTL of the IRS was taken from: the expiry of a record, and the reading of the clock at
that moment. `found` is the expiry of a record that has been read and not been merged yet, and
`now` the last reading. -/
structure Lifetime where
  expiry : Int
  readAt : Int
  found : Option Int
  now : Int

/-- The lifetime of a record that was read at `t`. -/
def Lifetime.start (expiry t : Int) : Lifetime :=
  { expiry := expiry, readAt := t, found := none, now := t }

/-- A record that is found after a conflict counts from the next reading on, when it is merged. -/
def Lifetime.step (life : Lifetime) : Event Call Call.Resp → Lifetime
  | ⟨.getImpu _ _, (r : Status × Option Impu)⟩ =>
    match r.2 with
    | some (.default d) => { life with found := some d.expiry }
    | _ => { life with found := none }
  | ⟨.time, (t : Int)⟩ =>
    match life.found with
    | some expiry => .start expiry t
    | none => { life with now := t }
  | _ => life

/-- The lifetime after the calls of `hs`. -/
def Lifetime.after (life : Lifetime) (hs : History) : Lifetime := hs.foldl Lifetime.step life

/-- The clock of the run starts at `t` and does not go back. -/
def ClockFrom (t : Int) : History → Prop
  | [] => True
  | ⟨.time, (t' : Int)⟩ :: hs => t ≤ t' ∧ ClockFrom t' hs
  | _ :: hs => ClockFrom t hs

/-- A record is merged before the last reading, or at it. -/
theorem Lifetime.after_le {life : Lifetime} {hs rest : History} (h : ClockFrom life.now (hs ++ rest))
    (h₀ : 0 ≤ life.readAt) (hle : life.readAt ≤ life.now) :
    0 ≤ (life.after hs).readAt ∧ (life.after hs).readAt ≤ (life.after hs).now := by
  induction hs generalizing life with
  | nil => exact ⟨h₀, hle⟩
  | cons e hs ih =>
    obtain ⟨o, r⟩ := e
    cases o with
    | time =>
      obtain ⟨hr, hrest⟩ := h
      have hafter : life.after (⟨.time, r⟩ :: hs) = (life.step ⟨.time, r⟩).after hs := rfl
      rw [hafter]
      cases hfound : life.found with
      | none =>
        have hstep : life.step ⟨.time, r⟩ = { life with now := r } := by simp [step, hfound]
        rw [hstep]
        exact ih hrest h₀ (Int.le_trans hle hr)
      | some expiry =>
        have hstep : life.step ⟨.time, r⟩ = .start expiry r := by simp [step, hfound]
        rw [hstep]
        exact ih hrest (Int.le_trans h₀ (Int.le_trans hle hr)) (Int.le_refl r)
    | getImpu s impu =>
      -- Only `found` changes.
      have hstep : (life.step ⟨.getImpu s impu, r⟩).readAt = life.readAt ∧
          (life.step ⟨.getImpu s impu, r⟩).now = life.now := by
        unfold step
        dsimp only
        split <;> exact ⟨rfl, rfl⟩
      refine ih ?_ ?_ ?_
      · rw [hstep.2]
        exact h
      · rw [hstep.1]
        exact h₀
      · rw [hstep.1, hstep.2]
        exact hle
    | _ => exact ih h h₀ hle

/-! ### The expiry of a write -/

/-- The expiry that `create_impu` computes with this lifetime. -/
def Lifetime.written (life : Lifetime) : Int :=
  toInt32 (life.expiry + (life.now - life.readAt))

theorem toInt32_add (x y : Int) : toInt32 (toInt32 x + toInt32 y) = toInt32 (x + y) := by
  unfold toInt32
  rw [Int.add_bmod_bmod, Int.bmod_add_bmod]

/-- The record keeps its expiry if the clock has not moved and the expiry is an `int`. -/
theorem written_eq_iff {life : Lifetime} (h₀ : 0 ≤ life.readAt) (hle : life.readAt ≤ life.now)
    (hlive : life.now < life.expiry) :
    life.written = life.expiry ↔ life.now = life.readAt ∧ life.expiry < 2 ^ 31 := by
  unfold Lifetime.written toInt32
  rw [Int.bmod_def]
  split <;> omega

/-- The record lives longer by the time that has passed since it was read. -/
theorem written_eq_of_lt {life : Lifetime} (h₀ : 0 ≤ life.readAt) (hle : life.readAt ≤ life.now)
    (hlive : life.now < life.expiry) (hfits : life.expiry + (life.now - life.readAt) < 2 ^ 31) :
    life.written = life.expiry + (life.now - life.readAt) := by
  unfold Lifetime.written toInt32
  rw [Int.bmod_def]
  split <;> omega

/-- Every write of a default IMPU has the expiry of the lifetime. -/
def driftMonitor : Monitor Call Call.Resp Lifetime where
  permits life
    | .setImpu _ (.default d) => d.expiry = life.written
    | _ => True
  step := Lifetime.step

/-- The IRS is not refreshed, and its TTL is what was left of the record when it was read. -/
structure HasLifetime (irs : Irs) (life : Lifetime) : Prop where
  refreshed : irs.refreshed = false
  ttl : irs.ttl = toInt32 (life.expiry - life.readAt)

variable {irs : Irs} {life : Lifetime} {s : StoreId}

theorem HasLifetime.createImpu (h : HasLifetime irs life) (cas : Nat) (store : Option StoreId)
    (now : Int) : (irs.createImpu cas store now).expiry = { life with now := now }.written := by
  show toInt32 (irs.ttl + toInt32 now) = toInt32 (life.expiry + (now - life.readAt))
  rw [h.ttl, toInt32_add]
  congr 1
  omega

/-- A pass ends without a record that it goes on with. -/
def PassEnd (st : ImpuActionState) (life : Lifetime) : Prop :=
  HasLifetime st.irs life ∧ st.impu = none

/-- The write of a record after the clock was read. -/
theorem drift_timedApply (h : HasLifetime irs life) (hfound : life.found = none) (cas : Nat)
    (store : Option StoreId) :
    driftMonitor.Keeps PassEnd life (irs.getImpuFromImpu cas store >>= fun impu =>
      IrsImpuAction.setImpu.apply s impu >>= fun status =>
        pure { status := status, irs := irs, impu := none }) := by
  refine .call fun (now : Int) => ⟨trivial, ?_⟩
  have hstep : driftMonitor.step life ⟨.time, now⟩ = { life with now := now } := by
    simp [driftMonitor, Lifetime.step, hfound]
  rw [hstep]
  exact .call fun status => ⟨h.createImpu cas store now, .ret ⟨⟨h.refreshed, h.ttl⟩, rfl⟩⟩

theorem drift_rereadPass (h : HasLifetime irs life) :
    driftMonitor.Keeps PassEnd life (rereadPass .setImpu s irs) := by
  refine .call fun found => ⟨trivial, ?_⟩
  obtain ⟨status, _ | d | a⟩ := found
  · -- Nothing is found, so the TTL is still the one of the last record.
    have hlife : HasLifetime irs { life with found := none } := ⟨h.refreshed, h.ttl⟩
    exact drift_timedApply hlife rfl 0 none
  · show driftMonitor.Keeps PassEnd { life with found := some d.expiry } (irs.mergeFromStore d >>= _)
    rw [Irs.mergeFromStore, h.refreshed]
    refine .call fun (now : Int) => ⟨trivial, ?_⟩
    have hmerged : HasLifetime (irs.updateFromImpuFromStore d now) (.start d.expiry now) := by
      refine ⟨h.refreshed, ?_⟩
      show (if irs.refreshed then irs.ttl else toInt32 (d.expiry - toInt32 now)) = _
      rw [h.refreshed]
      exact Int.sub_bmod_bmod
    exact drift_timedApply hmerged rfl d.cas d.store
  · -- An IRS that is not refreshed does not take the record over.
    show driftMonitor.Keeps PassEnd { life with found := none } (if irs.refreshed then _ else _)
    rw [h.refreshed]
    exact .ret ⟨⟨h.refreshed, h.ttl⟩, rfl⟩

theorem drift_updateIrsImpu (h : HasLifetime irs life) (hfound : life.found = none) :
    driftMonitor.Keeps (fun _ _ => True) life (updateIrsImpu irs s) := by
  -- Every pass writes the expiry of the time that was read before it.
  have hloop : ∀ impu life', HasLifetime irs life' →
      (∀ d, impu = some d → d.expiry = life'.written) →
      driftMonitor.Keeps (fun _ _ => True) life'
        (Prog.loop (impuActionPass .setImpu s) (fun st => st.status.isContention)
          { status := .ok, irs := irs, impu := impu } >>= fun st => .ret (st.status, st.irs)) := by
    intro impu life' h' himpu
    refine Monitor.Keeps.bind (Q := fun _ _ => True) ?_ fun _ _ _ => .ret trivial
    refine Monitor.Keeps.loop (fun st life => HasLifetime st.irs life ∧
      ∀ d, st.impu = some d → d.expiry = life.written) ?_ ⟨h', himpu⟩
    rintro ⟨status, irs₁, impu₁⟩ life₁ ⟨h₁, himpu₁⟩
    have hend : driftMonitor.Keeps PassEnd life₁
        (impuActionPass .setImpu s { status := status, irs := irs₁, impu := impu₁ }) := by
      cases impu₁ with
      | none => exact drift_rereadPass h₁
      | some d => exact .call fun status => ⟨himpu₁ d rfl, .ret ⟨⟨h₁.refreshed, h₁.ttl⟩, rfl⟩⟩
    refine hend.weaken fun st life₂ h₂ => ?_
    split
    · refine ⟨h₂.1, fun d hd => ?_⟩
      rw [h₂.2] at hd
      cases hd
    · trivial
  unfold updateIrsImpu performIrsImpuAction Irs.getImpuForStore
  split
  · refine .call fun (now : Int) => ⟨trivial, ?_⟩
    have hstep : driftMonitor.step life ⟨.time, now⟩ = { life with now := now } := by
      simp [driftMonitor, Lifetime.step, hfound]
    rw [hstep]
    refine hloop _ _ ⟨h.refreshed, h.ttl⟩ ?_
    rintro d ⟨⟩
    exact h.createImpu irs.cas irs.store now
  · exact hloop none life h nofun

/-- The other two operations write no default IMPU. -/
theorem drift_parts {α : Type} {p : CacheProg α} (hp : Only (Call.OnParts s) p) :
    driftMonitor.Keeps (fun _ _ => True) life p := by
  refine Monitor.Keeps.of_only_inv (I := fun _ => True) hp ?_ trivial
  intro life o ho _
  cases o with
  | setImpu s' impu => exact ho.elim
  | _ => exact ⟨trivial, fun _ => trivial⟩

theorem drift_putIrsAction (h : HasLifetime irs life) (hfound : life.found = none)
    (hexisting : irs.existing = true) :
    driftMonitor.Keeps (fun _ _ => True) life (putIrsAction irs s) := by
  unfold putIrsAction putIrsImpu
  rw [if_pos hexisting]
  refine (drift_updateIrsImpu h hfound).bind fun put life' _ => ?_
  show driftMonitor.Keeps _ life' (if put.1 = .ok then _ else _)
  split
  · exact (drift_parts only_updateIrsAssociatedImpus).bind fun _ _ _ =>
      (drift_parts only_updateIrsImpiMappings).bind fun _ _ _ => .ret trivial
  · exact .ret trivial

/-- The expiry of every write of the record, in every run of the put. -/
theorem expiry_written (px : XmlParser) (d : DefaultImpu) (t₀ : Int) {calls : List UserCall}
    (hcalls : ∀ call ∈ calls, call.setsTtl = false) (s : StoreId) {hs : History}
    (h : Begins (putIrsAction ((Irs.ofDefaultImpu d t₀).applyUser px calls) s) hs)
    {pre post : History} {s' : StoreId} {d' : DefaultImpu} {r : Status}
    (hsplit : hs = pre ++ ⟨.setImpu s' (.default d'), r⟩ :: post) :
    d'.expiry = ((Lifetime.start d.expiry t₀).after pre).written := by
  obtain ⟨httl, hrefreshed, hexisting⟩ := applyUser_ttl px (Irs.ofDefaultImpu d t₀) hcalls
  have hkeeps : driftMonitor.Keeps (fun _ _ => True) (Lifetime.start d.expiry t₀)
      (putIrsAction ((Irs.ofDefaultImpu d t₀).applyUser px calls) s) :=
    drift_putIrsAction ⟨hrefreshed, httl⟩ rfl hexisting
  exact hkeeps.begins h hsplit

/-! ### The expiry stays -/

/-- A put of an IRS that was read at `t₀`, after any calls on it but `set_ttl`, under any answers of
the store and with a clock that does not go back. Each record that it writes, before that record's
lifetime is over, has the expiry of the record that was read, at first or after the last conflict,
if and only if the clock reads the same at the write as it did at that read, and the expiry is an
`int`. Otherwise the expiry is later by the time between the two, as long as that is an `int`. -/
theorem expiry_kept_iff (px : XmlParser) (d : DefaultImpu) (t₀ : Int) (calls : List UserCall)
    (hcalls : ∀ call ∈ calls, call.setsTtl = false) (s : StoreId) (hs : History)
    (h : Begins (putIrsAction ((Irs.ofDefaultImpu d t₀).applyUser px calls) s) hs) (h₀ : 0 ≤ t₀)
    (hclock : ClockFrom t₀ hs) (pre post : History) (s' : StoreId) (d' : DefaultImpu) (r : Status)
    (hsplit : hs = pre ++ ⟨.setImpu s' (.default d'), r⟩ :: post) :
    let life := (Lifetime.start d.expiry t₀).after pre
    life.now < life.expiry →
      (d'.expiry = life.expiry ↔ life.now = life.readAt ∧ life.expiry < 2 ^ 31) ∧
        (life.expiry + (life.now - life.readAt) < 2 ^ 31 →
          d'.expiry = life.expiry + (life.now - life.readAt)) := by
  intro life hlive
  have hwritten : d'.expiry = life.written := expiry_written px d t₀ hcalls s h hsplit
  rw [hsplit] at hclock
  have hle : 0 ≤ life.readAt ∧ life.readAt ≤ life.now :=
    Lifetime.after_le hclock h₀ (Int.le_refl t₀)
  rw [hwritten]
  refine ⟨written_eq_iff hle.1 hle.2 hlive, ?_⟩
  intro hfits
  exact written_eq_of_lt hle.1 hle.2 hlive hfits

/-- A registered subscriber whose registration ends at 1000. -/
def endingRecord : DefaultImpu where
  impu := "sip:d@example.com"
  associatedImpus := []
  impis := []
  registrationState := .registered
  chargingAddresses := {}
  serviceProfile := "profile"
  cas := 1
  expiry := 1000
  store := some 0

/-- A push of new charging addresses. -/
def chargingPush : List UserCall := [.set (.setChargingAddresses { ccfs := ["ccf"] })]

/-- The write of the pushed record, with the clock at `now`. -/
def pushWrite (now : Int) : DefaultImpu :=
  ((Irs.ofDefaultImpu endingRecord 400).applyUser (.ofTable []) chargingPush).createImpu 1 (some 0) now

/-- The record is read and written in the same second. -/
theorem expiry_kept_iff_same : (pushWrite 400).expiry = 1000 := by
  have hrun : Begins (putIrsAction
      ((Irs.ofDefaultImpu endingRecord 400).applyUser (.ofTable []) chargingPush) 0)
      [⟨.time, (400 : Int)⟩, ⟨.setImpu 0 (.default (pushWrite 400)), Status.ok⟩] :=
    .call (.unroll (.call (.nil _)))
  exact ((expiry_kept_iff (.ofTable []) endingRecord 400 chargingPush (by decide) 0 _ hrun
    (by decide) ⟨by decide, trivial⟩ [⟨.time, (400 : Int)⟩] [] 0 _ _ rfl (by decide)).1).mpr
    ⟨rfl, by decide⟩

/-- The record is read at 400, Sprout takes thirty seconds to answer, and the store holds a
registration that ends thirty seconds later. -/
theorem expiry_extended :
    ∃ r w', Eval serve (putIrsAction
        ((Irs.ofDefaultImpu endingRecord 400).applyUser (.ofTable []) chargingPush) 0)
        { World.ofTables [("sip:d@example.com", (Impu.default endingRecord).toData)] [] with
          clock := fun _ => 430 } r w' ∧
      r.1 = .ok ∧ ((w'.stores 0).defaultAt "sip:d@example.com").map (·.expiry) = some 1030 := by
  refine ⟨_, _, Prog.eval_of_exec (n := 20) rfl, rfl, ?_⟩
  decide

end Homestead
