import Homestead.Lib.Simulation
import Homestead.Proofs.Registrations
import Homestead.Proofs.TaskRuns

/-!
# `Homestead.Proofs.NodeRuns`: the parts of a task on a node

`Node.After n w seen n'` says what is left of a node after a part of a task: its stores, and what
was seen of it. `eval_cacheProg` takes an evaluation of the cache into the task.

`Updates dir tbl tbl' action I` is the specification of an action on one store: it takes the store
from the table `tbl` to the table `tbl'`. `eval_operation` carries it to an operation on all the
stores of a cache, with the progress callback between the local store and the remote ones.
`eval_putInCache` and `eval_deleteFromCache` are the two changes of the cache with the reply to the
request, and `eval_getRegData_found` and `eval_getRegData_none` the lookup that a request starts
with.
-/

set_option autoImplicit false

namespace Homestead

open TaskProg

/-! ### Nodes -/

/-- From `n` to `n'` the world became `w`, and `seen` was seen. -/
structure Node.After (n : Node) (w : World) (seen : List Observation) (n' : Node) : Prop where
  world : n'.world = w
  seen : n'.seen = n.seen ++ seen
  outside : ∃ k, ∀ i, n'.outside i = n.outside (i + k)

namespace Node.After

theorem refl (n : Node) : n.After n.world [] n := ⟨rfl, by simp, 0, fun _ => rfl⟩

theorem withWorld (n : Node) (w : World) : n.After w [] { n with world := w } :=
  ⟨rfl, by simp, 0, fun _ => rfl⟩

theorem saw (n : Node) (x : Observation) : n.After n.world [x] (n.saw x) :=
  ⟨rfl, rfl, 0, fun _ => rfl⟩

theorem next (n : Node) : n.After n.world [] n.next := ⟨rfl, by simp [Node.next], 1, fun _ => rfl⟩

theorem trans {n n₁ n₂ : Node} {w₁ w₂ : World} {seen₁ seen₂ : List Observation}
    (h₁ : n.After w₁ seen₁ n₁) (h₂ : n₁.After w₂ seen₂ n₂) : n.After w₂ (seen₁ ++ seen₂) n₂ := by
  obtain ⟨k₁, hk₁⟩ := h₁.outside
  obtain ⟨k₂, hk₂⟩ := h₂.outside
  refine ⟨h₂.world, ?_, k₂ + k₁, fun i => ?_⟩
  · rw [h₂.seen, h₁.seen, List.append_assoc]
  · rw [hk₂, hk₁, Nat.add_assoc]

end Node.After

/-! ### The cache inside a task -/

/-- A part of the cache without the progress callback. -/
theorem eval_cacheProg {α : Type} {p : CacheProg α} (hp : Only (· ≠ .progressCb) p)
    {progressCb : TaskProg Unit} {n : Node} {a : α} {w' : World} (he : Eval serve p n.world a w') :
    Eval serveTask (p.interp (runCall progressCb)) n a { n with world := w' } := by
  have hcall : ∀ (o : Call) (w : World) (n₁ : Node), o ≠ .progressCb → n₁ = { n with world := w } →
      ∃ n₂, Eval serveTask (runCall progressCb o) n₁ (serve o w).1 n₂ ∧
        n₂ = { n with world := (serve o w).2 } := by
    rintro o w _ ho rfl
    refine ⟨_, ?_, rfl⟩
    cases o with
    | progressCb => exact absurd rfl ho
    | _ => exact .call (.ret _ _)
  obtain ⟨n', hrun, rfl⟩ := he.interp _ hcall hp rfl
  exact hrun

theorem eval_addWork (request : CacheRequest) (n : Node) : Eval serveTask (addWork request) n () n :=
  .call (.ret _ _)

theorem Call.On.ne_progressCb {s : StoreId} {o : Call} (h : o.On s) : o ≠ .progressCb := by
  rintro rfl
  exact h

theorem Call.IsLookup.ne_progressCb {o : Call} (h : o.IsLookup) : o ≠ .progressCb := by
  rintro rfl
  exact h

/-! ### Operations on all stores -/

/-- The action on a store calls no other store and takes it from the table `tbl` to the table `tbl'`.
What it passes on to the next store satisfies `I` again. -/
structure Updates {σ : Type} (dir : Directory) (tbl tbl' : Table)
    (action : StoreId → σ → CacheProg (Status × σ)) (I : σ → Prop) : Prop where
  only : ∀ s x, Only (Call.On s) (action s x)
  acts : ∀ s x w, I x → (w.stores s).Represents dir tbl →
    ∃ x' w', Eval serve (action s x) w (.ok, x') w' ∧ I x' ∧ (w'.stores s).Represents dir tbl' ∧
      ∀ s', s' ≠ s → w'.stores s' = w.stores s'

section Operation

variable {σ : Type} {dir : Directory} {tbl tbl' : Table}
  {action : StoreId → σ → CacheProg (Status × σ)} {I : σ → Prop}

/-- The action on one remote store after the other. -/
theorem Updates.eval_remoteStores (h : Updates dir tbl tbl' action I) {stores : List StoreId}
    (hdistinct : stores.Nodup) {x : σ} (hx : I x) {w : World}
    (hstores : ∀ s ∈ stores, (w.stores s).Represents dir tbl) :
    ∃ x' w', Eval serve (Prog.forEach stores
        (fun remoteStore x => do
          let inner ← action remoteStore x
          pure inner.2) x) w x' w' ∧
      (∀ s ∈ stores, (w'.stores s).Represents dir tbl') ∧
      ∀ s, s ∉ stores → w'.stores s = w.stores s := by
  induction stores generalizing x w with
  | nil => exact ⟨x, w, .ret _ _, by simp, fun _ _ => rfl⟩
  | cons s stores ih =>
    obtain ⟨hs, hrest⟩ := List.nodup_cons.mp hdistinct
    obtain ⟨x₁, w₁, he, hx₁, hdone, hothers⟩ := h.acts s x w hx (hstores s List.mem_cons_self)
    have hsame : ∀ s' ∈ stores, w₁.stores s' = w.stores s' :=
      fun s' hs' => hothers s' fun heq => hs (heq ▸ hs')
    obtain ⟨x', w', he', hdone', hothers'⟩ := ih hrest hx₁ (w := w₁)
      fun s' hs' => hsame s' hs' ▸ hstores s' (List.mem_cons_of_mem _ hs')
    refine ⟨x', w', Eval.bind (he.bind (.ret _ _)) he', fun s' hs' => ?_, fun s' hs' => ?_⟩
    · rcases List.mem_cons.mp hs' with rfl | hs'
      · rw [hothers' s' hs]
        exact hdone
      · exact hdone' s' hs'
    · rw [hothers' s' fun h => hs' (List.mem_cons_of_mem _ h)]
      exact hothers s' fun heq => hs' (heq ▸ List.mem_cons_self)

/-- An operation: the action on the local store, the progress callback, the action on the remote
stores, and the success callback. The stores are in sync again at the end. -/
theorem Updates.eval_operation (h : Updates dir tbl tbl' action I) {cache : MemcachedCache}
    (hdistinct : cache.stores.Nodup) {x : σ} (hx : I x) {n : Node}
    (hsync : cache.InSync dir n.world tbl) (request : CacheRequest) (progressCb : TaskProg Unit)
    {R : List Observation → Prop}
    (hprogress : ∀ m : Node, ∃ m' seen, Eval serveTask progressCb m () m' ∧
      m.After m.world seen m' ∧ R seen)
    {α : Type} (successCb : TaskProg α) (failureCb : Status → TaskProg α) {a : α}
    (hsuccess : ∀ m, Eval serveTask successCb m a m) :
    ∃ n' w seen, Eval serveTask (addWork request >>= fun _ =>
        (cache.perform action x).interp (runCall progressCb)
          >>= HssCacheProcessor.done successCb failureCb) n a n' ∧
      n.After w seen n' ∧ R seen ∧ cache.InSync dir w tbl' := by
  obtain ⟨hlocal, hremotes⟩ := List.nodup_cons.mp hdistinct
  obtain ⟨x₁, w₁, he₁, hx₁, hdone₁, hothers₁⟩ :=
    h.acts cache.localStore x n.world hx hsync.localStore
  obtain ⟨m, seen, he₂, hafter, hR⟩ := hprogress { n with world := w₁ }
  have hsame : ∀ s ∈ cache.remoteStores, w₁.stores s = n.world.stores s :=
    fun s hs => hothers₁ s fun heq => hlocal (heq ▸ hs)
  obtain ⟨x₃, w₃, he₃, hdone₃, hothers₃⟩ := h.eval_remoteStores hremotes hx₁ (w := m.world)
    fun s hs => hafter.world ▸ hsame s hs ▸ hsync s (List.mem_cons_of_mem _ hs)
  have hbody : ∀ s x, Only (· ≠ .progressCb) (action s x) :=
    fun s x => (h.only s x).mono fun _ ho => ho.ne_progressCb
  refine ⟨{ m with world := w₃ }, w₃, seen, ?_, ?_, hR, fun s hs => ?_⟩
  · refine (eval_addWork _ _).bind (Eval.bind (a := (Status.ok, x₃)) ?_ (hsuccess _))
    unfold MemcachedCache.perform
    rw [Prog.interp_bind]
    refine (eval_cacheProg (hbody _ _) he₁).bind (he₂.bind ?_)
    exact eval_cacheProg (.bind (.forEach (fun s _ x => (hbody s x).bind fun _ => .ret _) _)
      fun _ => .ret _) (he₃.bind (.ret _ _))
  · simpa using ((Node.After.withWorld n w₁).trans hafter).trans (.withWorld m w₃)
  · rcases List.mem_cons.mp hs with rfl | hs
    · rw [hothers₃ _ hlocal, hafter.world]
      exact hdone₁
    · exact hdone₃ s hs

end Operation

/-- The put of an IRS for the subscriber `D`. -/
theorem updates_putIrsAction {dir : Directory} {D : String} (hD : dir.defaultOf D = some D)
    (tbl : Table) (r : Registration) :
    Updates dir tbl (Function.update tbl D (some r)) (fun store irs => putIrsAction irs store)
      fun irs => irs.PutsFor dir D (tbl D) ∧ irs.registration = r where
  only _ _ := only_putIrsAction
  acts s irs w := by
    rintro ⟨hputs, rfl⟩ hst
    obtain ⟨ttl, w', he, hst', hothers⟩ := hst.put hD hputs
    exact ⟨_, w', he, ⟨hputs.withTtl ttl, irs.registration_withTtl ttl⟩, hst', hothers⟩

/-- The delete of an IRS for the subscriber `D`. -/
theorem updates_deleteIrsAction {dir : Directory} {D : String} (hD : dir.defaultOf D = some D)
    (tbl : Table) :
    Updates dir tbl (Function.update tbl D none) (fun store irs => deleteIrsAction irs store)
      fun irs => irs.Covers dir D (tbl D) where
  only _ _ := only_deleteIrsAction
  acts s irs w hcovers hst := by
    obtain ⟨irs', w', he, hst', hothers, hext, hdefault, -⟩ := hst.delete hD hcovers
    exact ⟨irs', w', he, hcovers.extend hext hdefault, hst', hothers⟩

/-! ### Replies -/

namespace ImpuRegDataTask

variable {cfg : RegDataConfig}

theorem eval_sendReply (t : ImpuRegDataTask) (n : Node) :
    ∃ n' x, Eval serveTask t.sendReply n () n' ∧ n.After n.world [x] n' ∧ IsReply t.httpRc x := by
  unfold sendReply
  by_cases hrc : t.httpRc = httpOk
  · rw [if_neg (by simpa using hrc), hrc]
    exact ⟨_, _, .call (.call (.ret _ _)), (Node.After.next n).trans (.saw _ _), .built _ _⟩
  · rw [if_pos hrc]
    exact ⟨_, _, .call (.ret _ _), .saw n _, .failed _ hrc⟩

theorem eval_finish (n : Node) : Eval serveTask finish n none n := .call (.ret _ _)

theorem eval_rejectWith (rc : HttpCode) (n : Node) :
    Eval serveTask (rejectWith rc) n none (n.saw (.reply rc "")) :=
  .call (eval_finish _)

theorem eval_replyAndFinish (t : ImpuRegDataTask) (n : Node) :
    ∃ n' x, Eval serveTask t.replyAndFinish n none n' ∧ n.After n.world [x] n' ∧
      IsReply t.httpRc x := by
  obtain ⟨n', x, he, hafter, hreply⟩ := t.eval_sendReply n
  exact ⟨n', x, he.bind (eval_finish _), hafter, hreply⟩

/-! ### Changes of the cache -/

/-- A change of the cache, with the reply from its progress callback. -/
theorem eval_changing {σ : Type} {dir : Directory} {tbl tbl' : Table}
    {action : StoreId → σ → CacheProg (Status × σ)} {I : σ → Prop}
    (hupdates : Updates dir tbl tbl' action I) (hdistinct : cfg.cache.stores.Nodup) {x : σ}
    (hx : I x) {n : Node} (hsync : cfg.cache.InSync dir n.world tbl) (t : ImpuRegDataTask)
    {request : CacheRequest} (progress success : Callback)
    (hcallback : ∀ n, serveTask (.callback progress) n = ((), n) ∧
      serveTask (.callback success) n = ((), n))
    {failureCb : Status → TaskProg (Option ImpuRegDataTask)} :
    ∃ n' w reply, Eval serveTask (addWork request >>= fun _ =>
        (cfg.cache.perform action x).interp (runCall (do callback progress; t.sendReply))
          >>= HssCacheProcessor.done (do callback success; finish) failureCb) n none n' ∧
      n.After w [reply] n' ∧ IsReply t.httpRc reply ∧ cfg.cache.InSync dir w tbl' := by
  have hprogress : ∀ m : Node, ∃ m' seen,
      Eval serveTask (do callback progress; t.sendReply) m () m' ∧ m.After m.world seen m' ∧
      ∃ reply, seen = [reply] ∧ IsReply t.httpRc reply := by
    intro m
    obtain ⟨m', reply, hsend, hafter, hreply⟩ := t.eval_sendReply m
    refine ⟨m', [reply], .call ?_, hafter, reply, rfl, hreply⟩
    rw [(hcallback m).1]
    exact hsend
  have hsuccess : ∀ m, Eval serveTask (do callback success; finish) m none m := by
    intro m
    refine .call ?_
    rw [(hcallback m).2]
    exact eval_finish _
  obtain ⟨n', w, _, he, hafter, ⟨reply, rfl, hreply⟩, hsync'⟩ :=
    hupdates.eval_operation hdistinct hx hsync request _ hprogress _ failureCb hsuccess
  exact ⟨n', w, reply, he, hafter, hreply, hsync'⟩

/-- `put_in_cache`, for a document with identities. -/
theorem eval_putInCache {dir : Directory} {D : String} {tbl : Table}
    (hdistinct : cfg.cache.stores.Nodup) {irs : Irs}
    (hids : (cfg.px.getPublicAndDefaultIds irs.imsSubXml "").1 ≠ []) (hchanged : irs.hasChanged = true)
    (hD : dir.defaultOf D = some D) (hputs : irs.PutsFor dir D (tbl D)) {n : Node}
    (hsync : cfg.cache.InSync dir n.world tbl) (t : ImpuRegDataTask) :
    ∃ n' w reply, Eval serveTask (t.putInCache cfg irs) n none n' ∧ n.After w [reply] n' ∧
      IsReply t.httpRc reply ∧
      cfg.cache.InSync dir w (Function.update tbl D (some irs.registration)) := by
  unfold putInCache HssCacheProcessor.putImplicitRegistrationSet
    MemcachedCache.putImplicitRegistrationSet
  rw [if_neg hids, if_pos hchanged]
  exact eval_changing (updates_putIrsAction hD tbl irs.registration) hdistinct ⟨hputs, rfl⟩ hsync t
    .onPutRegDataProgress .onPutRegDataSuccess fun _ => ⟨rfl, rfl⟩

/-- The deletion of an IRS that was read. -/
theorem eval_deleteFromCache {dir : Directory} {D : String} {tbl : Table}
    (hdistinct : cfg.cache.stores.Nodup) {irs : Irs} (hexisting : irs.existing = true)
    (hD : dir.defaultOf D = some D) (hcovers : irs.Covers dir D (tbl D)) {n : Node}
    (hsync : cfg.cache.InSync dir n.world tbl) (t : ImpuRegDataTask) :
    ∃ n' w reply, Eval serveTask (t.deleteFromCache cfg irs) n none n' ∧ n.After w [reply] n' ∧
      IsReply t.httpRc reply ∧ cfg.cache.InSync dir w (Function.update tbl D none) := by
  unfold deleteFromCache HssCacheProcessor.deleteImplicitRegistrationSet
    MemcachedCache.deleteImplicitRegistrationSet
  rw [if_pos hexisting]
  exact eval_changing (updates_deleteIrsAction hD tbl) hdistinct hcovers hsync t .onDelImpuProgress
    .onDelImpuSuccess fun _ => ⟨rfl, rfl⟩

/-! ### Lookups -/

/-- The lookup that a request starts with, when it finds an IRS. -/
theorem eval_getRegData_found {t : ImpuRegDataTask} {n n' : Node} {irs : Irs} {w : World}
    (he : Eval serve (cfg.cache.getImplicitRegistrationSetForImpu t.publicId) n.world
      (.ok, some irs) w) {r : Option ImpuRegDataTask}
    (hnext : Eval serveTask (t.processReceivedRegData cfg irs)
      (Node.saw { n with world := w } (.found irs.registration)) r n') :
    Eval serveTask (t.getRegData cfg) n r n' := by
  have hlookup := only_getImplicitRegistrationSetForImpu cfg.cache t.publicId
  refine (eval_addWork _ _).bind
    ((eval_cacheProg (hlookup.mono fun _ h => h.ne_progressCb) he).bind ?_)
  exact .call hnext

/-- The lookup when it finds nothing. -/
theorem eval_getRegData_none {t : ImpuRegDataTask} {n n' : Node} {w : World}
    (he : Eval serve (cfg.cache.getImplicitRegistrationSetForImpu t.publicId) n.world
      (.notFound, none) w) {r : Option ImpuRegDataTask}
    (hnext : Eval serveTask
      (if t.req.method = .put then do
        let uninitialised ← createImplicitRegistrationSet
        t.processReceivedRegData cfg
          ((Irs.new uninitialised.1 uninitialised.2).setRegState .notRegistered)
      else rejectWith httpNotFound)
      (Node.saw { n with world := w } (.notFound .notFound)) r n') :
    Eval serveTask (t.getRegData cfg) n r n' := by
  have hlookup := only_getImplicitRegistrationSetForImpu cfg.cache t.publicId
  refine (eval_addWork _ _).bind
    ((eval_cacheProg (hlookup.mono fun _ h => h.ne_progressCb) he).bind ?_)
  exact .call hnext

end ImpuRegDataTask

end Homestead
