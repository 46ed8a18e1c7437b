import Homestead.Proofs.SoloGet
import Mathlib.Data.List.Forall2

/-!
# `Homestead.Proofs.Lookup`: which lookups of several identities are complete

The interface promises the list of IRSs for a list of IMPUs, for a list of IMPIs, and every
IRS of the subscription of an IMPI. `completeForImpus`, `completeForImpi` and
`completeForImpis` state that promise over the answers of the single lookups.

The loop of `get_implicit_registration_sets_for_impus` is left after the first IMPU it
finds (`firstFound`). `lookups_complete_iff` says for which lists each of the three
functions keeps the promise all the same.
-/

set_option autoImplicit false

namespace Homestead

open CacheProg

/-- A status that is neither `OK` nor `NOT_FOUND`. -/
def Status.isFailure (st : Status) : Bool := decide (st ≠ .ok ∧ st ≠ .notFound)

/-- The answers of several lookups put together: the first failure, with no result, and
otherwise all the results in order. -/
def collect {α β : Type} (f : α → Status × List β) (xs : List α) : Status × List β :=
  match xs.find? fun x => (f x).1.isFailure with
  | some x => ((f x).1, [])
  | none => (.ok, xs.flatMap fun x => (f x).2)

section Promise

variable (look : String → Status × Option DefaultImpu)
variable (mapped : String → Status × Option ImpiMapping)

/-- The lookup of one IMPU, with the record it finds. -/
def answerOf (impu : String) : Status × List DefaultImpu :=
  ((look impu).1, (look impu).2.toList)

/-- The records a lookup of a list of IMPUs is to return: one for each IMPU that is found. -/
def completeForImpus (impus : List String) : Status × List DefaultImpu :=
  collect (answerOf look) impus

/-- The records a lookup of an IMPI is to return: those of the default IMPUs in its
mapping. -/
def completeForImpi (impi : String) : Status × List DefaultImpu :=
  match mapped impi with
  | (.ok, some m) => completeForImpus look m.defaultImpus
  | (st, _) => (st, [])

/-- The records a lookup of a list of IMPIs is to return. -/
def completeForImpis (impis : List String) : Status × List DefaultImpu :=
  collect (completeForImpi look mapped) impis

/-- What the loop over IMPUs returns. -/
def firstFound : List String → Status × List DefaultImpu
  | [] => (.ok, [])
  | impu :: impus =>
    match look impu with
    | (.ok, some d) => (.ok, [d])
    | (.notFound, _) => firstFound impus
    | (st, _) => (st, [])

/-- The first IMPU that is found, if no failure comes before it, is followed only by IMPUs
that are not found, or whose records are related to its own by `P`. -/
def FoundThen (P : DefaultImpu → DefaultImpu → Prop) : List String → Prop
  | [] => True
  | impu :: impus =>
    match look impu with
    | (.ok, some d) => ∀ impu' ∈ impus, (look impu').1 = .notFound ∨
        ∃ d', look impu' = (.ok, some d') ∧ P d d'
    | (.notFound, _) => FoundThen P impus
    | _ => True

/-- No found IMPU is followed by anything but IMPUs that are not found. -/
def OnlyOneFound : List String → Prop := FoundThen look fun _ _ => False

/-- The first IMPU that is not `NOT_FOUND` fails. -/
def FailsFirst : List String → Prop
  | [] => False
  | impu :: impus =>
    match (look impu).1 with
    | .notFound => FailsFirst impus
    | .ok => False
    | _ => True

/-- The lookup of the mapping fails, or the first default IMPU in it that is not
`NOT_FOUND` does. -/
def ImpiFails (impi : String) : Prop :=
  match mapped impi with
  | (.ok, some m) => FailsFirst look m.defaultImpus
  | (.notFound, _) => False
  | _ => True

end Promise

/-! ### Collecting answers -/

theorem collect_cons_failure {α β : Type} {f : α → Status × List β} {x : α} (xs : List α)
    (h : (f x).1.isFailure = true) : collect f (x :: xs) = ((f x).1, []) := by
  simp [collect, h]

/-- A first lookup that does not fail adds its results in front of those of the rest. -/
theorem collect_cons_ok {α β : Type} {f : α → Status × List β} {x : α} {xs : List α}
    {ys : List β} (h : (f x).1.isFailure = false) (hys : collect f xs = (.ok, ys)) :
    collect f (x :: xs) = (.ok, (f x).2 ++ ys) := by
  unfold collect at hys ⊢
  rw [List.find?_cons_of_neg (by simp [h])]
  cases hfind : xs.find? fun x => (f x).1.isFailure with
  | none =>
    rw [hfind] at hys
    cases hys
    simp
  | some y =>
    have hy : (f y).1.isFailure = true := by simpa using List.find?_some hfind
    rw [hfind] at hys
    rw [show (f y).1 = .ok from congrArg Prod.fst hys] at hy
    cases hy

/-- A failure among the rest is the failure of the whole. -/
theorem collect_cons_error {α β : Type} {f : α → Status × List β} {x : α} {xs : List α}
    (h : (f x).1.isFailure = false) (herr : collect f xs = (.error, [])) :
    collect f (x :: xs) = (.error, []) := by
  unfold collect at herr ⊢
  rw [List.find?_cons_of_neg (by simp [h])]
  cases hfind : xs.find? fun x => (f x).1.isFailure with
  | none =>
    rw [hfind] at herr
    cases herr
  | some y =>
    rw [hfind] at herr
    exact herr

theorem collect_of_forall {α β : Type} {f : α → Status × List β} {xs : List α}
    (h : ∀ x ∈ xs, (f x).1.isFailure = false) :
    collect f xs = (.ok, xs.flatMap fun x => (f x).2) := by
  have hfind : xs.find? (fun x => (f x).1.isFailure) = none :=
    List.find?_eq_none.mpr fun x hx => by simp [h x hx]
  simp [collect, hfind]

/-- With one kind of failure, some failing lookup decides the answer. -/
theorem collect_of_exists {α β : Type} {f : α → Status × List β} {xs : List α}
    (hf : ∀ x, (f x).1.isFailure = true → (f x).1 = .error)
    (h : ∃ x ∈ xs, (f x).1.isFailure = true) : collect f xs = (.error, []) := by
  unfold collect
  cases hfind : xs.find? fun x => (f x).1.isFailure with
  | none =>
    obtain ⟨x, hx, hfail⟩ := h
    exact absurd hfail (by simpa using List.find?_eq_none.mp hfind x hx)
  | some y =>
    have hy : (f y).1.isFailure = true := by simpa using List.find?_some hfind
    simp [hf y hy]

/-! ### The loop against the promise -/

section Outcome

variable {look : String → Status × Option DefaultImpu}

theorem answerOf_of_eq {impu : String} {st : Status} {r : Option DefaultImpu}
    (h : look impu = (st, r)) : answerOf look impu = (st, r.toList) := by
  simp [answerOf, h]

theorem completeForImpus_cons_error {impu : String} (impus : List String)
    (h : look impu = (.error, none)) : completeForImpus look (impu :: impus) = (.error, []) := by
  have hx := answerOf_of_eq h
  unfold completeForImpus
  rw [collect_cons_failure _ (by rw [hx]; rfl), hx]

/-- Every lookup answers, so the records to return are there or some lookup fails. -/
theorem completeForImpus_answer (hlook : ∀ x, IsAnswer (look x)) (impus : List String) :
    (∃ ds, completeForImpus look impus = (.ok, ds)) ∨
      completeForImpus look impus = (.error, []) := by
  by_cases hfail : ∃ x ∈ impus, (answerOf look x).1.isFailure = true
  · refine .inr (collect_of_exists (fun x hx => ?_) hfail)
    have hx' := hlook x
    unfold answerOf at hx ⊢
    generalize look x = found at hx hx' ⊢
    cases hx' with
    | found d => cases hx
    | notFound => cases hx
    | error => rfl
  · refine .inl ⟨_, collect_of_forall fun x hx => ?_⟩
    simpa using fun h => hfail ⟨x, hx, h⟩

theorem completeForImpus_cons_notFound (hlook : ∀ x, IsAnswer (look x)) {impu : String}
    (impus : List String) (h : look impu = (.notFound, none)) :
    completeForImpus look (impu :: impus) = completeForImpus look impus := by
  have hx := answerOf_of_eq h
  have hskip : (answerOf look impu).1.isFailure = false := by
    rw [hx]
    rfl
  rcases completeForImpus_answer hlook impus with ⟨ds, hds⟩ | herr
  · rw [hds]
    have hcons := collect_cons_ok hskip hds
    rw [hx] at hcons
    exact hcons
  · rw [herr]
    exact collect_cons_error hskip herr

theorem completeForImpus_cons_found {impu : String} {impus : List String} {d : DefaultImpu}
    {ds : List DefaultImpu} (h : look impu = (.ok, some d))
    (hds : completeForImpus look impus = (.ok, ds)) :
    completeForImpus look (impu :: impus) = (.ok, d :: ds) := by
  have hx := answerOf_of_eq h
  have hcons := collect_cons_ok (by rw [hx]; rfl) hds
  rw [hx] at hcons
  exact hcons

theorem completeForImpus_cons_of_error {impu : String} {impus : List String} {d : DefaultImpu}
    (h : look impu = (.ok, some d)) (herr : completeForImpus look impus = (.error, [])) :
    completeForImpus look (impu :: impus) = (.error, []) :=
  collect_cons_error (by rw [answerOf_of_eq h]; rfl) herr

/-- A list after the first found IMPU, by the records that are to be returned for it. -/
theorem forall_notFound_or_iff (hlook : ∀ x, IsAnswer (look x)) (P : DefaultImpu → Prop)
    (impus : List String) :
    (∀ x ∈ impus, (look x).1 = .notFound ∨ ∃ d, look x = (.ok, some d) ∧ P d) ↔
      ∃ ds, completeForImpus look impus = (.ok, ds) ∧ ∀ d ∈ ds, P d := by
  induction impus with
  | nil => simp [completeForImpus, collect]
  | cons x xs ih =>
    rw [List.forall_mem_cons, ih]
    have hx := hlook x
    generalize hlx : look x = found at hx
    cases hx with
    | found d =>
      constructor
      · rintro ⟨hd, ds, hds, hP⟩
        refine ⟨d :: ds, completeForImpus_cons_found hlx hds, ?_⟩
        simpa using ⟨by simpa using hd, hP⟩
      · rintro ⟨ds, hds, hP⟩
        rcases completeForImpus_answer hlook xs with ⟨ds', hds'⟩ | herr
        · rw [completeForImpus_cons_found hlx hds'] at hds
          cases hds
          rw [List.forall_mem_cons] at hP
          exact ⟨.inr ⟨d, rfl, hP.1⟩, ds', hds', hP.2⟩
        · rw [completeForImpus_cons_of_error hlx herr] at hds
          cases hds
    | notFound =>
      rw [completeForImpus_cons_notFound hlook xs hlx]
      simp
    | error =>
      rw [completeForImpus_cons_error xs hlx]
      simp

/-- What the loop returns for a list of IMPUs, against what it is to return, and when
`FoundThen` holds. -/
inductive Outcome (look : String → Status × Option DefaultImpu) (impus : List String) : Prop
  | fails (hfails : FailsFirst look impus) (hfirst : firstFound look impus = (.error, []))
      (hcomplete : completeForImpus look impus = (.error, []))
      (hthen : ∀ P, FoundThen look P impus)
  | nothing (hfails : ¬ FailsFirst look impus) (hfirst : firstFound look impus = (.ok, []))
      (hcomplete : completeForImpus look impus = (.ok, []))
      (hthen : ∀ P, FoundThen look P impus)
  | found (d : DefaultImpu) (ds : List DefaultImpu) (hfails : ¬ FailsFirst look impus)
      (hfirst : firstFound look impus = (.ok, [d]))
      (hcomplete : completeForImpus look impus = (.ok, d :: ds))
      (hthen : ∀ P, FoundThen look P impus ↔ ∀ d' ∈ ds, P d d')
  | cut (d : DefaultImpu) (hfails : ¬ FailsFirst look impus)
      (hfirst : firstFound look impus = (.ok, [d]))
      (hcomplete : completeForImpus look impus = (.error, []))
      (hthen : ∀ P, ¬ FoundThen look P impus)

theorem outcome (hlook : ∀ x, IsAnswer (look x)) (impus : List String) :
    Outcome look impus := by
  induction impus with
  | nil => exact .nothing id rfl rfl fun _ => trivial
  | cons x xs ih =>
    have hx := hlook x
    generalize hlx : look x = found at hx
    cases hx with
    | found d =>
      have hfails : ¬ FailsFirst look (x :: xs) := by simp [FailsFirst, hlx]
      have hfirst : firstFound look (x :: xs) = (.ok, [d]) := by simp [firstFound, hlx]
      have hthen : ∀ P, FoundThen look P (x :: xs) ↔
          ∃ ds, completeForImpus look xs = (.ok, ds) ∧ ∀ d' ∈ ds, P d d' := by
        intro P
        rw [← forall_notFound_or_iff hlook]
        simp [FoundThen, hlx]
      rcases completeForImpus_answer hlook xs with ⟨ds, hds⟩ | herr
      · refine .found d ds hfails hfirst (completeForImpus_cons_found hlx hds) fun P => ?_
        rw [hthen P, hds]
        simp
      · refine .cut d hfails hfirst (completeForImpus_cons_of_error hlx herr) fun P => ?_
        rw [hthen P, herr]
        simp
    | notFound =>
      -- The IMPU is passed over by the loop and by the promise.
      have hcomplete := completeForImpus_cons_notFound hlook xs hlx
      have hfails : FailsFirst look (x :: xs) ↔ FailsFirst look xs := by simp [FailsFirst, hlx]
      have hfirst : firstFound look (x :: xs) = firstFound look xs := by simp [firstFound, hlx]
      have hthen : ∀ P, FoundThen look P (x :: xs) ↔ FoundThen look P xs := by
        simp [FoundThen, hlx]
      cases ih with
      | fails h₁ h₂ h₃ h₄ =>
        exact .fails (hfails.mpr h₁) (hfirst.trans h₂) (hcomplete.trans h₃)
          fun P => (hthen P).mpr (h₄ P)
      | nothing h₁ h₂ h₃ h₄ =>
        exact .nothing (mt hfails.mp h₁) (hfirst.trans h₂) (hcomplete.trans h₃)
          fun P => (hthen P).mpr (h₄ P)
      | found d ds h₁ h₂ h₃ h₄ =>
        exact .found d ds (mt hfails.mp h₁) (hfirst.trans h₂) (hcomplete.trans h₃)
          fun P => (hthen P).trans (h₄ P)
      | cut d h₁ h₂ h₃ h₄ =>
        exact .cut d (mt hfails.mp h₁) (hfirst.trans h₂) (hcomplete.trans h₃)
          fun P => mt (hthen P).mp (h₄ P)
    | error =>
      exact .fails (by simp [FailsFirst, hlx]) (by simp [firstFound, hlx])
        (completeForImpus_cons_error xs hlx) fun P => by simp [FoundThen, hlx]

/-- The loop keeps the promise exactly when it has found one IMPU at most. -/
theorem onlyOneFound_iff (hlook : ∀ x, IsAnswer (look x)) (impus : List String) :
    OnlyOneFound look impus ↔ firstFound look impus = completeForImpus look impus := by
  unfold OnlyOneFound
  cases outcome hlook impus with
  | fails _ hfirst hcomplete hthen =>
    rw [hfirst, hcomplete]
    exact ⟨fun _ => rfl, fun _ => hthen _⟩
  | nothing _ hfirst hcomplete hthen =>
    rw [hfirst, hcomplete]
    exact ⟨fun _ => rfl, fun _ => hthen _⟩
  | found d ds _ hfirst hcomplete hthen =>
    rw [hfirst, hcomplete, hthen]
    simp [List.eq_nil_iff_forall_not_mem]
  | cut d _ hfirst hcomplete hthen =>
    rw [hfirst, hcomplete]
    exact ⟨fun h => absurd h (hthen _), nofun⟩

/-- Where no lookup fails, the loop returns part of what it is to return, and all of it only
when it has found one IMPU at most. -/
theorem firstFound_length_le (hlook : ∀ x, IsAnswer (look x)) {impus : List String}
    (hok : (completeForImpus look impus).1 = .ok) :
    (firstFound look impus).1 = .ok ∧
      (firstFound look impus).2.length ≤ (completeForImpus look impus).2.length ∧
      ((firstFound look impus).2.length = (completeForImpus look impus).2.length →
        OnlyOneFound look impus) := by
  rw [onlyOneFound_iff hlook]
  cases outcome hlook impus with
  | fails _ hfirst hcomplete =>
    rw [hcomplete] at hok
    cases hok
  | nothing _ hfirst hcomplete =>
    rw [hfirst, hcomplete]
    exact ⟨rfl, Nat.le_refl _, fun _ => rfl⟩
  | found d ds _ hfirst hcomplete =>
    rw [hfirst, hcomplete]
    refine ⟨rfl, by simp, fun hlen => ?_⟩
    have hds : ds = [] := by simpa using hlen
    rw [hds]
  | cut d _ hfirst hcomplete =>
    rw [hcomplete] at hok
    cases hok

end Outcome

/-! ### The lookups of the cache -/

/-- The IRS built from the record `d` at some reading of the clock. -/
def IsIrsOf (irs : Irs) (d : DefaultImpu) : Prop := ∃ now, irs = Irs.ofDefaultImpu d now

/-- What the loop over IMPIs takes from one IMPI. -/
def firstFoundForImpi (look : String → Status × Option DefaultImpu)
    (mapped : String → Status × Option ImpiMapping) (impi : String) :
    Status × List DefaultImpu :=
  match mapped impi with
  | (.ok, some m) => firstFound look m.defaultImpus
  | (st, _) => (st, [])

namespace MemcachedCache

theorem defaultImpuFor_congr (cache : MemcachedCache) {w w' : World} (h : w'.stores = w.stores) :
    cache.defaultImpuFor w' = cache.defaultImpuFor w := by
  funext impu
  simp only [defaultImpuFor, impuGr, h]

theorem mappingRemote_congr {w w' : World} (h : w'.stores = w.stores) (impi : String)
    (found : Status × Option ImpiMapping) (rs : List StoreId) :
    mappingRemote w' impi found rs = mappingRemote w impi found rs := by
  induction rs with
  | nil => rfl
  | cons r rs ih => simp only [mappingRemote, h, ih]

theorem mappingGr_congr (cache : MemcachedCache) {w w' : World} (h : w'.stores = w.stores) :
    cache.mappingGr w' = cache.mappingGr w := by
  funext impi
  simp only [mappingGr, h, mappingRemote_congr h]

/-- The loop over IMPUs returns the first one that is found. -/
theorem eval_impusLoop (cache : MemcachedCache) (impus : List String) (result : List Irs)
    (w : World) :
    ∃ irss w', Eval serve (BaseHssCache.impusLoop cache.getImplicitRegistrationSetForImpu impus
        result) w ((firstFound (cache.defaultImpuFor w) impus).1, result ++ irss) w' ∧
      w'.stores = w.stores ∧
      List.Forall₂ IsIrsOf irss (firstFound (cache.defaultImpuFor w) impus).2 := by
  induction impus with
  | nil =>
    refine ⟨[], w, ?_, rfl, .nil⟩
    rw [List.append_nil]
    exact .ret _ _
  | cons impu impus ih =>
    have hanswer := cache.isAnswer_defaultImpuFor w impu
    generalize hlook : cache.defaultImpuFor w impu = found at hanswer
    unfold firstFound
    rw [hlook]
    cases hanswer with
    | found d =>
      -- The loop ends with the first IMPU that is found.
      exact ⟨[Irs.ofDefaultImpu d (w.clock 0)], w.tick,
        (eval_getImplicitRegistrationSetForImpu_ok hlook).bind (.ret _ _), rfl,
        .cons ⟨_, rfl⟩ .nil⟩
    | notFound =>
      obtain ⟨irss, w', he, hrest⟩ := ih
      exact ⟨irss, w', (eval_getImplicitRegistrationSetForImpu_ne hlook (by decide)).bind he,
        hrest⟩
    | error =>
      refine ⟨[], w, (eval_getImplicitRegistrationSetForImpu_ne hlook (by decide)).bind ?_, rfl,
        .nil⟩
      rw [List.append_nil]
      exact .ret _ _

/-- The cleanup after the loop has nothing to clear. -/
theorem eval_getImplicitRegistrationSetsForImpus (cache : MemcachedCache) (impus : List String)
    (w : World) :
    ∃ irss w', Eval serve (cache.getImplicitRegistrationSetsForImpus impus []) w
        ((firstFound (cache.defaultImpuFor w) impus).1, irss) w' ∧ w'.stores = w.stores ∧
      List.Forall₂ IsIrsOf irss (firstFound (cache.defaultImpuFor w) impus).2 := by
  obtain ⟨irss, w', he, hstores, hirss⟩ := cache.eval_impusLoop impus [] w
  refine ⟨irss, w', he.bind ?_, hstores, hirss⟩
  unfold BaseHssCache.clearOnError
  cases outcome (cache.isAnswer_defaultImpuFor w) impus with
  | fails _ hfirst =>
    rw [hfirst] at hirss ⊢
    cases hirss
    exact .ret _ _
  | nothing _ hfirst =>
    rw [hfirst]
    exact .ret _ _
  | found d ds _ hfirst =>
    rw [hfirst]
    exact .ret _ _
  | cut d _ hfirst =>
    rw [hfirst]
    exact .ret _ _

theorem eval_getImpusForImpi (cache : MemcachedCache) (impi : String) (w : World) :
    Eval serve (cache.getImpusForImpi impi) w
      (match cache.mappingGr w impi with
        | (.ok, some m) => (.ok, m.defaultImpus)
        | (st, _) => (st, [])) w := by
  refine (cache.eval_getImpiMappingGr impi w).bind ?_
  have hanswer := cache.isAnswer_mappingGr w impi
  generalize cache.mappingGr w impi = found at hanswer
  cases hanswer with
  | found m => exact .ret _ _
  | notFound => exact .ret _ _
  | error => exact .ret _ _

theorem eval_getImplicitRegistrationSetsForImpi (cache : MemcachedCache) (impi : String)
    (w : World) :
    ∃ irss w', Eval serve (cache.getImplicitRegistrationSetsForImpi impi []) w
        ((firstFoundForImpi (cache.defaultImpuFor w) (cache.mappingGr w) impi).1, irss) w' ∧
      w'.stores = w.stores ∧ List.Forall₂ IsIrsOf irss
        (firstFoundForImpi (cache.defaultImpuFor w) (cache.mappingGr w) impi).2 := by
  have himpus := cache.eval_getImpusForImpi impi w
  unfold firstFoundForImpi
  have hanswer := cache.isAnswer_mappingGr w impi
  generalize cache.mappingGr w impi = found at hanswer himpus ⊢
  cases hanswer with
  | found m =>
    obtain ⟨irss, w', he, hrest⟩ :=
      cache.eval_getImplicitRegistrationSetsForImpus m.defaultImpus w
    exact ⟨irss, w', himpus.bind he, hrest⟩
  | notFound => exact ⟨[], w, himpus.bind (.ret _ _), rfl, .nil⟩
  | error => exact ⟨[], w, himpus.bind (.ret _ _), rfl, .nil⟩

/-- The answers for a single IMPI are `OK`, `NOT_FOUND` with nothing, or `ERROR` with
nothing, for the loop and for the promise. -/
theorem firstFoundForImpi_cases (cache : MemcachedCache) (w : World) (impi : String) :
    let look := cache.defaultImpuFor w
    let mapped := cache.mappingGr w
    (ImpiFails look mapped impi ∧ firstFoundForImpi look mapped impi = (.error, []) ∧
        completeForImpi look mapped impi = (.error, [])) ∨
      (¬ ImpiFails look mapped impi ∧ mapped impi = (.notFound, none) ∧
        firstFoundForImpi look mapped impi = (.notFound, []) ∧
        completeForImpi look mapped impi = (.notFound, [])) ∨
      ∃ m, mapped impi = (.ok, some m) ∧ ¬ ImpiFails look mapped impi ∧
        firstFoundForImpi look mapped impi = firstFound look m.defaultImpus ∧
        (firstFound look m.defaultImpus).1 = .ok ∧
        completeForImpi look mapped impi = completeForImpus look m.defaultImpus := by
  dsimp only
  have hanswer := cache.isAnswer_mappingGr w impi
  generalize hm : cache.mappingGr w impi = found at hanswer
  cases hanswer with
  | notFound =>
    exact .inr (.inl ⟨by simp [ImpiFails, hm], rfl, by simp [firstFoundForImpi, hm],
      by simp [completeForImpi, hm]⟩)
  | error =>
    exact .inl ⟨by simp [ImpiFails, hm], by simp [firstFoundForImpi, hm],
      by simp [completeForImpi, hm]⟩
  | found m =>
    have hfails : ImpiFails (cache.defaultImpuFor w) (cache.mappingGr w) impi ↔
        FailsFirst (cache.defaultImpuFor w) m.defaultImpus := by simp [ImpiFails, hm]
    have hfirst : firstFoundForImpi (cache.defaultImpuFor w) (cache.mappingGr w) impi
        = firstFound (cache.defaultImpuFor w) m.defaultImpus := by simp [firstFoundForImpi, hm]
    have hcomplete : completeForImpi (cache.defaultImpuFor w) (cache.mappingGr w) impi
        = completeForImpus (cache.defaultImpuFor w) m.defaultImpus := by
      simp [completeForImpi, hm]
    rw [hfails, hfirst, hcomplete]
    cases outcome (cache.isAnswer_defaultImpuFor w) m.defaultImpus with
    | fails h₁ h₂ h₃ => exact .inl ⟨h₁, h₂, h₃⟩
    | nothing h₁ h₂ => exact .inr (.inr ⟨m, rfl, h₁, rfl, by rw [h₂], rfl⟩)
    | found d ds h₁ h₂ => exact .inr (.inr ⟨m, rfl, h₁, rfl, by rw [h₂], rfl⟩)
    | cut d h₁ h₂ => exact .inr (.inr ⟨m, rfl, h₁, rfl, by rw [h₂], rfl⟩)

/-- The loop over IMPIs collects what it takes from each. -/
theorem eval_impisLoop (cache : MemcachedCache) (impis : List String) (result : List Irs)
    (w : World) :
    ∃ r w', Eval serve (BaseHssCache.impisLoop cache.getImplicitRegistrationSetForImpu
        cache.getImpusForImpi impis result) w r w' ∧ w'.stores = w.stores ∧
      ((∃ irss ds, collect (firstFoundForImpi (cache.defaultImpuFor w) (cache.mappingGr w)) impis
            = (.ok, ds) ∧ r = (.ok, result ++ irss) ∧ List.Forall₂ IsIrsOf irss ds) ∨
        collect (firstFoundForImpi (cache.defaultImpuFor w) (cache.mappingGr w)) impis
            = (.error, []) ∧ r.1 = .error) := by
  induction impis generalizing result w with
  | nil =>
    refine ⟨(.ok, result), w, .ret _ _, rfl, .inl ⟨[], [], rfl, ?_, .nil⟩⟩
    rw [List.append_nil]
  | cons impi impis ih =>
    obtain ⟨irss, w₁, he, hw₁, hirss⟩ := cache.eval_getImplicitRegistrationSetsForImpi impi w
    -- The rest of the loop runs on the same stores.
    have hrest : ∀ result', ∃ r w', Eval serve (BaseHssCache.impisLoop
          cache.getImplicitRegistrationSetForImpu cache.getImpusForImpi impis result') w₁ r w' ∧
        w'.stores = w.stores ∧ _ := fun result' => by
      have hih := ih result' w₁
      rw [cache.defaultImpuFor_congr hw₁, cache.mappingGr_congr hw₁, hw₁] at hih
      exact hih
    rcases cache.firstFoundForImpi_cases w impi with ⟨-, hfirst, -⟩ | ⟨-, -, hfirst, -⟩ |
      ⟨m, -, -, hfirst, hok, -⟩
    · rw [hfirst] at he hirss
      refine ⟨(.error, result), w₁, he.bind (.ret _ _), hw₁, .inr ⟨?_, rfl⟩⟩
      rw [collect_cons_failure _ (by rw [hfirst]; rfl), hfirst]
    · rw [hfirst] at he hirss
      have hskip : (firstFoundForImpi (cache.defaultImpuFor w) (cache.mappingGr w)
          impi).1.isFailure = false := by
        rw [hfirst]
        rfl
      obtain ⟨r, w', he', hw', hcase⟩ := hrest result
      refine ⟨r, w', he.bind he', hw', ?_⟩
      rcases hcase with ⟨irss', ds, hds, hr, hirss'⟩ | ⟨herr, hr⟩
      · left
        refine ⟨irss', ds, ?_, hr, hirss'⟩
        rw [collect_cons_ok hskip hds, hfirst]
        rfl
      · exact .inr ⟨collect_cons_error hskip herr, hr⟩
    · have hst : (firstFoundForImpi (cache.defaultImpuFor w) (cache.mappingGr w) impi).1 = .ok := by
        rw [hfirst]
        exact hok
      rw [hst] at he
      have hskip : (firstFoundForImpi (cache.defaultImpuFor w) (cache.mappingGr w)
          impi).1.isFailure = false := by
        rw [hst]
        rfl
      obtain ⟨r, w', he', hw', hcase⟩ := hrest (result ++ irss)
      refine ⟨r, w', he.bind he', hw', ?_⟩
      rcases hcase with ⟨irss', ds, hds, hr, hirss'⟩ | ⟨herr, hr⟩
      · left
        refine ⟨irss ++ irss', _, collect_cons_ok hskip hds, ?_, List.rel_append hirss hirss'⟩
        rw [hr, List.append_assoc]
      · exact .inr ⟨collect_cons_error hskip herr, hr⟩

theorem eval_getImplicitRegistrationSetsForImpis (cache : MemcachedCache) (impis : List String)
    (w : World) :
    ∃ irss w', Eval serve (cache.getImplicitRegistrationSetsForImpis impis []) w
        ((collect (firstFoundForImpi (cache.defaultImpuFor w) (cache.mappingGr w)) impis).1,
          irss) w' ∧
      List.Forall₂ IsIrsOf irss
        (collect (firstFoundForImpi (cache.defaultImpuFor w) (cache.mappingGr w)) impis).2 := by
  obtain ⟨r, w', he, -, hcase⟩ := cache.eval_impisLoop impis [] w
  rcases hcase with ⟨irss, ds, hds, rfl, hirss⟩ | ⟨herr, hr⟩
  · rw [hds]
    exact ⟨irss, w', he.bind (.ret _ _), hirss⟩
  · rw [herr]
    refine ⟨[], w', he.bind ?_, .nil⟩
    unfold BaseHssCache.clearOnError
    rw [hr]
    exact .ret _ _

end MemcachedCache

/-! ### Completeness -/

/-- The answer of a list lookup is what was promised. -/
structure Returns (r : Status × List Irs) (promise : Status × List DefaultImpu) : Prop where
  status : r.1 = promise.1
  irss : List.Forall₂ IsIrsOf r.2 promise.2

/-- The answer of the lookup of a subscription is what was promised: it has the IRS of
every record. -/
def ReturnsSubscription (r : Status × Option ImsSubscription)
    (promise : Status × List DefaultImpu) : Prop :=
  match promise with
  | (.ok, ds) => ∃ sub, r = (.ok, some sub) ∧
      ∀ d ∈ ds, ∃ irs, sub.getIrsForDefaultImpu d.impu = some irs ∧ IsIrsOf irs d
  | (st, _) => r = (st, none)

/-- The lookup of a list of IMPUs is complete exactly when it has found one at most. -/
theorem forImpus_complete_iff (cache : MemcachedCache) (w : World) (impus : List String) :
    (∃ r w', Eval serve (cache.getImplicitRegistrationSetsForImpus impus []) w r w' ∧
        Returns r (completeForImpus (cache.defaultImpuFor w) impus)) ↔
      OnlyOneFound (cache.defaultImpuFor w) impus := by
  obtain ⟨irss, w₁, he₁, -, hirss⟩ := cache.eval_getImplicitRegistrationSetsForImpus impus w
  rw [he₁.exists_iff]
  constructor
  · intro hr
    rcases completeForImpus_answer (cache.isAnswer_defaultImpuFor w) impus with ⟨ds, hds⟩ | herr
    · -- As many IRSs are returned as there are records to return.
      have hok : (completeForImpus (cache.defaultImpuFor w) impus).1 = .ok := by rw [hds]
      exact (firstFound_length_le (cache.isAnswer_defaultImpuFor w) hok).2.2
        (hirss.length_eq.symm.trans hr.irss.length_eq)
    · rw [onlyOneFound_iff (cache.isAnswer_defaultImpuFor w), herr]
      refine Prod.ext (by rw [hr.status, herr]) ?_
      have hlen := hirss.length_eq.symm.trans hr.irss.length_eq
      rw [herr] at hlen
      exact List.eq_nil_of_length_eq_zero hlen
  · intro hone
    rw [onlyOneFound_iff (cache.isAnswer_defaultImpuFor w)] at hone
    rw [← hone]
    exact ⟨rfl, hirss⟩

/-- Lists whose lengths are bounded one by one: the totals are bounded, and are equal only
if each length is. -/
theorem flatMap_length_le {α β γ : Type} {f : α → List β} {g : α → List γ} {xs : List α}
    (hle : ∀ x ∈ xs, (f x).length ≤ (g x).length) :
    (xs.flatMap f).length ≤ (xs.flatMap g).length ∧
      ((xs.flatMap f).length = (xs.flatMap g).length →
        ∀ x ∈ xs, (f x).length = (g x).length) := by
  induction xs with
  | nil => exact ⟨Nat.le_refl _, fun _ x hx => absurd hx List.not_mem_nil⟩
  | cons y ys ih =>
    rw [List.forall_mem_cons] at hle
    obtain ⟨hy, hys⟩ := hle
    obtain ⟨htail, heq⟩ := ih hys
    simp only [List.flatMap_cons, List.length_append, List.forall_mem_cons]
    exact ⟨by omega, fun h => ⟨by omega, heq (by omega)⟩⟩

section Impis

variable {cache : MemcachedCache} {w : World} {impis : List String}

/-- A failure of the promise for one IMPI is an `ERROR`. -/
theorem completeForImpi_error (impi : String)
    (hfail : (completeForImpi (cache.defaultImpuFor w) (cache.mappingGr w) impi).1.isFailure
      = true) :
    (completeForImpi (cache.defaultImpuFor w) (cache.mappingGr w) impi).1 = .error := by
  rcases cache.firstFoundForImpi_cases w impi with ⟨-, -, h⟩ | ⟨-, -, -, h⟩ | ⟨m, -, -, -, -, h⟩
  · rw [h]
  · rw [h] at hfail
    cases hfail
  · rw [h] at hfail ⊢
    rcases completeForImpus_answer (cache.isAnswer_defaultImpuFor w) m.defaultImpus with
      ⟨ds, hds⟩ | herr
    · rw [hds] at hfail
      cases hfail
    · rw [herr]

/-- Where the lookup of one IMPI fails, the loop and the promise both do. -/
theorem collect_of_impiFails
    (hfails : ∃ impi ∈ impis, ImpiFails (cache.defaultImpuFor w) (cache.mappingGr w) impi) :
    collect (firstFoundForImpi (cache.defaultImpuFor w) (cache.mappingGr w)) impis
        = (.error, []) ∧
      completeForImpis (cache.defaultImpuFor w) (cache.mappingGr w) impis = (.error, []) := by
  obtain ⟨impi, hmem, hf⟩ := hfails
  -- The IMPI that fails does so for both.
  have hboth : firstFoundForImpi (cache.defaultImpuFor w) (cache.mappingGr w) impi = (.error, []) ∧
      completeForImpi (cache.defaultImpuFor w) (cache.mappingGr w) impi = (.error, []) := by
    rcases cache.firstFoundForImpi_cases w impi with ⟨-, h⟩ | ⟨hnot, -⟩ | ⟨m, -, hnot, -⟩
    · exact h
    · exact absurd hf hnot
    · exact absurd hf hnot
  constructor
  · refine collect_of_exists (fun impi' hfail => ?_) ⟨impi, hmem, by rw [hboth.1]; rfl⟩
    rcases cache.firstFoundForImpi_cases w impi' with ⟨-, h, -⟩ | ⟨-, -, h, -⟩ | ⟨m, -, -, h, hok, -⟩
    · rw [h]
    · rw [h] at hfail
      cases hfail
    · rw [h, hok] at hfail
      cases hfail
  · exact collect_of_exists completeForImpi_error ⟨impi, hmem, by rw [hboth.2]; rfl⟩

/-- Where no lookup of an IMPI fails, the loop collects what it takes from each. -/
theorem collect_of_not_impiFails
    (hfails : ¬ ∃ impi ∈ impis, ImpiFails (cache.defaultImpuFor w) (cache.mappingGr w) impi) :
    (∀ impi ∈ impis,
        (firstFoundForImpi (cache.defaultImpuFor w) (cache.mappingGr w) impi).1.isFailure = false) ∧
      collect (firstFoundForImpi (cache.defaultImpuFor w) (cache.mappingGr w)) impis
        = (.ok, impis.flatMap fun impi =>
          (firstFoundForImpi (cache.defaultImpuFor w) (cache.mappingGr w) impi).2) := by
  have hok : ∀ impi ∈ impis,
      (firstFoundForImpi (cache.defaultImpuFor w) (cache.mappingGr w) impi).1.isFailure = false := by
    intro impi hmem
    rcases cache.firstFoundForImpi_cases w impi with ⟨hf, -⟩ | ⟨-, -, h, -⟩ | ⟨m, -, -, h, hok, -⟩
    · exact absurd ⟨impi, hmem, hf⟩ hfails
    · rw [h]
      rfl
    · rw [h, hok]
      rfl
  exact ⟨hok, collect_of_forall hok⟩

/-- Where the promise is `OK`, one mapping at a time the loop returns part of it, and all of it
only when the mapping leads to one record at most. -/
theorem firstFoundForImpi_length_le {impi : String}
    (hok : (completeForImpi (cache.defaultImpuFor w) (cache.mappingGr w) impi).1.isFailure
      = false) :
    (firstFoundForImpi (cache.defaultImpuFor w) (cache.mappingGr w) impi).2.length
        ≤ (completeForImpi (cache.defaultImpuFor w) (cache.mappingGr w) impi).2.length ∧
      ((firstFoundForImpi (cache.defaultImpuFor w) (cache.mappingGr w) impi).2.length
          = (completeForImpi (cache.defaultImpuFor w) (cache.mappingGr w) impi).2.length →
        ∀ m, cache.mappingGr w impi = (.ok, some m) →
          OnlyOneFound (cache.defaultImpuFor w) m.defaultImpus) := by
  rcases cache.firstFoundForImpi_cases w impi with
    ⟨-, -, h⟩ | ⟨-, hnone, h, h'⟩ | ⟨m, hm, -, h, -, h'⟩
  · rw [h] at hok
    cases hok
  · rw [h, h']
    refine ⟨Nat.le_refl _, fun _ m hm => ?_⟩
    rw [hnone] at hm
    cases hm
  · rw [h'] at hok
    rw [h, h']
    -- The complete answer did not fail, so no IMPU of the mapping did.
    have hpart : (completeForImpus (cache.defaultImpuFor w) m.defaultImpus).1 = .ok := by
      rcases completeForImpus_answer (cache.isAnswer_defaultImpuFor w) m.defaultImpus with
        ⟨ds, hds⟩ | herr
      · rw [hds]
      · rw [herr] at hok
        cases hok
    obtain ⟨-, hle, hone⟩ := firstFound_length_le (cache.isAnswer_defaultImpuFor w) hpart
    refine ⟨hle, fun hlen m' hm' => ?_⟩
    rw [hm] at hm'
    cases hm'
    exact hone hlen

/-- A mapping that leads to one record at most keeps the promise. -/
theorem completeForImpi_of_onlyOneFound {impi : String}
    (hone : ∀ m, cache.mappingGr w impi = (.ok, some m) →
      OnlyOneFound (cache.defaultImpuFor w) m.defaultImpus) :
    completeForImpi (cache.defaultImpuFor w) (cache.mappingGr w) impi
      = firstFoundForImpi (cache.defaultImpuFor w) (cache.mappingGr w) impi := by
  rcases cache.firstFoundForImpi_cases w impi with
    ⟨-, h, h'⟩ | ⟨-, -, h, h'⟩ | ⟨m, hm, -, h, -, h'⟩
  · rw [h, h']
  · rw [h, h']
  · rw [h, h']
    exact ((onlyOneFound_iff (cache.isAnswer_defaultImpuFor w) _).mp (hone m hm)).symm

end Impis

/-- The lookup of a list of IMPIs is complete exactly when it fails, or every mapping leads
to one record at most. -/
theorem forImpis_complete_iff (cache : MemcachedCache) (w : World) (impis : List String) :
    (∃ r w', Eval serve (cache.getImplicitRegistrationSetsForImpis impis []) w r w' ∧
        Returns r (completeForImpis (cache.defaultImpuFor w) (cache.mappingGr w) impis)) ↔
      (∃ impi ∈ impis, ImpiFails (cache.defaultImpuFor w) (cache.mappingGr w) impi) ∨
        ∀ impi ∈ impis, ∀ m, cache.mappingGr w impi = (.ok, some m) →
          OnlyOneFound (cache.defaultImpuFor w) m.defaultImpus := by
  obtain ⟨irss, w₁, he₁, hirss⟩ := cache.eval_getImplicitRegistrationSetsForImpis impis w
  rw [he₁.exists_iff]
  by_cases hfails : ∃ impi ∈ impis, ImpiFails (cache.defaultImpuFor w) (cache.mappingGr w) impi
  · obtain ⟨hcode, hcomplete⟩ := collect_of_impiFails hfails
    have hirss' : irss = [] := by
      rw [hcode] at hirss
      cases hirss
      rfl
    rw [hcode, hcomplete, hirss']
    exact ⟨fun _ => .inl hfails, fun _ => ⟨rfl, .nil⟩⟩
  · obtain ⟨hnofail, hcode⟩ := collect_of_not_impiFails hfails
    rw [hcode] at hirss
    rw [hcode, or_iff_right hfails]
    constructor
    · intro hr
      -- The promise is `OK` too, and no longer than what the loop returns.
      have hok : ∀ impi ∈ impis,
          (completeForImpi (cache.defaultImpuFor w) (cache.mappingGr w) impi).1.isFailure = false := by
        intro impi hmem
        by_contra hfail
        have herr : completeForImpis (cache.defaultImpuFor w) (cache.mappingGr w) impis
            = (.error, []) :=
          collect_of_exists completeForImpi_error ⟨impi, hmem, by simpa using hfail⟩
        have hstatus := hr.status
        rw [herr] at hstatus
        cases hstatus
      have hcomplete : completeForImpis (cache.defaultImpuFor w) (cache.mappingGr w) impis = _ :=
        collect_of_forall hok
      have hlen := hirss.length_eq.symm.trans hr.irss.length_eq
      rw [hcomplete] at hlen
      have heq := (flatMap_length_le fun impi hmem =>
        (firstFoundForImpi_length_le (hok impi hmem)).1).2 hlen
      exact fun impi hmem => (firstFoundForImpi_length_le (hok impi hmem)).2 (heq impi hmem)
    · intro hone
      have hsame : ∀ impi ∈ impis,
          completeForImpi (cache.defaultImpuFor w) (cache.mappingGr w) impi
            = firstFoundForImpi (cache.defaultImpuFor w) (cache.mappingGr w) impi :=
        fun impi hmem => completeForImpi_of_onlyOneFound (hone impi hmem)
      have hcomplete : completeForImpis (cache.defaultImpuFor w) (cache.mappingGr w) impis
          = (.ok, impis.flatMap fun impi =>
            (completeForImpi (cache.defaultImpuFor w) (cache.mappingGr w) impi).2) :=
        collect_of_forall fun impi hmem => by rw [hsame impi hmem]; exact hnofail impi hmem
      have hflat : (impis.flatMap fun impi =>
          (completeForImpi (cache.defaultImpuFor w) (cache.mappingGr w) impi).2)
            = impis.flatMap fun impi =>
              (firstFoundForImpi (cache.defaultImpuFor w) (cache.mappingGr w) impi).2 :=
        List.flatMap_congr fun impi hmem => by rw [hsame impi hmem]
      rw [hcomplete, hflat]
      exact ⟨rfl, hirss⟩

/-- The records to return are answers of single lookups. -/
theorem exists_look_of_mem {look : String → Status × Option DefaultImpu}
    (hlook : ∀ x, IsAnswer (look x)) {impus : List String} {ds : List DefaultImpu}
    (hds : completeForImpus look impus = (.ok, ds)) {d : DefaultImpu} (hd : d ∈ ds) :
    ∃ impu, look impu = (.ok, some d) := by
  unfold completeForImpus collect at hds
  split at hds
  · obtain ⟨-, rfl⟩ := Prod.mk.inj hds
    exact absurd hd List.not_mem_nil
  · obtain ⟨-, rfl⟩ := Prod.mk.inj hds
    obtain ⟨impu, -, hmem⟩ := List.mem_flatMap.mp hd
    refine ⟨impu, ?_⟩
    have hanswer := hlook impu
    unfold answerOf at hmem
    generalize look impu = found at hmem hanswer
    cases hanswer with
    | found d' =>
      rw [show d = d' by simpa using hmem]
    | notFound => exact absurd hmem List.not_mem_nil
    | error => exact absurd hmem List.not_mem_nil

/-- A record that a lookup finds is the one under its own key. -/
theorem MemcachedCache.impuGr_of_look {cache : MemcachedCache} {w : World} {impu : String}
    {d : DefaultImpu} (h : cache.defaultImpuFor w impu = (.ok, some d)) :
    cache.impuGr w d.impu = (.ok, some (.default d)) := by
  -- What a store holds under a key has that key as its name.
  have hkey : ∀ {k r}, cache.impuGr w k = (.ok, some (.default r)) → r.impu = k := by
    intro k r hr
    obtain ⟨s, -, hread⟩ := exists_store_of_impuGr hr
    obtain ⟨cas, data, -, hdata⟩ := ImpuStore.cells_of_getImpu hread
    cases data with
    | default d =>
      cases hdata
      rfl
    | associated D expiry => cases hdata
  obtain ⟨r, hr⟩ := impuGr_of_defaultImpuFor h
  unfold defaultImpuFor at h
  rw [hr] at h
  cases r with
  | default d' =>
    cases h
    rw [hkey hr]
    exact hr
  | associated a =>
    have htarget : checkTarget impu (cache.impuGr w a.defaultImpu) = (.ok, some d) := h
    have hanswer := cache.isAnswer_impuGr w a.defaultImpu
    generalize hfound : cache.impuGr w a.defaultImpu = found at hanswer htarget
    cases hanswer with
    | found r =>
      cases r with
      | default d' =>
        unfold checkTarget at htarget
        dsimp only at htarget
        split at htarget
        · cases htarget
          rw [hkey hfound]
          exact hfound
        · cases htarget
      | associated a' => cases htarget
    | notFound => cases htarget
    | error => cases htarget

/-- Two records that were found for one default IMPU are the same. -/
theorem MemcachedCache.look_unique {cache : MemcachedCache} {w : World} {impu impu' : String}
    {d d' : DefaultImpu} (h : cache.defaultImpuFor w impu = (.ok, some d))
    (h' : cache.defaultImpuFor w impu' = (.ok, some d')) (heq : d'.impu = d.impu) : d' = d := by
  have hread := impuGr_of_look h'
  rw [heq, impuGr_of_look h] at hread
  cases hread
  rfl

/-- A subscription of one IRS. -/
theorem ImsSubscription.getIrsForDefaultImpu_singleton (irs : Irs) (key : String) :
    (ofIrss [irs]).getIrsForDefaultImpu key = if key = irs.defaultImpu then some irs else none := by
  show ((∅ : ImsSubscription).insert irs.defaultImpu irs)[key]? = _
  rw [getElem?_insert, Std.ExtTreeMap.getElem?_empty]

/-- The lookup of a subscription is complete exactly when all the default IMPUs in the
mapping that are found lead to one record. -/
theorem subscription_complete_iff (cache : MemcachedCache) (w : World) (impi : String) :
    (∃ r w', Eval serve (cache.getImsSubscription impi) w r w' ∧ ReturnsSubscription r
        (completeForImpi (cache.defaultImpuFor w) (cache.mappingGr w) impi)) ↔
      ∀ m, cache.mappingGr w impi = (.ok, some m) →
        FoundThen (cache.defaultImpuFor w) (fun d d' => d'.impu = d.impu) m.defaultImpus := by
  let look := cache.defaultImpuFor w
  have hlook := cache.isAnswer_defaultImpuFor w
  have hmapping := cache.eval_getImpiMappingGr impi w
  have hanswer := cache.isAnswer_mappingGr w impi
  unfold completeForImpi
  generalize cache.mappingGr w impi = found at hanswer hmapping ⊢
  cases hanswer with
  | notFound => exact ⟨nofun, fun _ => ⟨_, w, hmapping.bind (.ret _ _), rfl⟩⟩
  | error => exact ⟨nofun, fun _ => ⟨_, w, hmapping.bind (.ret _ _), rfl⟩⟩
  | found m =>
    simp only [Prod.mk.injEq, Option.some.injEq, true_and, forall_eq']
    obtain ⟨irss, w₁, he₁, -, hirss⟩ :=
      cache.eval_getImplicitRegistrationSetsForImpus m.defaultImpus w
    cases outcome hlook m.defaultImpus with
    | fails _ hfirst hcomplete hthen =>
      rw [hfirst] at he₁
      have hrun : Eval serve (cache.getImsSubscription impi) w (.error, none) w₁ :=
        hmapping.bind (he₁.bind (.ret _ _))
      rw [hrun.exists_iff, show completeForImpus look _ = _ from hcomplete]
      exact ⟨fun _ => hthen _, fun _ => rfl⟩
    | nothing _ hfirst hcomplete hthen =>
      rw [hfirst] at he₁
      have hrun : Eval serve (cache.getImsSubscription impi) w (.ok, some (.ofIrss irss)) w₁ :=
        hmapping.bind (he₁.bind (.ret _ _))
      rw [hrun.exists_iff, show completeForImpus look _ = _ from hcomplete]
      exact ⟨fun _ => hthen _, fun _ => ⟨_, rfl, fun d hd => absurd hd List.not_mem_nil⟩⟩
    | cut d _ hfirst hcomplete hthen =>
      -- The loop stops at the first IRS, so it never meets the error behind it.
      rw [hfirst] at he₁
      have hrun : Eval serve (cache.getImsSubscription impi) w (.ok, some (.ofIrss irss)) w₁ :=
        hmapping.bind (he₁.bind (.ret _ _))
      rw [hrun.exists_iff, show completeForImpus look _ = _ from hcomplete]
      exact ⟨nofun, fun h => absurd h (hthen _)⟩
    | found d ds _ hfirst hcomplete hthen =>
      rw [hfirst] at he₁ hirss
      have hrun : Eval serve (cache.getImsSubscription impi) w (.ok, some (.ofIrss irss)) w₁ :=
        hmapping.bind (he₁.bind (.ret _ _))
      rw [hrun.exists_iff, show completeForImpus look _ = _ from hcomplete,
        hthen]
      obtain ⟨irs, _, ⟨now, rfl⟩, hnil, rfl⟩ := List.forall₂_cons_right_iff.mp hirss
      cases hnil
      have hget : ∀ key, (ImsSubscription.ofIrss [Irs.ofDefaultImpu d now]).getIrsForDefaultImpu key
          = if key = d.impu then some (Irs.ofDefaultImpu d now) else none :=
        ImsSubscription.getIrsForDefaultImpu_singleton _
      -- One IRS is returned, so it has to be the one that every lookup finds.
      constructor
      · rintro ⟨sub, hsub, hall⟩ d' hd'
        cases hsub
        obtain ⟨irs', hirs', -⟩ := hall d' (List.mem_cons_of_mem _ hd')
        rw [hget] at hirs'
        by_contra hne
        rw [if_neg hne] at hirs'
        cases hirs'
      · intro hsame
        refine ⟨_, rfl, fun d' hd' => ?_⟩
        have heq : d'.impu = d.impu := by
          rcases List.mem_cons.mp hd' with rfl | hd'
          · rfl
          · exact hsame d' hd'
        obtain ⟨_, hl'⟩ := exists_look_of_mem hlook hcomplete hd'
        obtain ⟨_, hl⟩ := exists_look_of_mem hlook hcomplete List.mem_cons_self
        have hd'eq : d' = d := MemcachedCache.look_unique hl hl' heq
        refine ⟨_, by rw [hget, if_pos heq], ?_⟩
        rw [hd'eq]
        exact ⟨now, rfl⟩

/-- When the lookups of several identities are complete, for each of the three functions:
the one over IMPUs when no found IMPU is followed by anything but IMPUs that are not
found, the one over IMPIs when it fails or this is so in every mapping, and the one of a
subscription when the default IMPUs found in the mapping lead to one record. -/
theorem lookups_complete_iff (cache : MemcachedCache) (w : World) (impus impis : List String)
    (impi : String) :
    ((∃ r w', Eval serve (cache.getImplicitRegistrationSetsForImpus impus []) w r w' ∧
          Returns r (completeForImpus (cache.defaultImpuFor w) impus)) ↔
        OnlyOneFound (cache.defaultImpuFor w) impus) ∧
      ((∃ r w', Eval serve (cache.getImplicitRegistrationSetsForImpis impis []) w r w' ∧
          Returns r (completeForImpis (cache.defaultImpuFor w) (cache.mappingGr w) impis)) ↔
        (∃ impi ∈ impis, ImpiFails (cache.defaultImpuFor w) (cache.mappingGr w) impi) ∨
          ∀ impi ∈ impis, ∀ m, cache.mappingGr w impi = (.ok, some m) →
            OnlyOneFound (cache.defaultImpuFor w) m.defaultImpus) ∧
      ((∃ r w', Eval serve (cache.getImsSubscription impi) w r w' ∧ ReturnsSubscription r
          (completeForImpi (cache.defaultImpuFor w) (cache.mappingGr w) impi)) ↔
        ∀ m, cache.mappingGr w impi = (.ok, some m) →
          FoundThen (cache.defaultImpuFor w) (fun d d' => d'.impu = d.impu) m.defaultImpus) :=
  ⟨forImpus_complete_iff cache w impus, forImpis_complete_iff cache w impis,
    subscription_complete_iff cache w impi⟩

/-- A record with no associated IMPU. -/
def plainRecord : DefaultImpuData where
  registrationState := true
  serviceProfile := ""
  expiry := 100
  assocImpu := []
  impis := []
  ecfs := []
  ccfs := []

/-- A store with two subscribers. -/
def twoRecordsWorld : World :=
  World.setImpus { stores := fun _ => .empty, clock := fun _ => 0 } 0
    ((CasTable.empty.put "sip:a@example.com" (.decoded (.default plainRecord))).put
      "sip:b@example.com" (.decoded (.default plainRecord)))

/-- Of two IMPUs that are found, only the first is returned. -/
theorem forImpus_incomplete_for_two :
    ¬ ∃ r w', Eval serve (MemcachedCache.getImplicitRegistrationSetsForImpus ⟨0, []⟩
        ["sip:a@example.com", "sip:b@example.com"] []) twoRecordsWorld r w' ∧
      Returns r (completeForImpus (MemcachedCache.defaultImpuFor ⟨0, []⟩ twoRecordsWorld)
        ["sip:a@example.com", "sip:b@example.com"]) := by
  rw [forImpus_complete_iff, onlyOneFound_iff (MemcachedCache.isAnswer_defaultImpuFor _ _)]
  decide

end Homestead
