import Homestead.Proofs.RoundTrip

/-!
# `Homestead.Proofs.Undecodable`: data that is not decoded

`get_impu` and `get_impi_mapping` should answer `ERROR` for data that they do not decode, and leave
the out parameter as it is (`ImpuReported`, `MappingReported`). The callers of `from_data` rely on
its null pointer, and none of them catches an exception.

`undecodable_reported_iff` says for which data they do: for every mapping, and for every IMPU but a
record whose JSON object has neither a `default_impu` member nor a boolean `registration_state`.
`from_json` of such a default IMPU throws a `JsonFormatError`, which leaves `get_impu`.

`recordObject` is the object in a record of version 0, and `fromData_eq` says what `from_data` makes
of it.
-/

set_option autoImplicit false

namespace Homestead.Codec

variable (x : Codec)

/-- The JSON object in a well-formed record of version 0. -/
def recordObject (data : Bytes) : Option Members :=
  if data.length = 0 ∨ data.getD 0 0 ≠ 0 ∨ (decodeVarbyte data 1).1 = 0 then none
  else
    match x.decompress dictV0 (data.drop (decodeVarbyte data 1).2) (decodeVarbyte data 1).1 with
    | some json =>
      if json.length = 0 ∨ json.length ≠ (decodeVarbyte data 1).1 then none
      else
        match x.parse (cBytes json) with
        | some (.object members) => some members
        | _ => none
    | none => none

/-- `get_impu` on the data of a store: a decoded record, or `ERROR` with the out parameter
unchanged. No exception is thrown. -/
def ImpuReported (data : Bytes) : Prop :=
  ∀ impu store cas out,
    (∃ record, x.fromData impu data cas store = .ok (some record) ∧
      x.getImpu impu store (.ok, data, cas) out = .ok (.ok, some record)) ∨
    x.getImpu impu store (.ok, data, cas) out = .ok (.error, out)

/-- The same for `get_impi_mapping`. -/
def MappingReported (data : Bytes) : Prop :=
  ∀ impi cas out,
    (∃ mapping, x.mappingFromData impi data cas = some mapping ∧
      x.getImpiMapping impi (.ok, data, cas) out = (.ok, some mapping)) ∨
    x.getImpiMapping impi (.ok, data, cas) out = (.error, out)

variable {x}

/-- What `from_data` makes of the object. Without one it answers the null pointer. -/
theorem fromData_eq (impu : String) (data : Bytes) (cas : Nat) (store : StoreId) :
    x.fromData impu data cas store
      = match x.recordObject data with
        | none => .ok none
        | some members =>
          if Members.has members "default_impu" then
            .ok (some (.associated (x.associatedFromJson impu (.object members) cas store)))
          else (x.defaultFromJson impu (.object members) cas store).map fun d => some (.default d) := by
  unfold fromData recordObject
  by_cases hempty : data.length = 0
  · simp [hempty]
  by_cases hversion : data.getD 0 0 = 0
  · rw [if_neg hempty, if_pos hversion]
    by_cases hlength : (decodeVarbyte data 1).1 = 0
    · simp [hlength]
    · simp only [hempty, hversion, hlength, ne_eq, not_true_eq_false, or_self, if_false]
      cases x.decompress dictV0 (data.drop (decodeVarbyte data 1).2) (decodeVarbyte data 1).1 with
      | none => rfl
      | some json =>
        dsimp only
        split
        · rfl
        · unfold fromText
          -- The text is a parse error, an object, or some other value.
          cases x.parse (cBytes json) with
          | none => rfl
          | some value =>
            cases value with
            | object members =>
              dsimp only
              split
              · rfl
              · cases x.defaultFromJson impu (.object members) cas store <;> rfl
            | null => rfl
            | bool b => rfl
            | int64 n => rfl
            | string s => rfl
            | array elements => rfl
  · rw [if_neg hempty, if_neg hversion, if_pos (Or.inr (Or.inl hversion))]

/-- `from_json` of a default IMPU throws exactly when the registration state is not a boolean. -/
theorem defaultFromJson_cases (impu : String) (json : Json) (cas : Nat) (store : StoreId) :
    (x.getBool json "registration_state" = none ∧
      x.defaultFromJson impu json cas store = .error .badMember) ∨
    ∃ d, x.getBool json "registration_state" ≠ none ∧
      x.defaultFromJson impu json cas store = .ok d := by
  unfold defaultFromJson
  cases x.getBool json "registration_state" with
  | none => exact .inl ⟨rfl, rfl⟩
  | some state => exact .inr ⟨_, by simp, rfl⟩

/-- `get_impu` reports the data as it should when `from_data` returns. -/
theorem impuReported_of_ok {data : Bytes}
    (h : ∀ impu store cas, ∃ r, x.fromData impu data cas store = .ok r) : x.ImpuReported data := by
  intro impu store cas out
  obtain ⟨r, hr⟩ := h impu store cas
  cases r with
  | none =>
    right
    simp only [getImpu, if_true, hr]
    rfl
  | some record =>
    left
    refine ⟨record, hr, ?_⟩
    simp only [getImpu, if_true, hr]
    rfl

theorem mappingReported (data : Bytes) : x.MappingReported data := by
  intro impi cas out
  cases h : x.mappingFromData impi data cas with
  | none =>
    right
    simp [getImpiMapping, h]
  | some mapping =>
    left
    exact ⟨mapping, rfl, by simp [getImpiMapping, h]⟩

/-- For every byte string: `get_impi_mapping` always reports it as it should, and `get_impu` does if
and only if the data is not a record whose object lacks both a `default_impu` member and a
boolean `registration_state`. -/
theorem undecodable_reported_iff (x : Codec)
    (hbool : ∀ (members : Members) name b,
      x.getBool (.object members) name = some b ↔ members.lookup name = some (.bool b))
    (data : Bytes) :
    x.MappingReported data ∧
      (x.ImpuReported data ↔ ∀ members, x.recordObject data = some members →
        Members.has members "default_impu" = true ∨
          ∃ b, members.lookup "registration_state" = some (.bool b)) := by
  refine ⟨mappingReported data, ?_⟩
  constructor
  · intro hreported members hobject
    by_contra hbad
    obtain ⟨hassoc, hstate⟩ := not_or.mp hbad
    have hnone : x.getBool (.object members) "registration_state" = none := by
      cases hget : x.getBool (.object members) "registration_state" with
      | none => rfl
      | some b => exact absurd ⟨b, (hbool _ _ _).mp hget⟩ hstate
    -- The exception leaves `get_impu`, so there is no answer.
    have hthrows : ∀ out, x.getImpu "" 0 (.ok, data, 0) out = .error .badMember := by
      intro out
      have hfrom : x.fromData "" data 0 0 = .error .badMember := by
        rw [fromData_eq, hobject]
        dsimp only
        rw [if_neg hassoc]
        rcases defaultFromJson_cases (x := x) "" (.object members) 0 0 with ⟨-, h⟩ | ⟨d, h, -⟩
        · rw [h]
          rfl
        · exact absurd hnone h
      simp only [getImpu, if_true, hfrom]
      rfl
    rcases hreported "" 0 0 none with ⟨record, -, h⟩ | h
    · rw [hthrows] at h
      cases h
    · rw [hthrows] at h
      cases h
  · intro hgood
    apply impuReported_of_ok
    intro impu store cas
    rw [fromData_eq]
    cases hobject : x.recordObject data with
    | none => exact ⟨_, rfl⟩
    | some members =>
      dsimp only
      split
      · exact ⟨_, rfl⟩
      · rename_i hassoc
        rcases hgood members hobject with h | ⟨b, hb⟩
        · exact absurd h hassoc
        · rcases defaultFromJson_cases (x := x) impu (.object members) cas store with
            ⟨h, -⟩ | ⟨d, -, h⟩
          · rw [(hbool _ _ _).mpr hb] at h
            cases h
          · rw [h]
            exact ⟨_, rfl⟩

/-! ### A record with any members -/

/-- The record of version 0 whose text is that of the object. -/
def objectRecord (members : Members) : Bytes :=
  0 :: (encodeVarbyte (objectText members).length ++ lz4Literals (objectText members))

/-- The codec that knows the object and its text. -/
def objectCodec (members : Members) : Codec := plain members (objectText members)

theorem objectCodec_getBool (members members' : Members) (name : String) (b : Bool) :
    (objectCodec members).getBool (.object members') name = some b ↔
      members'.lookup name = some (.bool b) := by
  simp only [objectCodec, plain, member?]
  cases h : members'.lookup name with
  | none => simp
  | some value => cases value <;> simp

theorem recordObject_objectRecord {members : Members} (hnul : 0 ∉ objectText members)
    (hmax : (objectText members).length < intMax) :
    (objectCodec members).recordObject (objectRecord members) = some members := by
  have hpos : 0 < (objectText members).length := by simp [objectText]
  have hdecode := decodeVarbyte_encodeVarbyte hpos hmax [0] (lz4Literals (objectText members))
  simp only [List.singleton_append, List.length_singleton] at hdecode
  have hdrop : (objectRecord members).drop (1 + (encodeVarbyte (objectText members).length).length)
      = lz4Literals (objectText members) := by
    rw [objectRecord, Nat.add_comm, List.drop_succ_cons, List.drop_left]
  have hne : objectText members ≠ [] := List.ne_nil_of_length_pos hpos
  have hinflate : (objectCodec members).decompress dictV0 (lz4Literals (objectText members))
      (objectText members).length = some (objectText members) := by
    simp only [objectCodec, plain]
    rw [if_neg fun h => hne (lz4Literals_inj h), if_pos trivial]
  have hparse : (objectCodec members).parse (cBytes (objectText members))
      = some (.object members) := by
    rw [cBytes_of_noNul hnul]
    exact if_pos rfl
  have hhead : (objectRecord members).getD 0 0 = 0 := rfl
  have hcons : (objectRecord members).length ≠ 0 := by simp [objectRecord]
  unfold recordObject
  rw [show decodeVarbyte (objectRecord members) 1 = _ from hdecode]
  dsimp only
  rw [hdrop, hinflate]
  simp only [hhead, hcons, Nat.ne_of_gt hpos, ne_eq, not_true_eq_false, or_self, if_false, hparse]

/-- The record of an alias that has lost its expiry is still read as one. -/
theorem undecodable_reported_iff_alias :
    let members := [("default_impu", Json.string "sip:d@example.com")]
    (objectCodec members).ImpuReported (objectRecord members) := by
  intro members
  apply ((undecodable_reported_iff (objectCodec members) (objectCodec_getBool members)
    (objectRecord members)).2).mpr
  intro members' hobject
  rw [recordObject_objectRecord (by decide +kernel) (by decide +kernel), Option.some.injEq] at hobject
  rw [← hobject]
  exact .inl rfl

/-- The record of an empty object: an exception leaves `get_impu`. -/
theorem undecodable_thrown :
    (objectCodec []).getImpu "sip:d@example.com" 0 (.ok, objectRecord [], 1) none
        = .error .badMember ∧ ¬ (objectCodec []).ImpuReported (objectRecord []) := by
  have hthrows : (objectCodec []).getImpu "sip:d@example.com" 0 (.ok, objectRecord [], 1) none
      = .error .badMember := by
    have hfrom : (objectCodec []).fromData "sip:d@example.com" (objectRecord []) 1 0
        = .error .badMember := by
      rw [fromData_eq, recordObject_objectRecord (by decide +kernel) (by decide +kernel)]
      rfl
    simp only [getImpu, if_true, hfrom]
    rfl
  refine ⟨hthrows, ?_⟩
  intro hreported
  rcases hreported "sip:d@example.com" 0 1 none with ⟨record, -, h⟩ | h
  · rw [hthrows] at h
    cases h
  · rw [hthrows] at h
    cases h

end Homestead.Codec
